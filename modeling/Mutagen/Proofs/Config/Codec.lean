import Mutagen.Config.Codec
import Mutagen.Proofs.Config.Merge

/-!
# Configurations and their documents

A document that was made of a configuration gives this configuration back. Each reader
undoes its writer, and the laws go up from values to members, to sections and to the
whole. A setting that is not made has no member, and its reader takes this for the same.
-/
namespace Mutagen

/-! ## Documents can be compared -/

namespace Toml

mutual

/-- Whether two values are the same. -/
def same : Toml → Toml → Bool
  | string t, string u => t == u
  | integer m, integer n => m == n
  | float x, float y => decide (x = y)
  | boolean b, boolean c => b == c
  | moment t, moment u => t == u
  | array items, array others => sameItems items others
  | table entries, table others => sameEntries entries others
  | _, _ => false

def sameItems : List Toml → List Toml → Bool
  | [], [] => true
  | v :: vs, w :: ws => same v w && sameItems vs ws
  | _, _ => false

def sameEntries : List (String × Toml) → List (String × Toml) → Bool
  | [], [] => true
  | (k, v) :: vs, (l, w) :: ws => k == l && same v w && sameEntries vs ws
  | _, _ => false

end

mutual

theorem eq_of_same {v w : Toml} (h : same v w = true) : v = w := by
  cases v <;> cases w <;> simp only [same, Bool.false_eq_true] at h
  case string => rw [eq_of_beq h]
  case integer => rw [eq_of_beq h]
  case float => rw [of_decide_eq_true h]
  case boolean => rw [eq_of_beq h]
  case moment => rw [eq_of_beq h]
  case array => rw [eq_of_sameItems h]
  case table => rw [eq_of_sameEntries h]

theorem eq_of_sameItems {vs ws : List Toml} (h : sameItems vs ws = true) : vs = ws := by
  cases vs <;> cases ws <;> simp only [sameItems, Bool.and_eq_true, Bool.false_eq_true] at h
  case nil.nil => rfl
  case cons.cons => rw [eq_of_same h.1, eq_of_sameItems h.2]

theorem eq_of_sameEntries {vs ws : List (String × Toml)} (h : sameEntries vs ws = true) :
    vs = ws := by
  match vs, ws with
  | [], [] => rfl
  | (k, v) :: vs, (l, w) :: ws =>
    simp only [sameEntries, Bool.and_eq_true] at h
    rw [eq_of_beq h.1.1, eq_of_same h.1.2, eq_of_sameEntries h.2]

end

end Toml

/-- A table is made of its entries. -/
theorem Table.ofList_entries {α : Type} (t : Table α) : Table.ofList t.entries = t := by
  refine Eq.trans ?_ (empty_mergeWith (f := fun _ v => v) t)
  rw [ofList, mergeWith]
  congr 1
  funext u e
  cases u.get? e.1 <;> rfl

namespace Config

/-! ## Values -/

theorem bind_eq_ok_iff {α β : Type} {x : Except ConfigError α} {f : α → Except ConfigError β}
    {b : β} : (x >>= f) = .ok b ↔ ∃ a, x = .ok a ∧ f a = .ok b := by
  cases x with
  | error err => simp [bind, Except.bind]
  | ok a => simp [bind, Except.bind]

theorem decodeNat_integer {limit n : Nat} (h : n < limit) :
    decodeNat limit (.integer n) = some n := by
  simp [decodeNat, h]

theorem decodeWord64_of_encodeNat {n : UInt64} {v : Toml} (h : encodeNat n.toNat = .ok v) :
    decodeWord64 v = some n := by
  unfold encodeNat at h
  split at h
  · rename_i hn
    cases h
    simp [decodeWord64, decodeNat_integer hn]
  · cases h

theorem decodeWord32_of_encodeWord32 {n : UInt32} {v : Toml} (h : encodeWord32 n = .ok v) :
    decodeWord32 v = some n := by
  cases h
  simp [decodeWord32, decodeNat_integer n.toNat_lt]

theorem decodeFloat_of_encodeFloat {x : Float} {v : Toml} (h : encodeFloat x = .ok v) :
    decodeFloat v = some x := by
  cases h
  rfl

theorem decodeText_encodeText (s : String) : decodeText (encodeText s) = some s := by
  simp [decodeText, encodeText]

theorem decodeTexts_map_encodeText (l : List String) :
    decodeTexts (.array (l.map encodeText)) = some l := by
  rw [decodeTexts]
  induction l with
  | nil => rfl
  | cons s l ih => rw [List.map_cons, List.mapM_cons, decodeText_encodeText, ih]; rfl

/-! ## Members -/

/-- Entries that are written one by one are read one by one. -/
theorem mapM_of_mapM {α : Type} {write : α → Except ConfigError Toml} {read : Toml → Option α}
    (hread : ∀ a v, write a = .ok v → read v = some a) {l : List (String × α)}
    {members : List (String × Toml)}
    (h : (l.mapM fun (k, a) => do pure (k, ← write a)) = .ok members) :
    (members.mapM fun (k, v) => do pure (k, ← read v)) = some l := by
  induction l generalizing members with
  | nil =>
    cases h
    rfl
  | cons e l ih =>
    rw [List.mapM_cons] at h
    obtain ⟨m, hm, hrest⟩ := bind_eq_ok_iff.1 h
    obtain ⟨v, hv, hpair⟩ := bind_eq_ok_iff.1 hm
    obtain ⟨ms, hms, hcons⟩ := bind_eq_ok_iff.1 hrest
    cases hpair
    cases hcons
    rw [List.mapM_cons, ih hms]
    simp [hread e.2 v hv]

theorem decodeTable_of_mapM {α : Type} {write : α → Except ConfigError Toml}
    {read : Toml → Option α} (hread : ∀ a v, write a = .ok v → read v = some a) {t : Table α}
    {members : List (String × Toml)}
    (h : (t.entries.mapM fun (k, a) => do pure (k, ← write a)) = .ok members) :
    decodeTable read (.table members) = some t := by
  simp only [decodeTable, entriesOf, Option.bind_eq_bind, Option.bind_some]
  have hmembers := mapM_of_mapM hread h
  simp only [Option.bind_eq_bind] at hmembers
  rw [hmembers, Option.bind_some, Table.ofList_entries]
  rfl

section

variable {α : Type} {key : String} {f : α → Except ConfigError Toml} {o : Option α}
  {members entries : List (String × Toml)}

theorem lookup_optional_of_ne (h : optional key f o = .ok members) {k : String} (hk : k ≠ key) :
    members.lookup k = none := by
  cases o with
  | none =>
    cases h
    rfl
  | some a =>
    obtain ⟨v, -, hmembers⟩ := bind_eq_ok_iff.1 h
    cases hmembers
    exact lookup_cons_of_ne hk []

/-- The member of a setting gives back the setting, and no member gives back none. -/
theorem member_optional (h : optional key f o = .ok members) {g : Toml → Option α}
    (hg : ∀ a v, f a = .ok v → g v = some a) (hentries : entries.lookup key = members.lookup key) :
    member entries key (fun v => (g v).map some) none = some o := by
  rw [member, hentries]
  cases o with
  | none =>
    cases h
    rfl
  | some a =>
    obtain ⟨v, hv, hmembers⟩ := bind_eq_ok_iff.1 h
    cases hmembers
    simp [hg a v hv]

end

theorem member_of_lookup {α : Type} {entries : List (String × Toml)} {key : String}
    {f : Toml → Option α} {missing : α} {v : Toml} (h : entries.lookup key = some v) :
    member entries key f missing = f v := by
  rw [member, h]

/-! ## Sections -/

theorem decodeOverride_of_encodeOverride {o : Override} {v : Toml} (h : encodeOverride o = .ok v) :
    decodeOverride v = some o := by
  obtain ⟨enabled, henabled, h⟩ := bind_eq_ok_iff.1 h
  obtain ⟨likelihood, hlikelihood, h⟩ := bind_eq_ok_iff.1 h
  obtain ⟨low, hlow, h⟩ := bind_eq_ok_iff.1 h
  obtain ⟨high, hhigh, h⟩ := bind_eq_ok_iff.1 h
  obtain ⟨attempts, hattempts, h⟩ := bind_eq_ok_iff.1 h
  cases h
  have hbool : ∀ b v, (Except.ok (.boolean b) : Except ConfigError Toml) = .ok v →
      decodeBool v = some b := by
    intro b v hv
    cases hv
    rfl
  simp only [decodeOverride, sectionOf, Option.bind_eq_bind, Option.bind_some]
  rw [member_optional henabled hbool,
    member_optional hlikelihood fun _ _ => decodeFloat_of_encodeFloat,
    member_optional hlow fun _ _ => decodeWord32_of_encodeWord32,
    member_optional hhigh fun _ _ => decodeWord32_of_encodeWord32,
    member_optional hattempts fun _ _ => decodeWord32_of_encodeWord32]
  · rfl
  all_goals
    simp [List.lookup_append, lookup_optional_of_ne henabled, lookup_optional_of_ne hlikelihood,
      lookup_optional_of_ne hlow, lookup_optional_of_ne hhigh, lookup_optional_of_ne hattempts]

theorem decodeExtraction_of_encodeExtraction {c : ExtractionConfig} {v : Toml}
    (h : encodeExtraction c = .ok v) : decodeExtraction v = some c := by
  obtain ⟨maxEntities, hmax, h⟩ := bind_eq_ok_iff.1 h
  obtain ⟨size, hsize, h⟩ := bind_eq_ok_iff.1 h
  cases h
  have hother := @lookup_optional_of_ne _ _ _ _ _ hmax
  simp only [decodeExtraction, sectionOf, Option.bind_eq_bind, Option.bind_some]
  rw [ExtractionConfig.initial, member_optional hmax fun _ _ => decodeWord64_of_encodeNat,
    member_of_lookup (v := size), member_of_lookup (v := .array (c.excludePatterns.map encodeText)),
    decodeWord64_of_encodeNat hsize, decodeTexts_map_encodeText]
  · rfl
  all_goals simp [List.lookup_append, lookup_cons_of_ne, hother]

theorem decodeMutation_of_encodeMutation {c : MutationConfig} {v : Toml}
    (h : encodeMutation c = .ok v) : decodeMutation v = some c := by
  obtain ⟨seed, hseed, h⟩ := bind_eq_ok_iff.1 h
  obtain ⟨likelihood, hlikelihood, h⟩ := bind_eq_ok_iff.1 h
  obtain ⟨most, hmost, h⟩ := bind_eq_ok_iff.1 h
  obtain ⟨modifiers, hmodifiers, h⟩ := bind_eq_ok_iff.1 h
  cases h
  have hother := @lookup_optional_of_ne _ _ _ _ _ hlikelihood
  simp only [decodeMutation, sectionOf, Option.bind_eq_bind, Option.bind_some]
  rw [MutationConfig.initial, member_of_lookup (v := seed),
    member_optional hlikelihood fun _ _ => decodeFloat_of_encodeFloat,
    member_of_lookup (v := most), member_of_lookup (v := .table modifiers),
    decodeWord64_of_encodeNat hseed, decodeWord64_of_encodeNat hmost,
    decodeTable_of_mapM (fun _ _ => decodeOverride_of_encodeOverride) hmodifiers]
  · rfl
  all_goals simp [List.lookup_append, lookup_cons_of_ne, hother]

theorem decodeLanguages_encodeLanguages (c : LanguagesConfig) :
    decodeLanguages (encodeLanguages c) = some c := by
  have hlanguages : encodeLanguages c = .table [("disabled", .array (c.disabled.map encodeText)),
      ("extensions", .table (c.extensions.entries.map fun e => (e.1, encodeText e.2)))] := rfl
  have hread : ∀ (s : String) (v : Toml),
      (Except.ok (encodeText s) : Except ConfigError Toml) = .ok v → decodeText v = some s := by
    intro s v hv
    cases hv
    exact decodeText_encodeText s
  have hextensions : decodeTable decodeText
      (.table (c.extensions.entries.map fun e => (e.1, encodeText e.2))) = some c.extensions := by
    refine decodeTable_of_mapM hread ?_
    induction c.extensions.entries with
    | nil => rfl
    | cons e entries ih =>
      rw [List.mapM_cons, ih]
      rfl
  simp only [hlanguages, decodeLanguages, sectionOf, Option.bind_eq_bind, Option.bind_some]
  rw [member_of_lookup (v := .array (c.disabled.map encodeText)) List.lookup_cons_self,
    member_of_lookup (v := .table (c.extensions.entries.map fun e => (e.1, encodeText e.2))),
    decodeTexts_map_encodeText, hextensions]
  · rfl
  · simp [lookup_cons_of_ne]

theorem decodeLogging_encodeLogging (c : LoggingConfig) :
    decodeLogging (encodeLogging c) = some c := by
  simp only [decodeLogging, encodeLogging, sectionOf, Option.bind_eq_bind, Option.bind_some]
  rw [member_of_lookup (v := encodeText c.level) List.lookup_cons_self, decodeText_encodeText]
  rfl

/-- The document of a configuration gives it back. -/
theorem decode_of_encode {c : Config} {doc : Toml} (h : c.encode = .ok doc) :
    decode doc = some c := by
  obtain ⟨extraction, hextraction, h⟩ := bind_eq_ok_iff.1 h
  obtain ⟨mutation, hmutation, h⟩ := bind_eq_ok_iff.1 h
  cases h
  simp only [decode, sectionOf, Option.bind_eq_bind, Option.bind_some]
  rw [member_of_lookup (v := extraction), member_of_lookup (v := mutation),
    member_of_lookup (v := encodeLanguages c.languages),
    member_of_lookup (v := encodeLogging c.logging),
    decodeExtraction_of_encodeExtraction hextraction, decodeMutation_of_encodeMutation hmutation,
    decodeLanguages_encodeLanguages, decodeLogging_encodeLogging]
  · rfl
  all_goals simp [lookup_cons_of_ne]

end Config
end Mutagen
