import Mutagen.Proofs.Edit.Conservation
import Mutagen.Text.Lines

/-!
# Characters that are not blank

Dedenting takes nothing but blanks away, so that a text and its dedented form have the
same characters that are not blank. A span has no fewer of them than two spans inside
it together, when these share no byte.
-/
namespace Mutagen
namespace Text

/-- The characters that are not blank. -/
def dense (t : Text) : Text := t.filter fun c => !isBlank c

@[simp] theorem dense_nil : dense [] = [] := rfl

@[simp] theorem dense_append (a b : Text) : dense (a ++ b) = dense a ++ dense b :=
  List.filter_append ..

theorem dense_cons_of_blank {c : Char} (hc : isBlank c = true) (t : Text) :
    dense (c :: t) = dense t :=
  List.filter_cons_of_neg (by simp [hc])

theorem dense_eq_nil {t : Text} (h : ∀ c ∈ t, isBlank c = true) : dense t = [] :=
  List.filter_eq_nil_iff.2 fun c hc => by simp [h c hc]

/-- Number of characters that are not blank. -/
def solid (t : Text) : Nat := t.countP fun c => !isBlank c

@[simp] theorem solid_nil : solid [] = 0 := rfl

@[simp] theorem solid_cons (c : Char) (t : Text) :
    solid (c :: t) = (if isBlank c = true then 0 else 1) + solid t := by
  unfold solid
  rw [List.countP_cons, Nat.add_comm]
  cases isBlank c <;> rfl

@[simp] theorem solid_append (a b : Text) : solid (a ++ b) = solid a + solid b :=
  List.countP_append

theorem solid_flatten (ts : List Text) : solid ts.flatten = (ts.map solid).sum :=
  List.countP_flatten

theorem length_dense (t : Text) : (dense t).length = solid t := List.countP_eq_length_filter.symm

theorem solid_eq_of_perm {a b : Text} (h : a.Perm b) : solid a = solid b := h.countP_eq _

theorem solid_pos {t : Text} {c : Char} (h : c ∈ t) (hc : isBlank c = false) : 0 < solid t :=
  List.countP_pos_iff.2 ⟨c, h, by simp [hc]⟩

/-! ## Dedenting -/

theorem eq_append_of_dropLead? {lead t rest : Text} (h : dropLead? lead t = some rest) :
    t = lead ++ rest := by
  induction lead generalizing t with
  | nil =>
    cases h
    rfl
  | cons d lead ih =>
    cases t with
    | nil => cases h
    | cons c t =>
      rw [dropLead?] at h
      split at h
      · rename_i hdc
        rw [hdc, ih h, List.cons_append]
      · cases h

theorem dropLead?_append (lead rest : Text) : dropLead? lead (lead ++ rest) = some rest := by
  induction lead with
  | nil => rfl
  | cons d lead ih => simp [dropLead?, ih]

section Kept

variable {kept : Char → Bool} (hkept : ∀ c, isIndent c = true → kept c = false)

include hkept

theorem filter_dropIndent (n : Nat) (t : Text) :
    (dropIndent n t).filter kept = t.filter kept := by
  induction n generalizing t with
  | zero => rfl
  | succ n ih =>
    cases t with
    | nil => rfl
    | cons c t =>
      rw [dropIndent]
      split
      · rename_i hc
        rw [ih, List.filter_cons_of_neg (by simp [hkept c hc])]
      · rfl

variable {indent : Text} (hindent : ∀ c ∈ indent, kept c = false)

include hindent

theorem filter_stripIndent (line : Text) :
    (stripIndent indent line).filter kept = line.filter kept := by
  unfold stripIndent
  split
  · rename_i rest hrest
    have hnil : indent.filter kept = [] :=
      List.filter_eq_nil_iff.2 fun c hc => by simp [hindent c hc]
    rw [eq_append_of_dropLead? hrest, List.filter_append, hnil, List.nil_append]
  · exact filter_dropIndent hkept _ line

/-- Dedenting keeps all characters that neither the indentation nor an indented line has. -/
theorem filter_dedent (t : Text) : (dedent t indent).filter kept = t.filter kept := by
  have hlines := congrArg (List.filter kept) (flatten_lines t)
  unfold dedent
  cases hl : lines t with
  | nil =>
    rw [hl] at hlines
    exact hlines
  | cons first rest =>
    have hrest : (rest.map (stripIndent indent)).map (List.filter kept) =
        rest.map (List.filter kept) := by
      rw [List.map_map]
      exact List.map_congr_left fun line _ => filter_stripIndent hkept hindent line
    rw [hl, List.flatten_cons, List.filter_append, List.filter_flatten] at hlines
    dsimp only
    rw [List.filter_append, List.filter_flatten, hrest]
    exact hlines

end Kept

section Dedent

variable {indent : Text} (hindent : ∀ c ∈ indent, isBlank c = true)

include hindent

/-- Dedenting keeps the characters that are not blank. -/
theorem dense_dedent (t : Text) : dense (dedent t indent) = dense t :=
  filter_dedent (fun c hc => by simp [isBlank_of_isIndent hc])
    (fun c hc => by simp [hindent c hc]) t

theorem solid_dedent (t : Text) : solid (dedent t indent) = solid t := by
  rw [← length_dense, dense_dedent hindent, length_dense]

end Dedent

theorem isIndent_of_mem_lineIndent {t : Text} {n : Nat} {c : Char} (h : c ∈ t.lineIndent n) :
    isIndent c = true := by
  unfold lineIndent at h
  split at h
  · exact List.all_eq_true.1 List.all_takeWhile c h
  · cases h

theorem isBlank_of_mem_lineIndent {t : Text} {n : Nat} {c : Char} (h : c ∈ t.lineIndent n) :
    isBlank c = true :=
  isBlank_of_isIndent (isIndent_of_mem_lineIndent h)

end Text

/-! ## Spans -/

namespace Span

/-- The span is a run of characters of the text. -/
structure Fits (s : Span) (t : Text) : Prop where
  ordered : s.start ≤ s.stop
  start : t.isBoundary s.start = true
  stop : t.isBoundary s.stop = true

theorem fits_iff {s : Span} {t : Text} : s.Fits t ↔
    s.start ≤ s.stop ∧ t.isBoundary s.start = true ∧ t.isBoundary s.stop = true :=
  ⟨fun h => ⟨h.ordered, h.start, h.stop⟩, fun h => ⟨h.1, h.2.1, h.2.2⟩⟩

instance (s : Span) (t : Text) : Decidable (s.Fits t) := decidable_of_iff _ fits_iff.symm

variable {t : Text} {a b u : Span}

theorem Fits.slice? (h : a.Fits t) : t.slice? a.start a.stop = some (a.text t) := by
  obtain ⟨m, hm⟩ := Text.exists_slice? h.start h.stop h.ordered
  rw [Text.text_eq_of_slice? hm]
  exact hm

/-- A span is cut at a boundary inside it. -/
theorem text_cut {i n j : Nat} (hleft : (⟨i, n⟩ : Span).Fits t) (hright : (⟨n, j⟩ : Span).Fits t) :
    (⟨i, j⟩ : Span).text t = (⟨i, n⟩ : Span).text t ++ (⟨n, j⟩ : Span).text t :=
  Text.text_eq_of_slice? (Text.slice?_trans hleft.slice? hright.slice?)

theorem Fits.solid_le (ha : a.Fits t) (hu : u.Fits t) (hstart : u.start ≤ a.start)
    (hstop : a.stop ≤ u.stop) : (a.text t).solid ≤ (u.text t).solid := by
  have hord := ha.ordered
  have hbefore : (⟨u.start, a.start⟩ : Span).Fits t := ⟨hstart, hu.start, ha.start⟩
  have hbehind : (⟨a.stop, u.stop⟩ : Span).Fits t := ⟨hstop, ha.stop, hu.stop⟩
  have hrest : (⟨a.start, u.stop⟩ : Span).Fits t := ⟨Nat.le_trans hord hstop, ha.start, hu.stop⟩
  have hwhole := text_cut hbefore hrest
  rw [text_cut ha hbehind] at hwhole
  have hsolid := congrArg Text.solid hwhole
  simp only [Text.solid_append] at hsolid
  change (u.text t).solid = _ + ((a.text t).solid + _) at hsolid
  omega

/-- Two spans without a common byte have no more than a span around them. -/
theorem Fits.solid_add_le (ha : a.Fits t) (hb : b.Fits t) (hu : u.Fits t)
    (hstart : u.start ≤ a.start) (hab : a.stop ≤ b.start) (hstop : b.stop ≤ u.stop) :
    (a.text t).solid + (b.text t).solid ≤ (u.text t).solid := by
  have haord := ha.ordered
  have hbord := hb.ordered
  have hcut : u.start ≤ b.start := by omega
  have hleft : (⟨u.start, b.start⟩ : Span).Fits t := ⟨hcut, hu.start, hb.start⟩
  have hright : (⟨b.start, u.stop⟩ : Span).Fits t := ⟨Nat.le_trans hbord hstop, hb.start, hu.stop⟩
  have hale := ha.solid_le hleft hstart hab
  have hble := hb.solid_le hright (Nat.le_refl _) hstop
  have hsolid := congrArg Text.solid (text_cut hleft hright)
  rw [Text.solid_append] at hsolid
  change (u.text t).solid = _ at hsolid
  omega

end Span
end Mutagen
