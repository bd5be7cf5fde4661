import Mathlib.Data.List.Infix
import Mutagen.Files

/-!
# What stays when files are written

Making a directory and writing a file keep everything that was there before: every path
that led to a file or a directory still leads to it. What is new is in view at the place
that was written. A directory that is made can bring more into view, when a path goes
through it and up again, or when the path is one of a directory that is made.
-/
namespace Mutagen

/-- The bytes of a text are those of this text. -/
theorem Bytes.text?_bytes (t : Text) : Bytes.text? (Text.bytes t) = some t := by
  have hbytes : ByteArray.mk (Text.bytes t).toArray = (String.ofList t).toByteArray :=
    ByteArray.ext List.data_toByteArray.symm
  have hvalid : (ByteArray.mk (Text.bytes t).toArray).IsValidUTF8 := by
    rw [hbytes]
    exact (String.ofList t).isValidUTF8
  have hstring : String.fromUTF8 _ hvalid = String.ofList t := String.toByteArray_inj.1 hbytes
  rw [text?, String.fromUTF8?, dif_pos hvalid, hstring, Option.map_some, String.toList_ofList]

namespace Files

variable {fs fs' : Files} {p q n : Place} {name : List Char} {path : String} {b : Bytes} {t : Text}

/-! ## Places -/

theorem isDirectoryAt_iff :
    fs.isDirectoryAt p = true ↔
      p = [] ∨ (∃ f ∈ fs.folders, p <+: f) ∨ ∃ e ∈ fs.entries, p <+: e.1 ∧ e.1 ≠ p := by
  simp [isDirectoryAt, or_assoc]

/-- What lies above a directory is a directory. -/
theorem isDirectoryAt_of_prefix (hq : q <+: p) (hp : fs.isDirectoryAt p = true) :
    fs.isDirectoryAt q = true := by
  rw [isDirectoryAt_iff] at hp ⊢
  rcases hp with rfl | ⟨f, hf, hpf⟩ | ⟨e, he, hpe, hne⟩
  · exact .inl (List.prefix_nil.1 hq)
  · exact .inr (.inl ⟨f, hf, hq.trans hpf⟩)
  · refine .inr (.inr ⟨e, he, hq.trans hpe, ?_⟩)
    rintro rfl
    exact hne (hq.eq_of_length_le hpe.length_le)

theorem exists_entry_of_isFileAt (h : fs.isFileAt p = true) : ∃ e ∈ fs.entries, e.1 = p := by
  obtain ⟨b, hb⟩ := Option.isSome_iff_exists.1 h
  obtain ⟨l₁, l₂, hl, -⟩ := List.lookup_eq_some_iff.1 hb
  exact ⟨(p, b), by simp [hl], rfl⟩

/-- What lies above a file is a directory. -/
theorem isDirectoryAt_of_isFileAt (hq : q <+: p) (hne : p ≠ q) (hp : fs.isFileAt p = true) :
    fs.isDirectoryAt q = true := by
  obtain ⟨e, he, rfl⟩ := exists_entry_of_isFileAt hp
  exact isDirectoryAt_iff.2 (.inr (.inr ⟨e, he, hq, hne⟩))

/-! ## Steps -/

/-- A step starts from a directory, and its name decides where it leads. -/
theorem step_eq_ok_iff :
    fs.step p name = .ok q ↔
      fs.isFileAt p = false ∧ fs.isDirectoryAt p = true ∧
        (name = ['.'] ∧ q = p ∨ name = ['.', '.'] ∧ q = p.dropLast ∨
          name ≠ ['.'] ∧ name ≠ ['.', '.'] ∧ ¬nameLimit < (Text.bytes name).length ∧
            q = p ++ [name]) := by
  unfold step
  cases fs.isFileAt p with
  | true => simp
  | false =>
    cases fs.isDirectoryAt p with
    | false => simp
    | true =>
      by_cases hdot : name = ['.']
      · simp [hdot, @eq_comm _ q]
      · by_cases hup : name = ['.', '.']
        · simp [hup, @eq_comm _ q]
        · by_cases hlong : nameLimit < (Text.bytes name).length
          · simp [hdot, hup, hlong]
          · simp [hdot, hup, hlong, @eq_comm _ q]

theorem start_eq (h : fs'.current = fs.current) (path : String) :
    fs'.start path = fs.start path := by
  rw [start, start, h]

/-- Steps that can be taken in some files can be taken in others in which each of them can. -/
theorem foldlM_step_eq_ok
    (hstep : ∀ p name q, fs.step p name = .ok q → fs'.step p name = .ok q)
    (names : List (List Char)) (h : names.foldlM fs.step p = .ok q) :
    names.foldlM fs'.step p = .ok q := by
  induction names generalizing p with
  | nil => exact h
  | cons name names ih =>
    rw [List.foldlM_cons] at h ⊢
    cases hfirst : fs.step p name with
    | error err =>
      rw [hfirst] at h
      cases h
    | ok p' =>
      rw [hfirst] at h
      rw [hstep p name p' hfirst]
      exact ih h

theorem locate_eq_ok_iff :
    fs.locate path = .ok q ↔
      ∃ p, fs.start path = .ok p ∧ (Path.steps path).foldlM fs.step p = .ok q := by
  unfold locate
  cases fs.start path with
  | error err => simp [bind, Except.bind]
  | ok p => simp [bind, Except.bind]

theorem locate_eq_ok (hcurrent : fs'.current = fs.current)
    (hstep : ∀ p name q, fs.step p name = .ok q → fs'.step p name = .ok q)
    (h : fs.locate path = .ok q) : fs'.locate path = .ok q := by
  obtain ⟨p, hstart, hsteps⟩ := locate_eq_ok_iff.1 h
  exact locate_eq_ok_iff.2
    ⟨p, (start_eq hcurrent path).trans hstart, foldlM_step_eq_ok hstep _ hsteps⟩

theorem exists?_iff :
    fs.exists? path = true ↔
      ∃ p, fs.locate path = .ok p ∧ (fs.isFileAt p = true ∨ fs.isDirectoryAt p = true) := by
  unfold exists? isFile isDirectory leadsTo
  cases fs.locate path <;> simp

/-- Only the place counts to which a path leads. -/
theorem exists?_eq_of_locate {path' : String} (h : fs.locate path = .ok p)
    (h' : fs.locate path' = .ok p) : fs.exists? path = fs.exists? path' := by
  simp only [exists?, isFile, isDirectory, leadsTo, h, h']

theorem at?_eq_none (h : fs.locate path = .ok p) (hnew : fs.exists? path = false) :
    fs.at? p = none := by
  simp only [exists?, isFile, isDirectory, leadsTo, h, Bool.or_eq_false_iff] at hnew
  exact Option.isSome_eq_false_iff.1 hnew.1 |> Option.isNone_iff_eq_none.1

/-! ## Files with more in them -/

/-- Files with all that others have in the same places. -/
structure Extends (fs fs' : Files) : Prop where
  current : fs'.current = fs.current
  file : ∀ p b, fs.at? p = some b → fs'.at? p = some b
  directory : ∀ p, fs.isDirectoryAt p = true → fs'.isDirectoryAt p = true
  /-- No file takes the place of a directory. -/
  apart : ∀ p, fs.isDirectoryAt p = true → fs.at? p = none → fs'.at? p = none

namespace Extends

theorem refl (fs : Files) : fs.Extends fs :=
  ⟨rfl, fun _ _ h => h, fun _ h => h, fun _ _ h => h⟩

theorem trans {fs'' : Files} (h : fs.Extends fs') (h' : fs'.Extends fs'') : fs.Extends fs'' where
  current := h'.current.trans h.current
  file p b hp := h'.file p b (h.file p b hp)
  directory p hp := h'.directory p (h.directory p hp)
  apart p hp hnone := h'.apart p (h.directory p hp) (h.apart p hp hnone)

theorem step (h : fs.Extends fs') (hp : fs.step p name = .ok q) : fs'.step p name = .ok q := by
  rw [step_eq_ok_iff] at hp ⊢
  obtain ⟨hfile, hdirectory, hname⟩ := hp
  refine ⟨?_, h.directory p hdirectory, hname⟩
  rw [isFileAt, Option.isSome_eq_false_iff, Option.isNone_iff_eq_none] at hfile ⊢
  exact h.apart p hdirectory hfile

theorem locate (h : fs.Extends fs') (hp : fs.locate path = .ok p) : fs'.locate path = .ok p :=
  locate_eq_ok h.current (fun _ _ _ => h.step) hp

theorem read (h : fs.Extends fs') (hb : fs.read path = .ok b) : fs'.read path = .ok b := by
  unfold Files.read at hb ⊢
  cases hp : fs.locate path with
  | error err =>
    rw [hp] at hb
    cases hb
  | ok p =>
    rw [hp] at hb
    rw [h.locate hp]
    simp only [bind, Except.bind] at hb ⊢
    cases hat : fs.at? p with
    | none =>
      rw [hat] at hb
      cases hb
    | some b' =>
      rw [hat] at hb
      rw [h.file p b' hat]
      exact hb

theorem exists? (h : fs.Extends fs') (hp : fs.exists? path = true) : fs'.exists? path = true := by
  rw [exists?_iff] at hp ⊢
  obtain ⟨p, hlocate, hfile | hdirectory⟩ := hp
  · obtain ⟨b, hb⟩ := Option.isSome_iff_exists.1 hfile
    exact ⟨p, h.locate hlocate, .inl (Option.isSome_iff_exists.2 ⟨b, h.file p b hb⟩)⟩
  · exact ⟨p, h.locate hlocate, .inr (h.directory p hdirectory)⟩

/-- A path that led to something reads as before, also when it cannot be read. -/
theorem readText (h : fs.Extends fs') (hp : fs.exists? path = true) :
    fs'.readText path = fs.readText path := by
  obtain ⟨p, hlocate, hthere⟩ := exists?_iff.1 hp
  have hread : fs'.read path = fs.read path := by
    unfold Files.read
    rw [h.locate hlocate, hlocate]
    simp only [bind, Except.bind]
    cases hat : fs.at? p with
    | some b => rw [h.file p b hat]
    | none =>
      have hdirectory : fs.isDirectoryAt p = true := by
        refine hthere.resolve_left ?_
        simp [isFileAt, hat]
      rw [h.apart p hdirectory hat, hdirectory, h.directory p hdirectory]
  rw [Files.readText, Files.readText, hread]

end Extends

/-! ## Pieces of a path -/

section

variable {α : Type} [DecidableEq α] {sep : α}

theorem splitOn_of_not_mem {l : List α} (h : sep ∉ l) : Path.splitOn sep l = [l] := by
  induction l with
  | nil => rfl
  | cons c l ih =>
    rw [List.mem_cons, not_or] at h
    rw [Path.splitOn, if_neg (Ne.symm h.1), ih h.2]

theorem splitOn_ne_nil (l : List α) : Path.splitOn sep l ≠ [] := by
  cases l with
  | nil => simp [Path.splitOn]
  | cons c l =>
    rw [Path.splitOn]
    split
    · simp
    · split <;> simp

/-- A list with empty pieces only is made of separators. -/
theorem eq_sep_of_splitOn {l : List α} (h : ∀ piece ∈ Path.splitOn sep l, piece = []) :
    ∀ c ∈ l, c = sep := by
  induction l with
  | nil => simp
  | cons c l ih =>
    rw [Path.splitOn] at h
    split at h
    · rename_i hc
      intro d hd
      rcases List.mem_cons.1 hd with rfl | hd
      · exact hc
      · exact ih (fun piece hpiece => h piece (List.mem_cons_of_mem _ hpiece)) d hd
    · split at h
      · exact absurd (h [c] (by simp)) (by simp)
      · rename_i piece pieces _
        exact absurd (h (c :: piece) (by simp)) (by simp)

theorem splitOn_append_cons (l rest : List α) :
    Path.splitOn sep (l ++ sep :: rest) = Path.splitOn sep l ++ Path.splitOn sep rest := by
  induction l with
  | nil => simp [Path.splitOn]
  | cons c l ih =>
    rw [List.cons_append, Path.splitOn, Path.splitOn, ih]
    split
    · rfl
    · cases hl : Path.splitOn sep l with
      | nil => exact absurd hl (splitOn_ne_nil l)
      | cons piece pieces => rfl

end

/-- A path that is not empty has a step. -/
theorem steps_ne_nil (h : path ≠ "") : Path.steps path ≠ [] := by
  intro hsteps
  obtain ⟨hpieces, hend⟩ := List.append_eq_nil_iff.1 hsteps
  have hempty : ∀ piece ∈ Path.splitOn '/' path.toList, piece = [] := by
    intro piece hpiece
    simpa using List.filter_eq_nil_iff.1 hpieces piece hpiece
  cases hlast : path.toList.getLast? with
  | none => exact h (String.toList_eq_nil_iff.1 (List.getLast?_eq_none_iff.1 hlast))
  | some c =>
    have hc : c = '/' := eq_sep_of_splitOn hempty c (List.mem_of_getLast? hlast)
    rw [hlast, hc] at hend
    simp at hend

/-! ## Making directories -/

theorem extends_folders (fs : Files) (made : List Place) :
    fs.Extends { fs with folders := made ++ fs.folders } where
  current := rfl
  file _ _ h := h
  directory p hp := by
    rw [isDirectoryAt_iff] at hp ⊢
    refine hp.imp_right (Or.imp_left ?_)
    rintro ⟨f, hf, hpf⟩
    exact ⟨f, List.mem_append_right _ hf, hpf⟩
  apart _ _ h := h

/-- The names along which a path leads from the top, if it does not go up. -/
def way (fs : Files) (path : String) : Place :=
  (if Path.isAbsolute path then [] else fs.current) ++ (Path.steps path).filter (· != ['.'])

/-- Only directories are made along names, and without a step up only on the way to the last. -/
theorem makeAlong_snd (fs : Files) (p : Place) (names : List (List Char)) :
    ∃ made, (fs.makeAlong p names).2 = { fs with folders := made ++ fs.folders } ∧
      (['.', '.'] ∉ names → ∀ f ∈ made, f <+: p ++ names.filter (· != ['.'])) := by
  induction names generalizing fs p with
  | nil => exact ⟨[], rfl, fun _ f hf => absurd hf List.not_mem_nil⟩
  | cons name names ih =>
    rw [makeAlong]
    cases hstep : fs.step p name with
    | error err => exact ⟨[], rfl, fun _ f hf => absurd hf List.not_mem_nil⟩
    | ok q =>
      simp only
      split
      · exact ⟨[], rfl, fun _ f hf => absurd hf List.not_mem_nil⟩
      · obtain ⟨made, hmade, hway⟩ := ih { fs with folders := q :: fs.folders } q
        refine ⟨made ++ [q], by simp [hmade], ?_⟩
        intro hplain
        rw [List.mem_cons, not_or] at hplain
        obtain ⟨hname, hnames⟩ := hplain
        have hnext : q ++ names.filter (· != ['.']) = p ++ (name :: names).filter (· != ['.']) := by
          obtain ⟨-, -, ⟨rfl, rfl⟩ | ⟨rfl, -⟩ | ⟨hdot, -, -, rfl⟩⟩ := step_eq_ok_iff.1 hstep
          · simp
          · exact absurd rfl hname
          · simp [hdot]
        intro f hf
        rw [← hnext]
        rcases List.mem_append.1 hf with hf | hf
        · exact hway hnames f hf
        · rw [List.mem_singleton.1 hf]
          exact List.prefix_append _ _

theorem extends_makeAlong (fs : Files) (p : Place) (names : List (List Char)) :
    fs.Extends (fs.makeAlong p names).2 := by
  obtain ⟨made, hmade, -⟩ := fs.makeAlong_snd p names
  rw [hmade]
  exact fs.extends_folders made

theorem start_eq_ok (h : fs.start path = .ok p) :
    p = if Path.isAbsolute path then [] else fs.current := by
  unfold start at h
  split at h
  · cases h
  · split at h
    · cases h
    · split at h
      · cases h
      · exact (Except.ok.inj h).symm

theorem makeDirectory_snd (fs : Files) (dir : String) :
    ∃ made, (fs.makeDirectory dir).2 = { fs with folders := made ++ fs.folders } ∧
      (['.', '.'] ∉ Path.steps dir → ∀ f ∈ made, f <+: fs.way dir) := by
  unfold makeDirectory
  cases hstart : fs.start dir with
  | error err => exact ⟨[], rfl, fun _ f hf => absurd hf List.not_mem_nil⟩
  | ok p =>
    rw [way, ← start_eq_ok hstart]
    exact fs.makeAlong_snd p (Path.steps dir)

theorem extends_makeDirectory (fs : Files) (dir : String) :
    fs.Extends (fs.makeDirectory dir).2 := by
  obtain ⟨made, hmade, -⟩ := fs.makeDirectory_snd dir
  rw [hmade]
  exact fs.extends_folders made

/-- Directories that are made are there afterwards. -/
theorem foldlM_step_makeAlong {names : List (List Char)}
    (h : fs.makeAlong p names = (.ok (), fs')) :
    ∃ q, names.foldlM fs'.step p = .ok q ∧ (names ≠ [] → fs'.isDirectoryAt q = true) := by
  induction names generalizing fs p with
  | nil => exact ⟨p, rfl, fun hne => absurd rfl hne⟩
  | cons name names ih =>
    rw [makeAlong] at h
    cases hstep : fs.step p name with
    | error err =>
      rw [hstep] at h
      cases h
    | ok q =>
      rw [hstep] at h
      simp only at h
      split at h
      · cases h
      · have hmade : Extends { fs with folders := q :: fs.folders } fs' := by
          have hextends := extends_makeAlong { fs with folders := q :: fs.folders } q names
          rwa [h] at hextends
        have hfirst : fs'.step p name = .ok q := ((fs.extends_folders [q]).trans hmade).step hstep
        obtain ⟨r, hr, hdirectory⟩ := ih h
        refine ⟨r, by rw [List.foldlM_cons, hfirst]; exact hr, fun _ => ?_⟩
        by_cases hlast : names = []
        · subst hlast
          obtain rfl : q = r := Except.ok.inj hr
          exact hmade.directory q
            (isDirectoryAt_iff.2 (.inr (.inl ⟨q, by simp, List.prefix_refl q⟩)))
        · exact hdirectory hlast

theorem exists?_makeDirectory {dir : String} (h : fs.makeDirectory dir = (.ok (), fs')) :
    fs'.exists? dir = true := by
  unfold makeDirectory at h
  cases hstart : fs.start dir with
  | error err =>
    rw [hstart] at h
    cases h
  | ok p =>
    rw [hstart] at h
    simp only at h
    have hne : dir ≠ "" := by
      rintro rfl
      cases hstart
    have hcurrent : fs'.current = fs.current := by
      have hextends := fs.extends_makeAlong p (Path.steps dir)
      rw [h] at hextends
      exact hextends.current
    obtain ⟨q, hq, hdirectory⟩ := foldlM_step_makeAlong h
    exact exists?_iff.2 ⟨q, locate_eq_ok_iff.2 ⟨p, (start_eq hcurrent dir).trans hstart, hq⟩,
      .inr (hdirectory (steps_ne_nil hne))⟩

/-- Whether a path leads to something only after a directory is made. -/
def reveals (fs : Files) (dir path : String) : Bool :=
  !fs.exists? path && (fs.makeDirectory dir).2.exists? path

/-- Names without a step up lead on downwards. -/
theorem foldlM_step_of_plain {names : List (List Char)} (hplain : ['.', '.'] ∉ names)
    (h : names.foldlM fs.step p = .ok q) : q = p ++ names.filter (· != ['.']) := by
  induction names generalizing p with
  | nil => simpa using (Except.ok.inj h).symm
  | cons name names ih =>
    rw [List.mem_cons, not_or] at hplain
    rw [List.foldlM_cons] at h
    cases hstep : fs.step p name with
    | error err =>
      rw [hstep] at h
      cases h
    | ok p' =>
      rw [hstep] at h
      rw [ih hplain.2 h]
      obtain ⟨-, -, ⟨rfl, rfl⟩ | ⟨rfl, -⟩ | ⟨hdot, -, -, rfl⟩⟩ := step_eq_ok_iff.1 hstep
      · simp
      · exact absurd rfl hplain.1
      · simp [hdot]

/-- Where the same files stand, a way down to a place can be gone whenever all that lies above this
place are directories. -/
theorem foldlM_step_of_directories {names : List (List Char)} (hplain : ['.', '.'] ∉ names)
    (hfiles : ∀ r, fs'.isFileAt r = fs.isFileAt r)
    (hdirectories : ∀ r, r <+: q → fs.isFileAt r = false → fs.isDirectoryAt r = true)
    (h : names.foldlM fs'.step p = .ok q) : names.foldlM fs.step p = .ok q := by
  have hdown := foldlM_step_of_plain hplain h
  induction names generalizing p with
  | nil => exact h
  | cons name names ih =>
    rw [List.mem_cons, not_or] at hplain
    rw [List.foldlM_cons] at h ⊢
    cases hstep : fs'.step p name with
    | error err =>
      rw [hstep] at h
      cases h
    | ok p' =>
      rw [hstep] at h
      obtain ⟨hfile, -, hname⟩ := step_eq_ok_iff.1 hstep
      rw [hfiles] at hfile
      have hp : p <+: q := by
        rw [hdown]
        exact List.prefix_append _ _
      have hthere : fs.step p name = .ok p' :=
        step_eq_ok_iff.2 ⟨hfile, hdirectories p hp hfile, hname⟩
      rw [hthere]
      exact ih hplain.2 h (foldlM_step_of_plain hplain.2 h)

/-- A path beside a directory: neither goes up, and the path does not lead to the directory or to
one above it. -/
def Aside (fs : Files) (dir path : String) : Prop :=
  ['.', '.'] ∉ Path.steps dir ∧ ['.', '.'] ∉ Path.steps path ∧ ¬fs.way path <+: fs.way dir

instance (fs : Files) (dir path : String) : Decidable (fs.Aside dir path) :=
  inferInstanceAs (Decidable (_ ∧ _ ∧ _))

/-- A path beside a directory is not revealed by making it. -/
theorem Aside.reveals {dir : String} (h : fs.Aside dir path) : fs.reveals dir path = false := by
  obtain ⟨hdir, hpath, haway⟩ := h
  obtain ⟨made, hmade, hway⟩ := fs.makeDirectory_snd dir
  rw [Files.reveals, hmade, Bool.and_eq_false_imp]
  intro hhidden
  rw [Bool.not_eq_true'] at hhidden
  rw [← Bool.not_eq_true, exists?_iff]
  rintro ⟨q, hlocate, hthere⟩
  obtain ⟨p, hstart, hsteps⟩ := locate_eq_ok_iff.1 hlocate
  have hq : q = fs.way path := by
    rw [way, ← start_eq_ok hstart]
    exact foldlM_step_of_plain hpath hsteps
  -- none of the directories that are made is at the place, so what is there was there before
  have hbefore : fs.isFileAt q = true ∨ fs.isDirectoryAt q = true := by
    refine hthere.imp_right ?_
    intro hdirectory
    rw [isDirectoryAt_iff] at hdirectory ⊢
    refine hdirectory.imp_right (Or.imp_left ?_)
    rintro ⟨f, hf, hqf⟩
    rcases List.mem_append.1 hf with hf | hf
    · exact absurd (hq ▸ hqf.trans (hway hdir f hf)) haway
    · exact ⟨f, hf, hqf⟩
  have hdirectories : ∀ r, r <+: q → fs.isFileAt r = false → fs.isDirectoryAt r = true := by
    intro r hr hfile
    rcases hbefore with hq' | hq'
    · refine isDirectoryAt_of_isFileAt hr ?_ hq'
      rintro rfl
      rw [hq'] at hfile
      cases hfile
    · exact isDirectoryAt_of_prefix hr hq'
  have hsteps' : (Path.steps path).foldlM fs.step p = .ok q := by
    refine foldlM_step_of_directories hpath ?_ hdirectories hsteps
    intro r
    rfl
  have hexists : fs.exists? path = true :=
    exists?_iff.2 ⟨q, locate_eq_ok_iff.2 ⟨p, hstart, hsteps'⟩, hbefore⟩
  rw [hexists] at hhidden
  cases hhidden

/-- A path through a directory that is to be made, and up again, is not beside it. -/
example : (ofDirectory ["ws".toList]).reveals "global" "global/.." = true := by
  decide +kernel

/-! ## Writing a file -/

theorem steps_of_not_mem {file path : String} (hsep : '/' ∉ file.toList)
    (hne : file.toList ≠ []) {l : List Char} (pieces : List (List Char))
    (hpath : path.toList = l ++ file.toList)
    (hpieces : Path.splitOn '/' path.toList = pieces ++ [file.toList]) :
    ∃ before, Path.steps path = before ++ [file.toList] := by
  have hend : (path.toList.getLast? == some '/') = false := by
    rw [beq_eq_false_iff_ne, hpath, List.getLast?_append_of_ne_nil _ hne]
    intro hlast
    exact hsep (List.mem_of_getLast? hlast)
  refine ⟨pieces.filter (· != []), ?_⟩
  rw [Path.steps, hpieces, hend]
  simp [hne]

/-- The last step to a file in a directory is its name. -/
theorem steps_join {file : String} (hsep : '/' ∉ file.toList) (hne : file.toList ≠ [])
    (dir : String) : ∃ before, Path.steps (Path.join dir file) = before ++ [file.toList] := by
  have hbelow : ∀ (path : String) (l : List Char), path.toList = l ++ '/' :: file.toList →
      ∃ before, Path.steps path = before ++ [file.toList] := by
    intro path l hl
    refine steps_of_not_mem hsep hne (Path.splitOn '/' l)
      (hl.trans (List.append_cons l '/' file.toList)) ?_
    rw [hl, splitOn_append_cons, splitOn_of_not_mem hsep]
  unfold Path.join
  split
  · exact steps_of_not_mem hsep hne [] (List.nil_append _).symm (splitOn_of_not_mem hsep)
  · split
    · rename_i hslash
      obtain ⟨l, hl⟩ := List.getLast?_eq_some_iff.1 (beq_iff_eq.1 hslash)
      exact hbelow _ l (by simp [hl])
    · exact hbelow _ dir.toList (by simp)

/-- A file in a directory is below the place of this directory. -/
theorem locate_join {dir file : String} (hsep : '/' ∉ file.toList) (hne : file.toList ≠ [])
    (hdot : file.toList ≠ ['.']) (hup : file.toList ≠ ['.', '.'])
    (h : fs.locate (Path.join dir file) = .ok n) :
    ∃ p, fs.isDirectoryAt p = true ∧ n = p ++ [file.toList] := by
  obtain ⟨before, hbefore⟩ := steps_join hsep hne dir
  obtain ⟨first, -, hsteps⟩ := locate_eq_ok_iff.1 h
  rw [hbefore, List.foldlM_append] at hsteps
  cases hp : before.foldlM fs.step first with
  | error err =>
    rw [hp] at hsteps
    cases hsteps
  | ok p =>
    rw [hp] at hsteps
    have hlast : fs.step p file.toList = .ok n := by
      change [file.toList].foldlM fs.step p = .ok n at hsteps
      simpa only [List.foldlM_cons, List.foldlM_nil, bind_pure] using hsteps
    obtain ⟨-, hdirectory, ⟨hname, -⟩ | ⟨hname, -⟩ | ⟨-, -, -, hn⟩⟩ := step_eq_ok_iff.1 hlast
    · exact absurd hname hdot
    · exact absurd hname hup
    · exact ⟨p, hdirectory, hn⟩

/-- Files in which one place has been given its bytes, and all else is as in others. -/
structure Saved (fs : Files) (n : Place) (b : Bytes) (fs' : Files) : Prop where
  current : fs'.current = fs.current
  file : ∀ q, fs'.at? q = if q = n then some b else fs.at? q
  directory : ∀ q, fs'.isDirectoryAt q = fs.isDirectoryAt q
  free : fs.isDirectoryAt n = false

theorem lookup_filter_ne {l : List (Place × Bytes)} (h : q ≠ n) :
    (l.filter (·.1 != n)).lookup q = l.lookup q := by
  induction l with
  | nil => rfl
  | cons e l ih =>
    by_cases he : e.1 = n
    · have hq : (q == e.1) = false := by simpa [he] using h
      rw [List.filter_cons_of_neg (by simp [he]), List.lookup_cons, hq, ih]
    · rw [List.filter_cons_of_pos (by simpa using he), List.lookup_cons, List.lookup_cons, ih]

/-- Where its directory is there, a file that is written makes no other. -/
theorem isDirectoryAt_saved (hparent : fs.isDirectoryAt n.dropLast = true) (q : Place) :
    isDirectoryAt { fs with entries := fs.entries.filter (·.1 != n) ++ [(n, b)] } q =
      fs.isDirectoryAt q := by
  rw [Bool.eq_iff_iff]
  constructor
  · intro h
    rcases isDirectoryAt_iff.1 h with hnil | hfolder | ⟨e, he, hqe, hne⟩
    · exact isDirectoryAt_iff.2 (.inl hnil)
    · exact isDirectoryAt_iff.2 (.inr (.inl hfolder))
    · rcases List.mem_append.1 he with he | he
      · exact isDirectoryAt_iff.2 (.inr (.inr ⟨e, (List.mem_filter.1 he).1, hqe, hne⟩))
      · obtain rfl := List.mem_singleton.1 he
        obtain ⟨rest, rfl⟩ := hqe
        have hrest : rest ≠ [] := by
          rintro rfl
          exact hne (List.append_nil q)
        rw [List.dropLast_append_of_ne_nil hrest] at hparent
        exact isDirectoryAt_of_prefix (List.prefix_append _ _) hparent
  · intro h
    rw [isDirectoryAt_iff] at h ⊢
    refine h.imp_right (Or.imp_right ?_)
    rintro ⟨e, he, hqe, hne⟩
    by_cases hen : e.1 = n
    · exact ⟨(n, b), by simp, hen ▸ hqe, hen ▸ hne⟩
    · exact ⟨e, by simp [he, hen], hqe, hne⟩

/-- A file that is written goes into a directory that is there. -/
theorem saved_of_save (h : fs.save path b = .ok fs')
    (hparent : ∀ n, fs.locate path = .ok n → fs.isDirectoryAt n.dropLast = true) :
    ∃ n, fs.locate path = .ok n ∧ fs.Saved n b fs' := by
  unfold save at h
  cases hlocate : fs.locate path with
  | error err =>
    rw [hlocate] at h
    cases h
  | ok n =>
    rw [hlocate] at h
    simp only [bind, Except.bind] at h
    split at h
    · cases h
    · rename_i hfree
      obtain rfl := (Except.ok.inj h).symm
      refine ⟨n, rfl, rfl, ?_, ?_, by simpa using hfree⟩
      · intro q
        simp only [at?, List.lookup_append]
        by_cases hq : q = n
        · have hnone : (fs.entries.filter (·.1 != n)).lookup q = none := by
            rw [List.lookup_eq_none_iff]
            intro e he
            simpa [hq, @eq_comm _ n] using (List.mem_filter.1 he).2
          rw [hnone, if_pos hq, hq]
          simp
        · have hother : (q == n) = false := by simpa using hq
          rw [lookup_filter_ne hq, if_neg hq, List.lookup_cons, hother]
          simp
      · exact isDirectoryAt_saved (hparent n hlocate)

namespace Saved

theorem step_iff (h : fs.Saved n b fs') : fs'.step p name = .ok q ↔ fs.step p name = .ok q := by
  have hfile : fs.isDirectoryAt p = true → fs'.isFileAt p = fs.isFileAt p := by
    intro hp
    have hpn : p ≠ n := by
      rintro rfl
      rw [h.free] at hp
      cases hp
    rw [isFileAt, isFileAt, h.file, if_neg hpn]
  rw [step_eq_ok_iff, step_eq_ok_iff, h.directory]
  constructor
  · rintro ⟨hp, hdirectory, hname⟩
    exact ⟨hfile hdirectory ▸ hp, hdirectory, hname⟩
  · rintro ⟨hp, hdirectory, hname⟩
    exact ⟨(hfile hdirectory).trans hp, hdirectory, hname⟩

/-- Paths lead to the same places. -/
theorem locate_iff (h : fs.Saved n b fs') : fs'.locate path = .ok p ↔ fs.locate path = .ok p :=
  ⟨locate_eq_ok h.current.symm fun _ _ _ => h.step_iff.1,
    locate_eq_ok h.current fun _ _ _ => h.step_iff.2⟩

/-- Nothing else comes into view than the file. -/
theorem exists?_iff_or (h : fs.Saved n b fs') :
    fs'.exists? path = true ↔ fs.exists? path = true ∨ fs.locate path = .ok n := by
  rw [exists?_iff, exists?_iff]
  constructor
  · rintro ⟨p, hp, hthere⟩
    rw [h.locate_iff] at hp
    by_cases hpn : p = n
    · exact .inr (hpn ▸ hp)
    · rw [isFileAt, h.file, if_neg hpn, h.directory] at hthere
      exact .inl ⟨p, hp, hthere⟩
  · rintro (⟨p, hp, hthere⟩ | hn)
    · refine ⟨p, h.locate_iff.2 hp, ?_⟩
      rw [h.directory, isFileAt, h.file]
      split
      · exact .inl rfl
      · exact hthere
    · exact ⟨n, h.locate_iff.2 hn, .inl (by simp [isFileAt, h.file])⟩

/-- The file has the text that was written. -/
theorem readText_eq (h : fs.Saved n (Text.bytes t) fs') (hpath : fs.locate path = .ok n) :
    fs'.readText path = .ok t := by
  have hread : fs'.read path = .ok (Text.bytes t) := by
    rw [Files.read, h.locate_iff.2 hpath]
    simp only [bind, Except.bind, h.file, if_pos]
  rw [readText, hread]
  simp only [bind, Except.bind, Bytes.text?_bytes]
  rfl

/-- A new file leaves all else as it was. -/
theorem toExtends (h : fs.Saved n b fs') (hnew : fs.at? n = none) : fs.Extends fs' where
  current := h.current
  file p b' hp := by
    have hpn : p ≠ n := by
      rintro rfl
      rw [hnew] at hp
      cases hp
    rw [h.file, if_neg hpn, hp]
  directory p hp := (h.directory p).trans hp
  apart p hp hnone := by
    have hpn : p ≠ n := by
      rintro rfl
      rw [h.free] at hp
      cases hp
    rw [h.file, if_neg hpn, hnone]

end Saved

end Files
end Mutagen
