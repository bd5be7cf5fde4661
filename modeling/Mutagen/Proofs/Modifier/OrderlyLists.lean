import Mathlib.Data.List.Chain
import Mutagen.Proofs.Modifier.BaseLists
import Mutagen.Proofs.Text.Solid

/-!
# Orderly lists

The entries of an orderly list have one comma between each two of them, and at most one behind the
last. The span of an entry cuts out this entry and one comma. What is left is an orderly list of
the other entries, and their texts are what they were.
-/
namespace Mutagen

namespace BaseList

variable {nodes group entry before mid behind a b : List Site} {s k : Site} {span : Span}

/-! ## Orderly lists -/

/-- The list begins with an entry, and behind each comma there is an entry or nothing. -/
def Orderly (nodes : List Site) : Prop :=
  (∀ s ∈ (marks nodes).head?, s.counts = true) ∧
    (marks nodes).IsChain fun a b => a.separates = true → b.counts = true

instance (nodes : List Site) : Decidable (Orderly nodes) := inferInstanceAs (Decidable (_ ∧ _))

theorem marks_eq_nil (hplain : Plain group) (hcounts : ∀ s ∈ group, s.counts = false) :
    marks group = [] := by
  rw [marks_of_plain hplain]
  simpa using hcounts

theorem marks_cons_of_counts {n : Site} (hn : n.counts = true) (rest : List Site) :
    marks (n :: rest) = n :: marks rest :=
  List.filter_cons_of_pos (by rw [hn, Bool.or_true])

theorem marks_cons_of_separates (hk : k.separates = true) (rest : List Site) :
    marks (k :: rest) = k :: marks rest :=
  List.filter_cons_of_pos (by rw [hk, Bool.true_or])

theorem entries_congr (h : marks a = marks b) : entries a = entries b := by
  rw [entries, entries, h]

theorem entries_append_of_marks (h : marks b = []) (a : List Site) :
    entries (a ++ b) = entries a :=
  entries_congr (by rw [marks_append, h, List.append_nil])

theorem entries_of_marks_append (h : marks a = []) (b : List Site) :
    entries (a ++ b) = entries b :=
  entries_congr (by rw [marks_append, h, List.nil_append])

theorem Plain.countP_eq_zero (h : Plain group) : group.countP Site.separates = 0 :=
  List.countP_eq_zero.2 fun s hs => by simp [h s hs]

/-- Behind a comma, and at the beginning, entries are read apart from those before. -/
theorem entries_append (hopens : ∀ k ∈ a.getLast?, k.separates = true) (b : List Site) :
    entries (a ++ b) = entries a ++ entries b := by
  rcases List.eq_nil_or_concat' a with rfl | ⟨front, k, rfl⟩
  · rfl
  · have hk : k.separates = true := hopens k (by simp)
    rw [List.append_assoc, List.singleton_append, entries_append_comma hk, entries_append_comma hk,
      List.append_assoc]
    rfl

/-- Before a comma, and at the end, entries are read apart from those behind. -/
theorem entries_append_of_closes (hcloses : ∀ k ∈ b.head?, k.separates = true) (a : List Site) :
    entries (a ++ b) = entries a ++ entries b := by
  cases b with
  | nil => simp [entries, marks]
  | cons k rest =>
    have hk : k.separates = true := hcloses k rfl
    rw [entries_append_comma hk, ← List.nil_append (k :: rest), entries_append_comma hk]
    rfl

namespace Orderly

theorem append_left (h : Orderly (a ++ b)) : Orderly a := by
  obtain ⟨hhead, hchain⟩ := h
  rw [marks_append] at hhead hchain
  refine ⟨fun s hs => hhead s ?_, (List.isChain_append.1 hchain).1⟩
  rw [List.head?_append, Option.mem_def.1 hs]
  rfl

/-- Between a comma and the next entry there is no other comma. -/
theorem plain_behind (h : Orderly (a ++ k :: group ++ b)) (hk : k.separates = true)
    (hgroup : ∀ s ∈ group, s.counts = false) : Plain group := by
  have hchain := h.2
  rw [List.append_assoc, marks_append, List.cons_append, marks_cons_of_separates hk,
    marks_append] at hchain
  have hnext := (List.isChain_cons.1 (List.isChain_append.1 hchain).2.1).1
  have hnone : marks group = [] := by
    cases hmarks : marks group with
    | nil => rfl
    | cons m more =>
      have hm : m ∈ group := List.mem_of_mem_filter (p := fun s => s.separates || s.counts) (by
        change m ∈ marks group
        rw [hmarks]
        exact List.mem_cons_self)
      have hcounts := hnext m (by rw [hmarks]; rfl) hk
      rw [hgroup m hm] at hcounts
      cases hcounts
  intro s hs
  have hskip := List.filter_eq_nil_iff.1 hnone s hs
  simpa [hgroup s hs] using hskip

/-- An entry may follow whatever an orderly list ends with. -/
theorem append_entry {n : Site} (ha : Orderly a) (hn : n.counts = true)
    (h : Orderly (before ++ n :: b)) : Orderly (a ++ n :: b) := by
  have hmarks := marks_cons_of_counts hn b
  have hchain := h.2
  rw [marks_append] at hchain
  refine ⟨?_, ?_⟩
  · rw [marks_append, hmarks]
    cases hnone : marks a with
    | nil => simpa using hn
    | cons m more =>
      have hhead := ha.1
      rw [hnone] at hhead
      exact hhead
  · rw [marks_append]
    refine List.isChain_append.2 ⟨ha.2, (List.isChain_append.1 hchain).2.1, ?_⟩
    rw [hmarks]
    rintro x - _ ⟨⟩ -
    exact hn

/-- What stands before a comma may have another comma behind it, or none. -/
theorem append_comma {rest : List Site} (h : Orderly (a ++ k :: rest)) (hk : k.separates = true)
    (hb : marks b = [] ∨ ∃ k', marks b = [k']) : Orderly (a ++ b) := by
  have ha := h.append_left
  obtain ⟨hhead, hchain⟩ := h
  rw [marks_append, marks_cons_of_separates hk] at hhead hchain
  rw [Orderly, marks_append]
  rcases hb with hb | ⟨k', hb⟩
  · rw [hb, List.append_nil]
    exact ha
  · rw [hb]
    refine ⟨?_, List.isChain_append.2 ⟨ha.2, List.isChain_singleton _, ?_⟩⟩
    · cases hnone : marks a with
      | nil =>
        rw [hnone] at hhead
        have hcounts := hhead k rfl
        rw [Site.counts_eq_false hk] at hcounts
        cases hcounts
      | cons m more =>
        have hhead := ha.1
        rw [hnone] at hhead
        exact hhead
    · intro x hx _ _ hsep
      have hcounts := (List.isChain_append.1 hchain).2.2 x hx k rfl hsep
      rw [Site.counts_eq_false hk] at hcounts
      cases hcounts

/-- Behind the last entry there is at most one comma. -/
theorem marks_behind (h : Orderly (a ++ b)) (hcloses : ∀ k ∈ b.head?, k.separates = true)
    (hb : ∀ s ∈ b, s.counts = false) : marks b = [] ∨ ∃ k', marks b = [k'] := by
  cases b with
  | nil => exact .inl rfl
  | cons k' rest =>
    have hk' : k'.separates = true := hcloses k' rfl
    have hrest : ∀ s ∈ rest, s.counts = false := fun s hs => hb s (List.mem_cons_of_mem _ hs)
    have hplain : Plain rest := by
      refine Orderly.plain_behind (a := a) (b := []) ?_ hk' hrest
      rw [List.append_nil]
      exact h
    exact .inr ⟨k', by rw [marks_cons_of_separates hk', marks_eq_nil hplain hrest]⟩

end Orderly

/-! ## One entry and one comma less -/

/-- A span cuts one entry and one comma out of an orderly list, and leaves an orderly list of the
other entries. -/
structure Drops (nodes before cut behind entry : List Site) (span : Span) : Prop
    extends Cut nodes before cut behind span where
  cut_entries : entries cut = [entry]
  cut_commas : cut.countP Site.separates = 1
  entries_eq : entries nodes = entries before ++ entry :: entries behind
  rest_entries : entries (before ++ behind) = entries before ++ entries behind
  rest_orderly : Orderly (before ++ behind)

section Between

variable {earlier later : List Site} (h : Between nodes earlier group later)

include h

theorem Between.entries_eq :
    entries nodes = entries earlier ++ entries group ++ entries later := by
  rw [h.whole, List.append_assoc, entries_append h.opens, entries_append_of_closes h.closes,
    List.append_assoc]

/-- Before the next entry there is a comma first. -/
theorem Between.exists_comma {skip rest : List Site} {n : Site} (hlater : later = skip ++ n :: rest)
    (hn : n.counts = true) : ∃ k more, skip = k :: more ∧ k.separates = true := by
  cases skip with
  | nil =>
    have hsep := h.closes n (by rw [hlater]; rfl)
    rw [Site.counts_eq_false hsep] at hn
    cases hn
  | cons k more => exact ⟨k, more, rfl, h.closes k (by rw [hlater]; rfl)⟩

end Between

section Core

variable {lead core trail : List Site} (hcore : Core group lead core trail) (hplain : Plain group)

include hcore hplain

theorem Core.plain : Plain lead ∧ Plain core ∧ Plain trail := by
  rw [hcore.whole] at hplain
  simpa [Plain, or_imp, forall_and] using hplain

/-- Around its first and its last node nothing of an entry is read. -/
theorem Core.marks_eq : marks lead = [] ∧ marks trail = [] ∧ marks core = marks group := by
  obtain ⟨hlead, -, htrail⟩ := hcore.plain hplain
  have hnolead := marks_eq_nil hlead hcore.lead_free
  have hnotrail := marks_eq_nil htrail hcore.trail_free
  refine ⟨hnolead, hnotrail, ?_⟩
  rw [hcore.whole, marks_append, marks_append, hnolead, hnotrail, List.append_nil, List.nil_append]

end Core

section Drops

variable {earlier later lead core trail : List Site}
  (horderly : Orderly nodes) (hbetween : Between nodes earlier group later)
  (hcore : Core group lead core trail) (hgroup : entries group = [entry])

include horderly hbetween hcore hgroup

/-- Up to the next entry there is one comma. -/
theorem drops_next {skip rest : List Site} {n : Site} (hlater : later = skip ++ n :: rest)
    (hn : n.counts = true) (hskip : ∀ s ∈ skip, s.counts = false)
    (hcut : Cut nodes (earlier ++ lead) (core ++ trail ++ skip) (n :: rest) span) :
    Drops nodes (earlier ++ lead) (core ++ trail ++ skip) (n :: rest) entry span := by
  obtain ⟨-, hmid, htrail⟩ := hcore.plain hbetween.plain
  obtain ⟨hnolead, hnotrail, hmarks⟩ := hcore.marks_eq hbetween.plain
  obtain ⟨k, more, rfl, hk⟩ := hbetween.exists_comma hlater hn
  have hnodes : nodes = earlier ++ group ++ k :: more ++ n :: rest := by
    rw [hbetween.whole, hlater]
    simp
  rw [hnodes] at horderly
  have hnomore : ∀ s ∈ more, s.counts = false := fun s hs => hskip s (List.mem_cons_of_mem _ hs)
  have hmore : Plain more := horderly.plain_behind hk hnomore
  have hearlier : entries (earlier ++ lead) = entries earlier := entries_append_of_marks hnolead _
  refine ⟨hcut, ?entry, ?comma, ?entries, ?rest, ?orderly⟩
  case entry =>
    rw [entries_append_comma hk, entries_append_of_marks hnotrail, entries_congr hmarks, hgroup,
      entries_eq_nil_iff.2 hnomore, List.append_nil]
  case comma =>
    rw [List.countP_append, List.countP_append, List.countP_cons_of_pos hk, hmid.countP_eq_zero,
      htrail.countP_eq_zero, hmore.countP_eq_zero]
  case entries =>
    have hend : entries later = entries (n :: rest) := by
      rw [hlater, List.cons_append, ← List.nil_append (k :: _), entries_append_comma hk]
      exact entries_of_marks_append (marks_eq_nil hmore hnomore) _
    rw [hbetween.entries_eq, hgroup, hearlier, hend, List.append_assoc]
    rfl
  case rest =>
    rw [hearlier, List.append_assoc, entries_append hbetween.opens,
      entries_of_marks_append hnolead]
  case orderly =>
    have hfront : Orderly (earlier ++ lead) := by
      refine Orderly.append_left (b := core ++ trail ++ k :: more ++ n :: rest) ?_
      rw [hcore.whole] at horderly
      simpa using horderly
    exact hfront.append_entry hn horderly

/-- Where no entry follows, the comma before goes. -/
theorem drops_last {front : List Site} {k : Site} (hearlier : earlier = front ++ [k])
    (hlater : ∀ s ∈ later, s.counts = false)
    (hcut : Cut nodes front (k :: lead ++ core) (trail ++ later) span) :
    Drops nodes front (k :: lead ++ core) (trail ++ later) entry span := by
  obtain ⟨hlead, hmid, -⟩ := hcore.plain hbetween.plain
  obtain ⟨hnolead, hnotrail, hmarks⟩ := hcore.marks_eq hbetween.plain
  have hk : k.separates = true := hbetween.opens k (by simp [hearlier])
  have hnodes : nodes = front ++ k :: (group ++ later) := by
    rw [hbetween.whole, hearlier]
    simp
  rw [hnodes] at horderly
  have hbehind : entries (trail ++ later) = [] := by
    rw [entries_of_marks_append hnotrail]
    exact entries_eq_nil_iff.2 hlater
  refine ⟨hcut, ?entry, ?comma, ?entries, ?rest, ?orderly⟩
  case entry =>
    rw [List.cons_append, ← List.nil_append (k :: _), entries_append_comma hk,
      entries_of_marks_append hnolead, entries_congr hmarks, hgroup]
    rfl
  case comma =>
    rw [List.countP_append, List.countP_cons_of_pos hk, hlead.countP_eq_zero, hmid.countP_eq_zero]
  case entries =>
    have hfront : entries earlier = entries front := by
      rw [hearlier, entries_append_comma hk, entries_eq_nil_iff.2 (List.forall_mem_nil _),
        List.append_nil]
    rw [hbetween.entries_eq, hgroup, hfront, entries_eq_nil_iff.2 hlater, hbehind, List.append_nil]
  case rest =>
    rw [hbehind, ← List.append_assoc, entries_append_of_closes hbetween.closes,
      entries_eq_nil_iff.2 hlater, entries_append_of_marks hnotrail]
  case orderly =>
    refine horderly.append_comma hk ?_
    rw [marks_append, hnotrail, List.nil_append]
    rw [List.append_cons, ← List.append_assoc] at horderly
    exact horderly.marks_behind hbetween.closes hlater

end Drops

/-- Of an orderly list every span of an entry takes out one comma with it. -/
theorem Spans.exists_drops (h : Spans nodes entry span) (hlaid : Laid nodes)
    (horderly : Orderly nodes) : ∃ before cut behind, Drops nodes before cut behind entry span := by
  obtain ⟨earlier, group, later, lead, core, trail, hbetween, rfl, hcore, hcut⟩ :=
    h.exists_cut hlaid
  have hgroup : entries group = [group.filter Site.counts] := by
    rw [entries_of_plain hbetween.plain, if_neg h.1]
  rcases hcut with ⟨skip, n, rest, hlater, hn, hskip, hcut⟩ | ⟨front, k, hearlier, hlater, hcut⟩
  · exact ⟨_, _, _, drops_next horderly hbetween hcore hgroup hlater hn hskip hcut⟩
  · exact ⟨_, _, _, drops_last horderly hbetween hcore hgroup hearlier hlater hcut⟩

theorem kind_ne_of_names (h : names entry = true) : ∀ s ∈ entry, s.kind ≠ "keyword_argument" := by
  intro s hs hkind
  have hother := List.all_eq_true.1 h s hs
  rw [hkind] at hother
  cases hother

end BaseList

/-! ## What stays -/

namespace Span

variable {t : Text} {s u : Span}

/-- A text without one of its spans. -/
theorem Fits.exists_without (hs : s.Fits t) : ∃ a b, t = a ++ s.text t ++ b ∧ a.size = s.start ∧
    a.size + (s.text t).size = s.stop ∧ t.splice s.start s.stop [] = a ++ b := by
  obtain ⟨a, b, ht, hstart, hstop⟩ := Text.slice?_eq_some_iff.1 hs.slice?
  refine ⟨a, b, ht, hstart, hstop, ?_⟩
  have hsplice := Text.splice_append a (s.text t) b []
  rw [← ht, hstop, hstart, List.append_nil] at hsplice
  exact hsplice

/-- What stands before a span stays as it is when the span is deleted. -/
theorem Fits.text_before (hs : s.Fits t) (hu : u.Fits t) (h : u.stop ≤ s.start) :
    u.text (t.splice s.start s.stop []) = u.text t := by
  obtain ⟨a, b, ht, hstart, hstop, hsplice⟩ := hs.exists_without
  obtain ⟨c, d, hcut, hfirst, hlast⟩ := Text.slice?_eq_some_iff.1 hu.slice?
  have hsame : (c ++ u.text t) ++ d = a ++ (s.text t ++ b) := by
    rw [← hcut, ← List.append_assoc, ← ht]
  obtain ⟨m, rfl, -⟩ := Text.append_eq_append_of_le hsame (by rw [Text.size_append]; omega)
  rw [hsplice, List.append_assoc]
  exact Text.text_eq_of_slice? (Text.slice?_eq_some_iff.2 ⟨c, m ++ b, rfl, hfirst, hlast⟩)

/-- What stands behind it moves by its length. -/
theorem Fits.text_behind (hs : s.Fits t) (hu : u.Fits t) (h : s.stop ≤ u.start) :
    (⟨u.start - s.len, u.stop - s.len⟩ : Span).text (t.splice s.start s.stop []) = u.text t := by
  obtain ⟨a, b, ht, hstart, hstop, hsplice⟩ := hs.exists_without
  obtain ⟨c, d, hcut, hfirst, hlast⟩ := Text.slice?_eq_some_iff.1 hu.slice?
  have hsame : (a ++ s.text t) ++ b = c ++ (u.text t ++ d) := by
    rw [← ht, ← List.append_assoc, ← hcut]
  obtain ⟨m, rfl, rfl⟩ := Text.append_eq_append_of_le hsame (by rw [Text.size_append]; omega)
  rw [hsplice]
  refine Text.text_eq_of_slice? (Text.slice?_eq_some_iff.2 ⟨a ++ m, d, by simp, ?_, ?_⟩)
  · simp only [Text.size_append, Span.len] at hfirst ⊢
    omega
  · simp only [Text.size_append, Span.len] at hfirst hlast ⊢
    omega

end Span

namespace BaseList

variable {nodes group entry before cut behind : List Site} {span : Span} {t : Text}

/-- The extent of an entry is a run of characters. -/
theorem fits_extent (hlaid : Laid nodes) (hfit : ∀ s ∈ nodes, s.span.Fits t)
    (h : entry ∈ entries nodes) : (extent entry).Fits t := by
  obtain ⟨hsome, hsub⟩ := of_mem_entries h
  obtain ⟨a, ha, b, hb, hextent⟩ := exists_extent_eq hsome
  have hin := Span.contains_iff.1 ((hlaid.sublist hsub).extent_contains ha)
  have hord := hlaid.ordered a (hsub.subset ha)
  rw [hextent] at hin ⊢
  exact ⟨by omega, (hfit a (hsub.subset ha)).start, (hfit b (hsub.subset hb)).stop⟩

theorem Spans.fits (h : Spans nodes entry span) (hlaid : Laid nodes)
    (hfit : ∀ s ∈ nodes, s.span.Fits t) : span.Fits t := by
  obtain ⟨a, ha, b, hb, hstart, hstop⟩ := h.exists_ends
  have hord : span.start ≤ span.stop := by
    obtain ⟨earlier, group, later, lead, core, trail, -, -, hcore, hcut⟩ := h.exists_cut hlaid
    obtain ⟨c, hc, -⟩ := hcore.first
    have hc : c ∈ core := List.mem_of_head? hc
    obtain ⟨hin, hmem⟩ : span.contains c.span = true ∧ c ∈ nodes := by
      rcases hcut with ⟨skip, n, rest, -, -, -, hcut⟩ | ⟨front, k, -, -, hcut⟩
      · exact ⟨hcut.inside c (by simp [hc]), by rw [hcut.whole]; simp [hc]⟩
      · exact ⟨hcut.inside c (by simp [hc]), by rw [hcut.whole]; simp [hc]⟩
    have hin := Span.contains_iff.1 hin
    have hc := hlaid.ordered c hmem
    omega
  refine ⟨hord, hstart ▸ (hfit a ha).start, ?_⟩
  rcases hstop with hstop | hstop
  · exact hstop ▸ (hfit b hb).start
  · exact hstop ▸ (hfit b hb).stop

theorem Spans.inside {around : Span} (h : Spans nodes entry span) (hlaid : Laid nodes)
    (hin : ∀ s ∈ nodes, around.contains s.span = true) : around.contains span = true := by
  obtain ⟨a, ha, b, hb, hstart, hstop⟩ := h.exists_ends
  have hord := hlaid.ordered b hb
  have hfirst := Span.contains_iff.1 (hin a ha)
  have hlast := Span.contains_iff.1 (hin b hb)
  exact Span.contains_iff.2 ⟨by omega, by omega⟩

/-- Deleting a span keeps the texts of the entries that it does not cut. -/
theorem Cut.texts (h : Cut nodes before cut behind span) (hlaid : Laid nodes)
    (hfit : ∀ s ∈ nodes, s.span.Fits t) (hspan : span.Fits t) :
    (∀ other ∈ entries before,
      (extent other).text (t.splice span.start span.stop []) = (extent other).text t) ∧
    ∀ other ∈ entries behind,
      (⟨(extent other).start - span.len, (extent other).stop - span.len⟩ : Span).text
        (t.splice span.start span.stop []) = (extent other).text t := by
  have hnodes := h.whole
  constructor
  · intro other hother
    have hsub : before.Sublist nodes := by
      rw [hnodes]
      simp
    obtain ⟨hsome, hmem⟩ := of_mem_entries hother
    obtain ⟨a, -, b, hb, hextent⟩ := exists_extent_eq hsome
    refine hspan.text_before (fits_extent (hlaid.sublist hsub) (fun s hs => hfit s (hsub.subset hs))
      hother) ?_
    rw [hextent]
    exact h.left b (hmem.subset hb)
  · intro other hother
    have hsub : behind.Sublist nodes := by
      rw [hnodes]
      simp
    obtain ⟨hsome, hmem⟩ := of_mem_entries hother
    obtain ⟨a, ha, b, -, hextent⟩ := exists_extent_eq hsome
    refine hspan.text_behind (fits_extent (hlaid.sublist hsub) (fun s hs => hfit s (hsub.subset hs))
      hother) ?_
    rw [hextent]
    exact h.right a (hmem.subset ha)

end BaseList

end Mutagen
