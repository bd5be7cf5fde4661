import Mathlib.Data.List.Forall2
import Mutagen.Modifier.ClassShape
import Mutagen.Proofs.Tree.Tiling

/-!
# Base lists

A base list is groups of nodes with commas between them. The nodes of a group that are more than
tokens, and may not stand anywhere, make an entry. Reading a list from left to right finds
these entries, and each base among them gets a span: up to the next entry, or, where there is
none, from the comma before it.
-/
namespace Mutagen

namespace Site

/-- A comma between the entries of a base list. -/
def separates (s : Site) : Bool := s.kind == ","

/-- A node that makes an entry: no comma, more than a token, and none that may stand anywhere. -/
def counts (s : Site) : Bool := !s.separates && (s.named && !s.extra)

theorem counts_eq_false {s : Site} (h : s.separates = true) : s.counts = false := by
  simp [counts, h]

end Site

namespace BaseList

variable {nodes group rest entry a b : List Site} {s k : Site} {comma : Option Nat}

/-! ## Groups and entries -/

/-- Nodes with no comma among them. -/
def Plain (group : List Site) : Prop := ∀ s ∈ group, s.separates = false

/-- What is read of a list: its commas and the nodes of its entries. -/
def marks (nodes : List Site) : List Site := nodes.filter fun s => s.separates || s.counts

/-- The entries of a list, each as its nodes: those between two commas, when there are any. -/
def entries (nodes : List Site) : List (List Site) :=
  ((marks nodes).splitOnP Site.separates).filter fun entry => !entry.isEmpty

/-- Whether an entry names a base. -/
def names (entry : List Site) : Bool := entry.all fun s => !BaseEntry.otherKinds.contains s.kind

/-- From the first to the last node of an entry. -/
def extent (entry : List Site) : Span :=
  ⟨(entry.head?.map (·.span.start)).getD 0, (entry.getLast?.map (·.span.stop)).getD 0⟩

/-- Induction over a list, one group after the other. -/
theorem induction {motive : List Site → Prop} (last : ∀ group, Plain group → motive group)
    (next : ∀ group k rest, Plain group → k.separates = true → motive rest →
      motive (group ++ k :: rest)) (nodes : List Site) : motive nodes := by
  -- `group` is what was already seen of the group that has begun
  have hbehind : ∀ group, Plain group → motive (group ++ nodes) := by
    induction nodes with
    | nil =>
      intro group hplain
      rw [List.append_nil]
      exact last group hplain
    | cons s rest ih =>
      intro group hplain
      cases hs : s.separates with
      | true => exact next group s rest hplain hs (ih [] (List.forall_mem_nil _))
      | false =>
        have hlonger : Plain (group ++ [s]) := by
          intro c hc
          rcases List.mem_append.1 hc with hc | hc
          · exact hplain c hc
          · rw [List.mem_singleton.1 hc]
            exact hs
        rw [List.append_cons]
        exact ih _ hlonger
  exact hbehind [] (List.forall_mem_nil _)

theorem marks_append (a b : List Site) : marks (a ++ b) = marks a ++ marks b :=
  List.filter_append ..

theorem marks_of_plain (h : Plain group) : marks group = group.filter Site.counts :=
  List.filter_congr fun s hs => by rw [h s hs, Bool.false_or]

/-- A comma is read, and the entries on both sides of it are read apart. -/
theorem entries_append_comma (hk : k.separates = true) (a b : List Site) :
    entries (a ++ k :: b) = entries a ++ entries b := by
  have hmark : marks (k :: b) = k :: marks b := List.filter_cons_of_pos (by rw [hk]; rfl)
  rw [entries, marks_append, hmark, List.splitOnP_append_cons _ _ hk, List.filter_append]
  rfl

/-- A group is read as one entry, or as none. -/
theorem entries_of_plain (h : Plain group) :
    entries group = if group.filter Site.counts = [] then [] else [group.filter Site.counts] := by
  have hone : (marks group).splitOnP Site.separates = [group.filter Site.counts] := by
    rw [marks_of_plain h]
    exact List.splitOnP_eq_singleton fun s hs => h s (List.mem_of_mem_filter hs)
  rw [entries, hone]
  by_cases hnone : group.filter Site.counts = []
  · rw [if_pos hnone, hnone]
    rfl
  · rw [if_neg hnone, List.filter_cons_of_pos (by simpa using hnone)]
    rfl

theorem entries_eq_nil_iff : entries nodes = [] ↔ ∀ s ∈ nodes, s.counts = false := by
  induction nodes using induction with
  | last group hplain =>
    rw [entries_of_plain hplain]
    split
    · rename_i hnone
      simpa using hnone
    · rename_i hsome
      simpa using hsome
  | next group k rest hplain hk ih =>
    rw [entries_append_comma hk, List.append_eq_nil_iff, ih, entries_of_plain hplain]
    simp [Site.counts_eq_false hk, or_imp, forall_and]

/-- An entry has nodes, and the list has them in the same order. -/
theorem of_mem_entries (h : entry ∈ entries nodes) : entry ≠ [] ∧ entry.Sublist nodes := by
  have hgroup : ∀ group, Plain group → entry ∈ entries group →
      entry ≠ [] ∧ entry.Sublist group := by
    intro group hplain hmem
    rw [entries_of_plain hplain] at hmem
    split at hmem
    · cases hmem
    · rename_i hsome
      rw [List.mem_singleton.1 hmem]
      exact ⟨hsome, List.filter_sublist⟩
  induction nodes using induction with
  | last group hplain => exact hgroup group hplain h
  | next group k rest hplain hk ih =>
    rw [entries_append_comma hk] at h
    rcases List.mem_append.1 h with h | h
    · obtain ⟨hsome, hsub⟩ := hgroup group hplain h
      exact ⟨hsome, hsub.trans (List.sublist_append_left ..)⟩
    · obtain ⟨hsome, hsub⟩ := ih h
      exact ⟨hsome, hsub.trans ((List.sublist_cons_self k rest).trans
        (List.sublist_append_right ..))⟩

/-! ## Reading a list -/

/-- The entry that is read from nodes, behind the comma at `comma`. -/
def ofNodes (comma : Option Nat) (entry : List Site) : Option BaseEntry :=
  if entry = [] then none
  else some ⟨(extent entry).start, (extent entry).stop, comma, names entry⟩

theorem extent_concat (entry : List Site) (s : Site) :
    extent (entry ++ [s]) =
      ⟨if entry = [] then s.span.start else (extent entry).start, s.span.stop⟩ := by
  cases entry with
  | nil => rfl
  | cons a entry =>
    rw [extent, List.getLast?_concat]
    rfl

/-- A further node extends an entry, or begins one. -/
theorem ofNodes_concat (comma : Option Nat) (entry : List Site) (s : Site) :
    ofNodes comma (entry ++ [s]) =
      let begun := (ofNodes comma entry).getD ⟨s.span.start, s.span.stop, comma, true⟩
      some { begun with
        stop := s.span.stop
        isBase := begun.isBase && !BaseEntry.otherKinds.contains s.kind } := by
  have hnames : names (entry ++ [s]) =
      (names entry && !BaseEntry.otherKinds.contains s.kind) := by
    simp [names, List.all_append]
  rw [ofNodes, if_neg (by simp), extent_concat, hnames]
  by_cases hnone : entry = []
  · rw [hnone]
    rfl
  · rw [ofNodes, if_neg hnone, if_neg hnone]
    rfl

/-- Reading a group extends the entry that has begun by the nodes of the group. -/
theorem collect_append (h : Plain group) (comma : Option Nat) (entry rest : List Site) :
    BaseEntry.collect comma (ofNodes comma entry) (group ++ rest) =
      BaseEntry.collect comma (ofNodes comma (entry ++ group.filter Site.counts)) rest := by
  induction group generalizing entry with
  | nil => simp
  | cons s group ih =>
    obtain ⟨hs, hgroup⟩ := List.forall_mem_cons.1 h
    have hkind : (s.kind == ",") = false := hs
    rw [List.cons_append, BaseEntry.collect, if_neg (by simp [hkind])]
    cases hcounts : s.counts with
    | false =>
      have hskip : (!s.named || s.extra) = true := by
        rw [Site.counts, hs] at hcounts
        simpa [imp_iff_not_or] using hcounts
      rw [if_pos hskip, ih hgroup, List.filter_cons_of_neg (by simp [hcounts])]
    | true =>
      have htake : (!s.named || s.extra) = false := by
        simpa [Site.counts, hs] using hcounts
      rw [if_neg (by simp [htake]), List.filter_cons_of_pos hcounts, List.append_cons, ← ih hgroup,
        ofNodes_concat]

theorem collect_of_plain (h : Plain group) (comma : Option Nat) :
    BaseEntry.collect comma none group = (ofNodes comma (group.filter Site.counts)).toList := by
  have hread := collect_append h comma [] []
  rw [List.append_nil] at hread
  exact hread

theorem collect_of_comma (h : Plain group) (hk : k.separates = true) (comma : Option Nat)
    (rest : List Site) :
    BaseEntry.collect comma none (group ++ k :: rest) =
      (ofNodes comma (group.filter Site.counts)).toList ++
        BaseEntry.collect (some k.span.start) none rest := by
  have hkind : (k.kind == ",") = true := hk
  have hread := collect_append h comma [] (k :: rest)
  rw [BaseEntry.collect, if_pos hkind] at hread
  exact hread

/-- What is read of a list are its entries, and which of them are bases. -/
theorem map_isBase_collect (comma : Option Nat) (nodes : List Site) :
    (BaseEntry.collect comma none nodes).map (·.isBase) = (entries nodes).map names := by
  have hone : ∀ (comma : Option Nat) (group : List Site), Plain group →
      (ofNodes comma (group.filter Site.counts)).toList.map (·.isBase) =
        (entries group).map names := by
    intro comma group hplain
    rw [entries_of_plain hplain, ofNodes]
    split <;> rfl
  induction nodes using induction generalizing comma with
  | last group hplain => rw [collect_of_plain hplain, hone comma group hplain]
  | next group k rest hplain hk ih =>
    rw [collect_of_comma hplain hk, entries_append_comma hk, List.map_append, List.map_append,
      hone comma group hplain, ih]

/-- The first entry that is read begins with the first node that makes one. -/
theorem head?_collect (comma : Option Nat) (nodes : List Site) :
    (BaseEntry.collect comma none nodes).head?.map (·.start) =
      (nodes.find? Site.counts).map (·.span.start) := by
  have hone : ∀ (comma : Option Nat) (group : List Site),
      (ofNodes comma (group.filter Site.counts)).toList.head?.map (·.start) =
        (group.find? Site.counts).map (·.span.start) := by
    intro comma group
    rw [← List.head?_filter, ofNodes]
    cases group.filter Site.counts <;> rfl
  induction nodes using induction generalizing comma with
  | last group hplain => rw [collect_of_plain hplain, hone]
  | next group k rest hplain hk ih =>
    rw [collect_of_comma hplain hk, List.head?_append, List.find?_append,
      List.find?_cons_of_neg (by simp [Site.counts_eq_false hk]), Option.map_or, Option.map_or,
      hone, ih]

/-! ## Spans of bases -/

/-- A group of a list: commas, or the ends, are on both sides of it. -/
structure Between (nodes earlier group later : List Site) : Prop where
  whole : nodes = earlier ++ group ++ later
  plain : Plain group
  opens : ∀ k ∈ earlier.getLast?, k.separates = true
  closes : ∀ k ∈ later.head?, k.separates = true

/-- The span of the entry of a group with what goes with it: all up to the next entry, or, when
there is none, all from the comma before it. -/
inductive Takes (earlier group later : List Site) : Span → Prop
  | next (n : Site) (h : later.find? Site.counts = some n) :
    Takes earlier group later ⟨(extent (group.filter Site.counts)).start, n.span.start⟩
  | last (k : Site) (hk : earlier.getLast? = some k) (h : ∀ s ∈ later, s.counts = false) :
    Takes earlier group later ⟨k.span.start, (extent (group.filter Site.counts)).stop⟩

/-- `s` is the span of an entry of a list that is not alone. -/
def Spans (nodes entry : List Site) (s : Span) : Prop :=
  entry ≠ [] ∧ ∃ earlier group later, Between nodes earlier group later ∧
    group.filter Site.counts = entry ∧ Takes earlier group later s

section Group

variable {earlier later : List Site} {next : List BaseEntry}
  (hnext : next.head?.map (·.start) = (later.find? Site.counts).map (·.span.start))

include hnext

/-- The span of an entry that is not alone, where `next` is read behind it. -/
theorem takes_span (hmore : earlier ≠ [] ∨ next ≠ []) (isBase : Bool) :
    Takes earlier group later
      ((⟨(extent (group.filter Site.counts)).start, (extent (group.filter Site.counts)).stop,
        earlier.getLast?.map (·.span.start), isBase⟩ : BaseEntry).span next.head?) := by
  cases next with
  | cons b next =>
    obtain ⟨n, hn, hstart⟩ := Option.map_eq_some_iff.1 hnext.symm
    have hspan : Takes earlier group later
        ⟨(extent (group.filter Site.counts)).start, n.span.start⟩ := .next n hn
    rw [hstart] at hspan
    exact hspan
  | nil =>
    have hlater : ∀ s ∈ later, s.counts = false := by
      simpa using List.find?_eq_none.1 (Option.map_eq_none_iff.1 hnext.symm)
    have hsome : earlier ≠ [] := hmore.resolve_right fun h => h rfl
    have hk := List.getLast?_eq_some_getLast hsome
    rw [hk]
    exact .last _ hk hlater

/-- The spans of a group and of what is read behind it. -/
theorem forall₂_spans_group (hbetween : Between nodes earlier group later)
    (hmore : group.filter Site.counts ≠ [] → earlier ≠ [] ∨ next ≠ [])
    {behind : List (List Site)}
    (hbehind : List.Forall₂ (Spans nodes) (behind.filter names) (BaseEntry.spans next)) :
    List.Forall₂ (Spans nodes) ((entries group ++ behind).filter names)
      (BaseEntry.spans ((ofNodes (earlier.getLast?.map (·.span.start))
        (group.filter Site.counts)).toList ++ next)) := by
  rw [entries_of_plain hbetween.plain, ofNodes]
  by_cases hnone : group.filter Site.counts = []
  · rw [if_pos hnone, if_pos hnone]
    exact hbehind
  · rw [if_neg hnone, if_neg hnone, Option.toList_some, List.singleton_append,
      List.singleton_append, BaseEntry.spans]
    cases hnames : names (group.filter Site.counts) with
    | false =>
      rw [List.filter_cons_of_neg (by simp [hnames])]
      exact hbehind
    | true =>
      rw [List.filter_cons_of_pos hnames]
      exact .cons ⟨hnone, earlier, group, later, hbetween, rfl,
        takes_span hnext (hmore hnone) _⟩ hbehind

end Group

/-- Behind what was already read of a list, the spans of the bases are those of their entries, when
there is another entry or a comma before. -/
theorem forall₂_spans_collect (pre nodes : List Site)
    (hopens : ∀ k ∈ pre.getLast?, k.separates = true)
    (hmore : pre ≠ [] ∨ (entries nodes).length ≠ 1) :
    List.Forall₂ (Spans (pre ++ nodes)) ((entries nodes).filter names)
      (BaseEntry.spans
        (BaseEntry.collect (pre.getLast?.map (·.span.start)) none nodes)) := by
  induction nodes using induction generalizing pre with
  | last group hplain =>
    have hbetween : Between (pre ++ group) pre group [] := ⟨by simp, hplain, hopens, by simp⟩
    have hfirst : group.filter Site.counts ≠ [] → pre ≠ [] ∨ ([] : List BaseEntry) ≠ [] := by
      intro hsome
      refine .inl (hmore.resolve_right ?_)
      simp [entries_of_plain hplain, hsome]
    have hnone : List.Forall₂ (Spans (pre ++ group)) (([] : List (List Site)).filter names)
        (BaseEntry.spans []) := .nil
    have hgroup := forall₂_spans_group rfl hbetween hfirst hnone
    rw [List.append_nil, List.append_nil] at hgroup
    rw [collect_of_plain hplain]
    exact hgroup
  | next group k rest hplain hk ih =>
    have hbetween : Between (pre ++ (group ++ k :: rest)) pre group (k :: rest) := by
      refine ⟨by simp, hplain, hopens, ?_⟩
      rintro _ ⟨⟩
      exact hk
    have hrest := ih (pre ++ (group ++ [k])) (by simp [hk]) (.inl (by simp))
    have hlast : (pre ++ (group ++ [k])).getLast? = some k := by simp
    rw [hlast, List.append_assoc, List.append_assoc, List.singleton_append] at hrest
    rw [collect_of_comma hplain hk, entries_append_comma hk]
    refine forall₂_spans_group ?_ hbetween ?_ hrest
    · rw [head?_collect, List.find?_cons_of_neg (by simp [Site.counts_eq_false hk])]
    · -- when nothing is read behind the comma, the entry is the only one
      intro hsome
      refine hmore.imp_right fun hlength hnone => hlength ?_
      have hentries := map_isBase_collect (some k.span.start) rest
      rw [hnone, List.map_nil] at hentries
      rw [entries_append_comma hk, entries_of_plain hplain, if_neg hsome,
        List.map_eq_nil_iff.1 hentries.symm]
      rfl

/-! ## What a span cuts out -/

/-- The parts of a group: from the first to the last node of its entry, and what stands around
it. -/
structure Core (group lead core trail : List Site) : Prop where
  whole : group = lead ++ core ++ trail
  lead_free : ∀ s ∈ lead, s.counts = false
  trail_free : ∀ s ∈ trail, s.counts = false
  first : ∃ a ∈ core.head?, a.counts = true
  last : ∃ b ∈ core.getLast?, b.counts = true

theorem exists_core (h : group.filter Site.counts ≠ []) :
    ∃ lead core trail, Core group lead core trail := by
  have hany : ∃ s ∈ group, s.counts = true := by simpa using h
  obtain ⟨a, ha⟩ := Option.isSome_iff_exists.1 (List.find?_isSome.2 hany)
  obtain ⟨hcounts, lead, behind, rfl, hlead⟩ := List.find?_eq_some_iff_append.1 ha
  -- from the other end: there is a last node, because there is a first one
  have hagain : ∃ s ∈ (a :: behind).reverse, s.counts = true := ⟨a, by simp, hcounts⟩
  obtain ⟨b, hb⟩ := Option.isSome_iff_exists.1 (List.find?_isSome.2 hagain)
  obtain ⟨hlast, trail, core, hsplit, htrail⟩ := List.find?_eq_some_iff_append.1 hb
  have hbehind : a :: behind = (core.reverse ++ [b]) ++ trail.reverse := by
    rw [← List.reverse_reverse (a :: behind), hsplit]
    simp
  refine ⟨lead, core.reverse ++ [b], trail.reverse, ?_, ?_, ?_, ⟨a, ?_, hcounts⟩, ⟨b, ?_, hlast⟩⟩
  · rw [hbehind]
    simp
  · simpa using hlead
  · simpa using htrail
  · have hhead := congrArg List.head? hbehind
    rw [List.head?_append_of_ne_nil _ (by simp)] at hhead
    exact hhead.symm
  · simp

namespace Core

variable {lead core trail : List Site} (h : Core group lead core trail)

include h

theorem filter_eq : group.filter Site.counts = core.filter Site.counts := by
  have hlead : lead.filter Site.counts = [] := by simpa using h.lead_free
  have htrail : trail.filter Site.counts = [] := by simpa using h.trail_free
  rw [h.whole, List.filter_append, List.filter_append, hlead, htrail, List.nil_append,
    List.append_nil]

/-- The extent of the entry is that of the nodes from its first to its last one. -/
theorem extent_eq : extent (group.filter Site.counts) = extent core := by
  obtain ⟨a, ha, hfirst⟩ := h.first
  obtain ⟨b, hb, hlast⟩ := h.last
  have hhead : (core.filter Site.counts).head? = core.head? := by
    obtain ⟨rest, rfl⟩ := List.head?_eq_some_iff.1 ha
    rw [List.filter_cons_of_pos hfirst]
    rfl
  have hend : (core.filter Site.counts).getLast? = core.getLast? := by
    obtain ⟨rest, rfl⟩ := List.getLast?_eq_some_iff.1 hb
    rw [List.filter_append, List.filter_cons_of_pos hlast]
    simp
  rw [h.filter_eq, extent, hhead, hend]
  rfl

end Core

/-- The extent of an entry is taken from its own nodes. -/
theorem exists_extent_eq (h : entry ≠ []) :
    ∃ a ∈ entry, ∃ b ∈ entry, extent entry = ⟨a.span.start, b.span.stop⟩ := by
  refine ⟨entry.head h, List.head_mem h, entry.getLast h, List.getLast_mem h, ?_⟩
  rw [extent, List.head?_eq_some_head h, List.getLast?_eq_some_getLast h]
  rfl

/-- Nodes from left to right that share no byte. -/
structure Laid (nodes : List Site) : Prop where
  ordered : ∀ s ∈ nodes, s.span.start ≤ s.span.stop
  apart : nodes.Pairwise fun a b => a.span.stop ≤ b.span.start

theorem Laid.sublist (h : Laid nodes) (hsub : group.Sublist nodes) : Laid group :=
  ⟨fun s hs => h.ordered s (hsub.subset hs), h.apart.sublist hsub⟩

/-- No node begins before the first one or ends behind the last one. -/
theorem Laid.extent_contains (h : Laid nodes) (hs : s ∈ nodes) :
    (extent nodes).contains s.span = true := by
  have hord := h.ordered s hs
  have hne : nodes ≠ [] := List.ne_nil_of_mem hs
  obtain ⟨a, rest, rfl⟩ := List.exists_cons_of_ne_nil hne
  have hstart : a.span.start ≤ s.span.start := by
    rcases List.mem_cons.1 hs with rfl | hrest
    · exact Nat.le_refl _
    · have ha := h.ordered a (by simp)
      have hbefore := (List.pairwise_cons.1 h.apart).1 s hrest
      omega
  obtain ⟨front, b, hsplit⟩ := (List.eq_nil_or_concat' _).resolve_left hne
  have hstop : s.span.stop ≤ b.span.stop := by
    rw [hsplit] at h hs
    rcases List.mem_append.1 hs with hfront | hb
    · have hb := h.ordered b (by simp)
      have hbefore := (List.pairwise_append.1 h.apart).2.2 s hfront b (by simp)
      omega
    · exact Nat.le_of_eq (by rw [List.mem_singleton.1 hb])
  have hlast : (a :: rest).getLast? = some b := by rw [hsplit, List.getLast?_concat]
  rw [Span.contains_iff, extent, hlast]
  exact ⟨hstart, hstop⟩

/-- A span cuts nodes out of a list: the others end before it or begin behind it. -/
structure Cut (nodes before cut behind : List Site) (span : Span) : Prop where
  whole : nodes = before ++ cut ++ behind
  left : ∀ s ∈ before, s.span.stop ≤ span.start
  inside : ∀ s ∈ cut, span.contains s.span = true
  right : ∀ s ∈ behind, span.stop ≤ s.span.start

section Cut

variable {before mid behind : List Site}

/-- The extent of nodes in a row cuts them out. -/
theorem Laid.cut (h : Laid (before ++ mid ++ behind)) (hmid : mid ≠ []) :
    Cut (before ++ mid ++ behind) before mid behind (extent mid) := by
  obtain ⟨hfront, -, hbehind⟩ := List.pairwise_append.1 h.apart
  obtain ⟨-, -, hbefore⟩ := List.pairwise_append.1 hfront
  have hlaid : Laid mid := h.sublist (by simp)
  refine ⟨rfl, ?_, fun s hs => hlaid.extent_contains hs, ?_⟩
  · intro s hs
    obtain ⟨a, rest, rfl⟩ := List.exists_cons_of_ne_nil hmid
    exact hbefore s hs a (by simp)
  · intro s hs
    obtain ⟨front, b, rfl⟩ := (List.eq_nil_or_concat' _).resolve_left hmid
    rw [extent, List.getLast?_concat]
    exact hbehind b (by simp) s hs

/-- So does the span from the first of them up to what stands behind. -/
theorem Laid.cut_next {n : Site} (h : Laid (before ++ mid ++ n :: behind)) (hmid : mid ≠ []) :
    Cut (before ++ mid ++ n :: behind) before mid (n :: behind)
      ⟨(extent mid).start, n.span.start⟩ := by
  have hextent := h.cut hmid
  have hbehind := (List.pairwise_append.1 h.apart).2.2
  refine ⟨rfl, hextent.left, ?_, ?_⟩
  · intro s hs
    have hstart := (Span.contains_iff.1 (hextent.inside s hs)).1
    exact Span.contains_iff.2 ⟨hstart, hbehind s (List.mem_append_right _ hs) n (by simp)⟩
  · intro s hs
    have hlaid : Laid (n :: behind) := h.sublist (by simp)
    exact (Span.contains_iff.1 (hlaid.extent_contains hs)).1

theorem extent_append_start (hmid : mid ≠ []) (behind : List Site) :
    (extent (mid ++ behind)).start = (extent mid).start := by
  rw [extent, List.head?_append_of_ne_nil _ hmid]
  rfl

theorem extent_append_stop (before : List Site) (hmid : mid ≠ []) :
    (extent (before ++ mid)).stop = (extent mid).stop := by
  rw [extent, List.getLast?_append_of_ne_nil _ hmid]
  rfl

/-- The span of an entry cuts out the nodes from its first to its last one: with all up to the next
entry, or, when there is none, with all from the comma before it. -/
theorem Spans.exists_cut {span : Span} (h : Spans nodes entry span) (hlaid : Laid nodes) :
    ∃ earlier group later lead core trail, Between nodes earlier group later ∧
      group.filter Site.counts = entry ∧ Core group lead core trail ∧
      ((∃ skip n rest, later = skip ++ n :: rest ∧ n.counts = true ∧
          (∀ s ∈ skip, s.counts = false) ∧
          Cut nodes (earlier ++ lead) (core ++ trail ++ skip) (n :: rest) span) ∨
        ∃ front k, earlier = front ++ [k] ∧ (∀ s ∈ later, s.counts = false) ∧
          Cut nodes front (k :: lead ++ core) (trail ++ later) span) := by
  obtain ⟨hentry, earlier, group, later, hbetween, rfl, htakes⟩ := h
  obtain ⟨lead, core, trail, hcore⟩ := exists_core hentry
  refine ⟨earlier, group, later, lead, core, trail, hbetween, rfl, hcore, ?_⟩
  have hsome : core ≠ [] := by
    obtain ⟨a, ha, -⟩ := hcore.first
    rintro rfl
    cases ha
  rw [hbetween.whole, hcore.whole] at hlaid ⊢
  cases htakes with
  | next n hn =>
    obtain ⟨hcounts, skip, rest, rfl, hskip⟩ := List.find?_eq_some_iff_append.1 hn
    refine .inl ⟨skip, n, rest, rfl, hcounts, by simpa using hskip, ?_⟩
    have hwhole : earlier ++ (lead ++ core ++ trail) ++ (skip ++ n :: rest) =
        (earlier ++ lead) ++ (core ++ trail ++ skip) ++ n :: rest := by simp
    rw [hwhole] at hlaid ⊢
    have hcut := hlaid.cut_next (by simp [hsome])
    rw [List.append_assoc core, extent_append_start hsome, ← hcore.extent_eq] at hcut
    rw [List.append_assoc core]
    exact hcut
  | last k hk hlater =>
    obtain ⟨front, rfl⟩ := List.getLast?_eq_some_iff.1 hk
    refine .inr ⟨front, k, rfl, hlater, ?_⟩
    have hwhole : front ++ [k] ++ (lead ++ core ++ trail) ++ later =
        front ++ (k :: lead ++ core) ++ (trail ++ later) := by simp
    have hextent : extent (k :: lead ++ core) = ⟨k.span.start, (extent core).stop⟩ :=
      Span.eq_of_start_of_stop rfl (extent_append_stop (k :: lead) hsome)
    rw [hwhole] at hlaid ⊢
    have hcut := hlaid.cut (by simp)
    rw [hextent, ← hcore.extent_eq] at hcut
    exact hcut

/-- The span begins and ends where nodes of the list do. -/
theorem Spans.exists_ends {span : Span} (h : Spans nodes entry span) :
    ∃ a ∈ nodes, ∃ b ∈ nodes, span.start = a.span.start ∧
      (span.stop = b.span.start ∨ span.stop = b.span.stop) := by
  obtain ⟨hentry, earlier, group, later, hbetween, rfl, htakes⟩ := h
  obtain ⟨a, ha, b, hb, hextent⟩ := exists_extent_eq hentry
  have hgroup : ∀ c ∈ group.filter Site.counts, c ∈ nodes := by
    intro c hc
    rw [hbetween.whole]
    exact List.mem_append_left _ (List.mem_append_right _ (List.mem_of_mem_filter hc))
  cases htakes with
  | next n hn =>
    have hmem : n ∈ nodes := by
      rw [hbetween.whole]
      exact List.mem_append_right _ (List.mem_of_find?_eq_some hn)
    exact ⟨a, hgroup a ha, n, hmem, by rw [hextent], .inl rfl⟩
  | last k hk hlater =>
    have hmem : k ∈ nodes := by
      rw [hbetween.whole, List.append_assoc]
      exact List.mem_append_left _ (List.mem_of_getLast? hk)
    exact ⟨k, hmem, b, hgroup b hb, rfl, .inr (by rw [hextent])⟩

end Cut
end BaseList

/-- What has a partner on the right of two matched lists has one on the left. -/
theorem exists_of_forall₂ {α β : Type} {R : α → β → Prop} {l : List α} {l' : List β}
    (h : List.Forall₂ R l l') {b : β} (hb : b ∈ l') : ∃ a ∈ l, R a b := by
  induction h with
  | nil => cases hb
  | cons hab _ ih =>
    rcases List.mem_cons.1 hb with rfl | hb
    · exact ⟨_, List.mem_cons_self, hab⟩
    · obtain ⟨a, ha, hab⟩ := ih hb
      exact ⟨a, List.mem_cons_of_mem _ ha, hab⟩

namespace Target

variable {t : Target} {list : Site}

/-- The nodes of a base list. -/
def baseNodes (t : Target) (list : Site) : List Site := (t.grammar.baseEntries list).children

/-- In a list that has not just one entry, each base has the span of its entry. -/
theorem forall₂_baseSpans (h : (BaseList.entries (t.baseNodes list)).length ≠ 1) :
    List.Forall₂ (BaseList.Spans (t.baseNodes list))
      ((BaseList.entries (t.baseNodes list)).filter BaseList.names) (t.baseSpans list) := by
  have hread := BaseList.map_isBase_collect none (t.baseNodes list)
  have hspans := BaseList.forall₂_spans_collect [] (t.baseNodes list) (by simp) (.inr h)
  have hlength : (t.baseEntries list).length ≠ 1 := by
    have hsame := congrArg List.length hread
    rw [List.length_map, List.length_map] at hsame
    exact fun hone => h (hsame.symm.trans hone)
  have hmany : t.baseSpans list = BaseEntry.spans (t.baseEntries list) := by
    unfold baseSpans
    split
    · rename_i only honly
      rw [honly] at hlength
      exact absurd rfl hlength
    · rfl
  rw [hmany]
  exact hspans

theorem exists_spans_of_mem_baseSpans {span : Span}
    (h : (BaseList.entries (t.baseNodes list)).length ≠ 1) (hspan : span ∈ t.baseSpans list) :
    ∃ entry, BaseList.Spans (t.baseNodes list) entry span := by
  obtain ⟨entry, -, hspans⟩ := exists_of_forall₂ (forall₂_baseSpans h) hspan
  exact ⟨entry, hspans⟩

/-- A base that is alone has the span of its whole clause, with blanks before it. -/
theorem baseSpans_of_single {only : List Site}
    (h : BaseList.entries (t.baseNodes list) = [only]) :
    t.baseSpans list = if BaseList.names only = true then
      [⟨Text.size (((t.source.slice? 0 list.span.start).getD []).reverse.dropWhile isIndent),
        list.span.stop⟩] else [] := by
  have hread := BaseList.map_isBase_collect none (t.baseNodes list)
  rw [h] at hread
  obtain ⟨b, hb, hnames⟩ := List.map_eq_singleton_iff.1 hread
  have hb : t.baseEntries list = [b] := hb
  rw [baseSpans, hb, ← hnames]

end Target
end Mutagen
