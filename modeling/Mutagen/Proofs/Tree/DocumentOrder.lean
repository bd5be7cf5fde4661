import Mutagen.Tree.Walk

/-!
# Document order

The sites of a subtree are those that children lead down to from its top. The
pre-order lists each of them once, in the lexicographic order of their paths, and
a walk that never skips goes through this list until its visitor stops.
-/
namespace Mutagen

/-- Induction over trees. -/
theorem Node.induction {P : Node → Prop} (step : ∀ l cs, (∀ c ∈ cs, P c) → P (.mk l cs))
    (n : Node) : P n := by
  refine @Node.rec P (fun cs => ∀ c ∈ cs, P c) step ?_ ?_ n
  · intro c hc
    cases hc
  · intro c cs hc hcs
    exact List.forall_mem_cons.2 ⟨hc, hcs⟩

namespace Site

/-- The child indices on the way down, the first first. -/
def path (s : Site) : List Nat := s.address.reverse

@[simp] theorem path_child (s : Site) (i : Nat) (c : Node) :
    (s.child i c).path = s.path ++ [i] := by
  simp [path]

theorem mem_childrenFrom {s c : Site} {i : Nat} {ns : List Node} (h : c ∈ s.childrenFrom i ns) :
    ∃ j, ∃ n ∈ ns, i ≤ j ∧ c = s.child j n := by
  induction ns generalizing i with
  | nil => cases h
  | cons n ns ih =>
    rcases List.mem_cons.1 h with rfl | h
    · exact ⟨i, n, List.mem_cons_self, Nat.le_refl i, rfl⟩
    · obtain ⟨j, m, hm, hj, rfl⟩ := ih h
      exact ⟨j, m, List.mem_cons_of_mem n hm, by omega, rfl⟩

theorem exists_child_of_mem {s c : Site} (h : c ∈ s.children) :
    ∃ i, ∃ n ∈ s.node.children, c = s.child i n := by
  obtain ⟨i, n, hn, -, rfl⟩ := mem_childrenFrom h
  exact ⟨i, n, hn, rfl⟩

/-- Induction over the sites of a tree: a site comes after its children. -/
theorem induction {P : Site → Prop} (step : ∀ s, (∀ c ∈ s.children, P c) → P s) (s : Site) :
    P s := by
  obtain ⟨n, above⟩ := s
  induction n using Node.induction generalizing above with
  | step l cs ih =>
    apply step
    intro c hc
    obtain ⟨i, m, hm, rfl⟩ := exists_child_of_mem hc
    exact ih m hm _

theorem preorderAll_eq (s : Site) (i : Nat) (ns : List Node) :
    Node.preorderAll s.node s.above i ns = (s.childrenFrom i ns).flatMap preorder := by
  induction ns generalizing i with
  | nil => rfl
  | cons n ns ih =>
    rw [Node.preorderAll, ih, childrenFrom, List.flatMap_cons]
    rfl

theorem preorder_eq (s : Site) : s.preorder = s :: s.children.flatMap preorder := by
  obtain ⟨⟨l, cs⟩, above⟩ := s
  rw [preorder, Node.preorder]
  exact congrArg _ (preorderAll_eq ⟨.mk l cs, above⟩ 0 cs)

/-! ## The sites of a subtree -/

/-- `t` is `s`, or children lead down to it from `s`. -/
inductive Within (s : Site) : Site → Prop where
  | self : Within s s
  | child {t c : Site} (ht : Within s t) (hc : c ∈ t.children) : Within s c

theorem Within.trans {r s t : Site} (hs : r.Within s) (ht : s.Within t) : r.Within t := by
  induction ht with
  | self => exact hs
  | child _ hc ih => exact .child ih hc

theorem mem_preorder_self (s : Site) : s ∈ s.preorder := by
  rw [preorder_eq]
  exact List.mem_cons_self

theorem mem_preorder_child {s t c : Site} (ht : t ∈ s.preorder) (hc : c ∈ t.children) :
    c ∈ s.preorder := by
  induction s using Site.induction with
  | step s ih =>
    rw [preorder_eq] at ht ⊢
    refine List.mem_cons_of_mem s (List.mem_flatMap.2 ?_)
    rcases List.mem_cons.1 ht with rfl | ht
    · exact ⟨c, hc, c.mem_preorder_self⟩
    · obtain ⟨d, hd, ht⟩ := List.mem_flatMap.1 ht
      exact ⟨d, hd, ih d hd ht⟩

/-- The pre-order lists exactly the sites of the subtree. -/
theorem mem_preorder_iff {s t : Site} : t ∈ s.preorder ↔ s.Within t := by
  constructor
  · intro h
    induction s using Site.induction with
    | step s ih =>
      rw [preorder_eq] at h
      rcases List.mem_cons.1 h with rfl | h
      · exact .self
      · obtain ⟨c, hc, ht⟩ := List.mem_flatMap.1 h
        exact (Within.child .self hc).trans (ih c hc ht)
  · intro h
    induction h with
    | self => exact s.mem_preorder_self
    | child _ hc ih => exact mem_preorder_child ih hc

/-- The way down to another site of the subtree starts with a child. -/
theorem Within.eq_or_below {s t : Site} (h : s.Within t) :
    t = s ∨ ∃ c ∈ s.children, c.Within t := by
  have hmem := mem_preorder_iff.2 h
  rw [preorder_eq] at hmem
  rcases List.mem_cons.1 hmem with rfl | hmem
  · exact .inl rfl
  · obtain ⟨c, hc, ht⟩ := List.mem_flatMap.1 hmem
    exact .inr ⟨c, hc, mem_preorder_iff.1 ht⟩

/-! ## The order of paths -/

theorem Within.exists_path {s t : Site} (h : s.Within t) : ∃ p, t.path = s.path ++ p := by
  induction h with
  | self => exact ⟨[], by simp⟩
  | child _ hc ih =>
    obtain ⟨p, hp⟩ := ih
    obtain ⟨i, n, -, rfl⟩ := exists_child_of_mem hc
    exact ⟨p ++ [i], by simp [hp]⟩

theorem childrenFrom_pairwise (s : Site) (i : Nat) (ns : List Node) :
    (s.childrenFrom i ns).Pairwise fun c d =>
      ∃ j k, j < k ∧ c.path = s.path ++ [j] ∧ d.path = s.path ++ [k] := by
  induction ns generalizing i with
  | nil => exact List.Pairwise.nil
  | cons n ns ih =>
    refine List.pairwise_cons.2 ⟨?_, ih (i + 1)⟩
    intro d hd
    obtain ⟨k, m, -, hk, rfl⟩ := mem_childrenFrom hd
    exact ⟨i, k, by omega, path_child .., path_child ..⟩

/-- The pre-order is strictly ascending by paths, so that it holds no site twice. -/
theorem preorder_pairwise (s : Site) : s.preorder.Pairwise fun a b => a.path < b.path := by
  induction s using Site.induction with
  | step s ih =>
    rw [preorder_eq]
    refine List.pairwise_cons.2 ⟨?_, List.pairwise_flatMap.2 ⟨ih, ?_⟩⟩
    · intro t ht
      obtain ⟨c, hc, ht⟩ := List.mem_flatMap.1 ht
      obtain ⟨p, hp⟩ := (mem_preorder_iff.1 ht).exists_path
      obtain ⟨i, n, -, rfl⟩ := exists_child_of_mem hc
      have hlt : s.path ++ [] < s.path ++ i :: p := List.append_left_lt (List.nil_lt_cons i p)
      simpa [hp] using hlt
    · refine (s.childrenFrom_pairwise 0 _).imp ?_
      rintro c d ⟨j, k, hjk, hc, hd⟩ x hx y hy
      obtain ⟨p, hp⟩ := (mem_preorder_iff.1 hx).exists_path
      obtain ⟨q, hq⟩ := (mem_preorder_iff.1 hy).exists_path
      have hlt : s.path ++ j :: p < s.path ++ k :: q :=
        List.append_left_lt (List.cons_lt_cons_iff.2 (.inl hjk))
      simpa [hp, hq, hc, hd] using hlt

/-- In ascending sites, those before the first failure of `p` are those before every one. -/
theorem mem_takeWhile_iff {l : List Site} (hl : l.Pairwise fun a b => a.path < b.path)
    {p : Site → Bool} {t : Site} :
    t ∈ l.takeWhile p ↔ t ∈ l ∧ ∀ f ∈ l, p f = false → t.path < f.path := by
  induction l with
  | nil => simp
  | cons s l ih =>
    obtain ⟨hs, hl⟩ := List.pairwise_cons.1 hl
    rw [List.takeWhile_cons]
    cases hp : p s with
    | false =>
      -- nothing is before the first site, itself included
      refine ⟨fun h => by simp at h, ?_⟩
      rintro ⟨ht, hbefore⟩
      have hlt := hbefore s List.mem_cons_self hp
      rcases List.mem_cons.1 ht with rfl | ht
      · exact absurd hlt (List.lt_irrefl _)
      · exact absurd hlt (List.lt_asymm (hs t ht))
    | true =>
      rw [if_pos rfl, List.mem_cons, List.mem_cons, List.forall_mem_cons, ih hl]
      constructor
      · rintro (rfl | ⟨ht, hbefore⟩)
        · exact ⟨.inl rfl, by simp [hp], fun f hf _ => hs f hf⟩
        · exact ⟨.inr ht, by simp [hp], hbefore⟩
      · rintro ⟨rfl | ht, -, hbefore⟩
        · exact .inl rfl
        · exact .inr ⟨ht, hbefore⟩

/-! ## Walks -/

variable {σ : Type} {visit : Site → σ → Walk × σ}

/-- Visits sites in turn until the visitor stops. -/
def visitAll (visit : Site → σ → Walk × σ) : List Site → σ → Bool × σ
  | [], st => (true, st)
  | s :: rest, st =>
    match visit s st with
    | (.stop, st') => (false, st')
    | (_, st') => visitAll visit rest st'

theorem visitAll_append (l₁ l₂ : List Site) (st : σ) :
    visitAll visit (l₁ ++ l₂) st =
      match visitAll visit l₁ st with
      | (false, st') => (false, st')
      | (true, st') => visitAll visit l₂ st' := by
  induction l₁ generalizing st with
  | nil => rfl
  | cons s l₁ ih =>
    rw [List.cons_append, visitAll, visitAll]
    split
    · rfl
    · exact ih _

theorem walkAll_eq_visitAll (s : Site) (i : Nat) (ns : List Node)
    (h : ∀ n ∈ ns, ∀ above st, n.walk visit above st = visitAll visit (n.preorder above) st)
    (st : σ) :
    Node.walkAll visit s.node s.above i ns st =
      visitAll visit (Node.preorderAll s.node s.above i ns) st := by
  induction ns generalizing i st with
  | nil => rfl
  | cons n ns ih =>
    obtain ⟨hn, hns⟩ := List.forall_mem_cons.1 h
    rw [Node.walkAll, Node.preorderAll, visitAll_append, hn]
    cases visitAll visit (n.preorder ((s.node, i) :: s.above)) st with
    | mk going st' =>
      cases going with
      | false => rfl
      | true => exact ih (i + 1) hns st'

/-- A walk that never skips goes through the pre-order. -/
theorem walk_eq_visitAll (hskip : ∀ s st, (visit s st).1 ≠ .skipChildren) (s : Site) (st : σ) :
    s.walk visit st = visitAll visit s.preorder st := by
  obtain ⟨n, above⟩ := s
  rw [walk, preorder]
  induction n using Node.induction generalizing above st with
  | step l cs ih =>
    rw [Node.walk, Node.preorder, visitAll]
    cases hvisit : visit ⟨.mk l cs, above⟩ st with
    | mk answer st' =>
      cases answer with
      | stop => rfl
      | skipChildren => exact absurd (congrArg Prod.fst hvisit) (hskip _ _)
      | proceed =>
        exact walkAll_eq_visitAll ⟨.mk l cs, above⟩ 0 cs
          (fun c hc above st => ih c hc st above) st'

/-- The named sites of some kinds are found in document order. -/
theorem descendantsOfKinds_eq_filter (s : Site) (kinds : List String) :
    s.descendantsOfKinds kinds = s.preorder.filter fun t => t.named && kinds.contains t.kind := by
  have hall : ∀ (l found : List Site),
      (visitAll (fun t found =>
        (.proceed, if t.named && kinds.contains t.kind then t :: found else found)) l found).2 =
        (l.filter fun t => t.named && kinds.contains t.kind).reverse ++ found := by
    intro l
    induction l with
    | nil => exact fun _ => rfl
    | cons t l ih =>
      intro found
      rw [visitAll, ih, List.filter_cons]
      split <;> simp
  rw [descendantsOfKinds, walk_eq_visitAll (by simp), hall]
  simp

theorem mem_descendantsOfKinds {s t : Site} {kinds : List String} :
    t ∈ s.descendantsOfKinds kinds ↔ s.Within t ∧ t.named = true ∧ t.kind ∈ kinds := by
  rw [descendantsOfKinds_eq_filter, List.mem_filter, mem_preorder_iff]
  simp

end Site
end Mutagen
