import Mutagen.Proofs.Tree.DocumentOrder

/-!
# Walking with a cursor

A cursor goes to the first child, to the sibling behind, or up to the parent. Its moves are
those in the whole tree, so that a loop of them stays in a subtree only by testing for the
top of it when it climbs. The loop that visits the place of the cursor and then moves on
does what the walk by recursion does: from a site it goes through the subtree there, and
then on to what climbing from the site leads to.
-/
namespace Mutagen
namespace Site

variable {σ : Type}

/-! ## Moves -/

def firstChild? (s : Site) : Option Site := s.children.head?

/-- The sibling behind the site. -/
def nextSibling? (s : Site) : Option Site :=
  match s.above with
  | [] => none
  | (p, i) :: above => (⟨p, above⟩ : Site).children[i + 1]?

theorem length_above_of_parent? {s p : Site} (h : s.parent? = some p) :
    p.above.length < s.above.length := by
  obtain ⟨n, above⟩ := s
  cases above with
  | nil => cases h
  | cons a above =>
    cases h
    exact Nat.lt_succ_self _

/-- Where a cursor goes on behind the subtree at `s`: it climbs until there is a sibling behind it,
and gives up at `top`. -/
def climb? (top s : Site) : Option Site :=
  if s.same top then none
  else
    match s.nextSibling? with
    | some t => some t
    | none =>
      match _h : s.parent? with
      | some p => climb? top p
      | none => none
termination_by s.above.length
decreasing_by exact length_above_of_parent? ‹_›

/-- The loop of a cursor at `s` that has started at `top`: it visits `s` and moves on, as long as
the visitor does not stop. There is no result when `n` visits are not enough. -/
def cursorLoop (visit : Site → σ → Walk × σ) (top : Site) : Nat → Site → σ → Option (Bool × σ)
  | 0, _, _ => none
  | n + 1, s, st =>
    let (answer, st') := visit s st
    if answer = .stop then some (false, st')
    else
      let child? := if answer = .proceed then s.firstChild? else none
      match child?.or (climb? top s) with
      | some t => cursorLoop visit top n t st'
      | none => some (true, st')

/-- What the loop does behind a place: it goes on at the next one, or is done. -/
def resume (visit : Site → σ → Walk × σ) (top : Site) (n : Nat) (next : Option Site) (st : σ) :
    Option (Bool × σ) :=
  match next with
  | some t => cursorLoop visit top n t st
  | none => some (true, st)

variable {visit : Site → σ → Walk × σ} {top : Site}

theorem getElem?_childrenFrom (s : Site) (k : Nat) (ns : List Node) (i : Nat) :
    (s.childrenFrom k ns)[i]? = ns[i]?.map (s.child (k + i)) := by
  induction ns generalizing k i with
  | nil => rfl
  | cons n ns ih =>
    cases i with
    | zero => rfl
    | succ i =>
      rw [childrenFrom, List.getElem?_cons_succ, List.getElem?_cons_succ, ih]
      congr 2
      omega

theorem getElem?_children (s : Site) (i : Nat) :
    s.children[i]? = s.node.children[i]?.map (s.child i) := by
  rw [children, getElem?_childrenFrom, Nat.zero_add]

/-- A child is not the top of a subtree that its parent is in. -/
theorem Within.not_same_child {t : Site} (h : top.Within t) (i : Nat) (n : Node) :
    (t.child i n).same top = false := by
  obtain ⟨p, hp⟩ := h.exists_path
  rw [← Bool.not_eq_true]
  intro hsame
  have hpath : (t.child i n).path = top.path := congrArg List.reverse (beq_iff_eq.1 hsame)
  have hlength := congrArg List.length hpath
  rw [path_child, hp] at hlength
  simp at hlength

/-- From a child the cursor goes to the next one, and from the last child it climbs on from the
parent. -/
theorem climb?_child {t : Site} (h : top.Within t) (i : Nat) (n : Node) :
    climb? top (t.child i n) = t.children[i + 1]?.or (climb? top t) := by
  rw [climb?, if_neg (by simp [h.not_same_child])]
  change (match t.children[i + 1]? with
    | some d => some d
    | none => climb? top t) = _
  cases t.children[i + 1]? <;> rfl

theorem climb?_self (s : Site) : climb? s s = none := by
  rw [climb?, if_pos (by simp [same])]

theorem walk_eq (s : Site) (st : σ) :
    s.walk visit st =
      match visit s st with
      | (.stop, st') => (false, st')
      | (.skipChildren, st') => (true, st')
      | (.proceed, st') => Node.walkAll visit s.node s.above 0 s.node.children st' := by
  obtain ⟨⟨l, cs⟩, above⟩ := s
  rfl

theorem walkAll_cons (s : Site) (i : Nat) (n : Node) (ns : List Node) (st : σ) :
    Node.walkAll visit s.node s.above i (n :: ns) st =
      match (s.child i n).walk visit st with
      | (false, st') => (false, st')
      | (true, st') => Node.walkAll visit s.node s.above (i + 1) ns st' := by
  rw [Node.walkAll]
  rfl

theorem cursorLoop_succ (n : Nat) (s : Site) (st : σ) :
    cursorLoop visit top (n + 1) s st =
      match visit s st with
      | (.stop, st') => some (false, st')
      | (.skipChildren, st') => resume visit top n (climb? top s) st'
      | (.proceed, st') => resume visit top n (s.children[0]?.or (climb? top s)) st' := by
  rw [cursorLoop, firstChild?, List.head?_eq_getElem?]
  cases visit s st with
  | mk answer st' => cases answer <;> rfl

/-! ## The loop is the walk -/

/-- At `s` the loop visits the subtree, with no more rounds than it has sites, and then goes on
behind it. -/
def Passes (visit : Site → σ → Walk × σ) (top s : Site) : Prop :=
  ∀ st, ∃ m ≤ s.preorder.length, ∀ n, cursorLoop visit top (n + m) s st =
    match s.walk visit st with
    | (false, st') => some (false, st')
    | (true, st') => resume visit top n (climb? top s) st'

/-- Among the children of a site, from one of them on, the loop visits their subtrees and then goes
on behind the site. -/
theorem resume_children {t : Site} (ht : top.Within t)
    (hpasses : ∀ c ∈ t.children, Passes visit top c) (i : Nat) (ns : List Node)
    (hns : t.node.children.drop i = ns) (st : σ) :
    ∃ m ≤ ((t.childrenFrom i ns).flatMap preorder).length, ∀ n,
      resume visit top (n + m) (t.children[i]?.or (climb? top t)) st =
        match Node.walkAll visit t.node t.above i ns st with
        | (false, st') => some (false, st')
        | (true, st') => resume visit top n (climb? top t) st' := by
  induction ns generalizing i st with
  | nil =>
    have hnone : t.children[i]? = none := by
      rw [getElem?_children, ← List.head?_drop, hns]
      rfl
    refine ⟨0, Nat.le_refl 0, fun n => ?_⟩
    rw [hnone]
    rfl
  | cons c ns ih =>
    have hchild : t.children[i]? = some (t.child i c) := by
      rw [getElem?_children, ← List.head?_drop, hns]
      rfl
    have hrest : t.node.children.drop (i + 1) = ns := by
      rw [← List.tail_drop, hns, List.tail_cons]
    obtain ⟨m, hm, hloop⟩ := hpasses _ (List.mem_of_getElem? hchild) st
    rw [childrenFrom, List.flatMap_cons, List.length_append, walkAll_cons, hchild, Option.some_or]
    cases hwalk : (t.child i c).walk visit st with
    | mk going st' =>
      rw [hwalk] at hloop
      cases going with
      | false => exact ⟨m, by omega, hloop⟩
      | true =>
        obtain ⟨m', hm', hresume⟩ := ih (i + 1) hrest st'
        refine ⟨m' + m, by omega, fun n => ?_⟩
        rw [← Nat.add_assoc]
        refine (hloop (n + m')).trans ?_
        rw [climb?_child ht]
        exact hresume n

/-- In the subtree of its top the loop does at every site what the walk does. -/
theorem passes_of_within {s : Site} (hs : top.Within s) : Passes visit top s := by
  induction s using Site.induction with
  | step s ih =>
    intro st
    rw [preorder_eq, children, List.length_cons, walk_eq]
    have hchildren : ∀ c ∈ s.children, Passes visit top c := by
      intro c hc
      exact ih c hc (.child hs hc)
    cases hvisit : visit s st with
    | mk answer st' =>
      cases answer with
      | stop =>
        refine ⟨1, by omega, fun n => ?_⟩
        rw [cursorLoop_succ, hvisit]
      | skipChildren =>
        refine ⟨1, by omega, fun n => ?_⟩
        rw [cursorLoop_succ, hvisit]
      | proceed =>
        obtain ⟨m, hm, hresume⟩ := resume_children hs hchildren 0 s.node.children rfl st'
        refine ⟨m + 1, by omega, fun n => ?_⟩
        rw [← Nat.add_assoc, cursorLoop_succ, hvisit]
        exact hresume n

/-- The loop ends after as many rounds as the subtree has sites, with what the walk gives. -/
theorem cursorLoop_eq_walk (s : Site) (n : Nat) (st : σ) :
    cursorLoop visit s (s.preorder.length + n) s st = some (s.walk visit st) := by
  have hpasses : Passes visit s s := passes_of_within .self
  obtain ⟨m, hm, hloop⟩ := hpasses st
  have hrounds := hloop (s.preorder.length + n - m)
  rw [Nat.sub_add_cancel (by omega), climb?_self] at hrounds
  rw [hrounds]
  cases s.walk visit st with
  | mk going st' => cases going <;> rfl

/-! ## The visited sites -/

/-- A visitor that also writes down where it was and what it answered. -/
def logged (visit : Site → σ → Walk × σ) (s : Site) (st : σ × List (Site × Walk)) :
    Walk × (σ × List (Site × Walk)) :=
  let (answer, st') := visit s st.1
  (answer, (st', st.2 ++ [(s, answer)]))

/-- The sites of a log are those of `sites` in their order, without the proper descendants of a
site with the answer to skip them, and without what is behind a site with the answer to stop. The
outcome is false exactly when there is such an answer. -/
structure Visits (sites : List Site) (log : List (Site × Walk)) (outcome : Bool) : Prop where
  order : (log.map Prod.fst).Sublist sites
  visited : ∀ t, t ∈ log.map Prod.fst ↔ t ∈ sites ∧
    (∀ r, (r, .skipChildren) ∈ log → r.Within t → r = t) ∧
    ∀ r, (r, .stop) ∈ log → ¬ r.path < t.path
  outcome_iff : outcome = false ↔ ∃ r, (r, Walk.stop) ∈ log

theorem Visits.mem {sites : List Site} {log : List (Site × Walk)} {outcome : Bool}
    (h : Visits sites log outcome) {r : Site} {answer : Walk} (hr : (r, answer) ∈ log) :
    r ∈ sites :=
  h.order.subset (List.mem_map_of_mem hr)

/-- A site in the subtree of another one is this one or behind it. -/
theorem Within.eq_or_path_lt {s t : Site} (h : s.Within t) : s = t ∨ s.path < t.path := by
  have hmem := mem_preorder_iff.2 h
  have hpairwise := s.preorder_pairwise
  rw [preorder_eq] at hmem hpairwise
  rcases List.mem_cons.1 hmem with rfl | hmem
  · exact .inl rfl
  · exact .inr ((List.pairwise_cons.1 hpairwise).1 t hmem)

section Append

variable {l₁ l₂ : List Site} {log₁ log₂ : List (Site × Walk)}
  (hpath : (l₁ ++ l₂).Pairwise fun a b => a.path < b.path)

include hpath

/-- Nothing behind a stop is visited. -/
theorem Visits.append_stopped (h : Visits l₁ log₁ false) : Visits (l₁ ++ l₂) log₁ false where
  order := h.order.trans (List.sublist_append_left l₁ l₂)
  visited := by
    intro t
    rw [h.visited t, List.mem_append]
    refine and_congr_left fun hconds => ?_
    refine ⟨.inl, fun ht => ht.resolve_right fun hbehind => ?_⟩
    obtain ⟨r, hr⟩ := h.outcome_iff.1 rfl
    exact hconds.2 r hr ((List.pairwise_append.1 hpath).2.2 r (h.mem hr) t hbehind)
  outcome_iff := h.outcome_iff

/-- Without a stop the visits go on behind, where no skipped site has descendants. -/
theorem Visits.append {outcome : Bool} (h₁ : Visits l₁ log₁ true) (h₂ : Visits l₂ log₂ outcome)
    (hskip : ∀ r, (r, .skipChildren) ∈ log₁ → ∀ t ∈ l₂, ¬ r.Within t) :
    Visits (l₁ ++ l₂) (log₁ ++ log₂) outcome := by
  have hlt := (List.pairwise_append.1 hpath).2.2
  have hnostop : ∀ r, (r, Walk.stop) ∉ log₁ := fun r hr =>
    absurd (h₁.outcome_iff.2 ⟨r, hr⟩) (by decide)
  constructor
  · rw [List.map_append]
    exact h₁.order.append h₂.order
  · intro t
    rw [List.map_append, List.mem_append, h₁.visited t, h₂.visited t]
    simp only [List.mem_append]
    constructor
    · rintro (⟨ht, hskipped, -⟩ | ⟨ht, hskipped, hstopped⟩)
      · refine ⟨.inl ht, ?_, ?_⟩
        · rintro r (hr | hr) hwithin
          · exact hskipped r hr hwithin
          · rcases hwithin.eq_or_path_lt with heq | hbefore
            · exact heq
            · exact absurd hbefore (List.lt_asymm (hlt t ht r (h₂.mem hr)))
        · rintro r (hr | hr)
          · exact absurd hr (hnostop r)
          · exact List.lt_asymm (hlt t ht r (h₂.mem hr))
      · refine ⟨.inr ht, ?_, ?_⟩
        · rintro r (hr | hr) hwithin
          · exact absurd hwithin (hskip r hr t ht)
          · exact hskipped r hr hwithin
        · rintro r (hr | hr)
          · exact absurd hr (hnostop r)
          · exact hstopped r hr
    · rintro ⟨ht, hskipped, hstopped⟩
      refine ht.imp (fun ht => ⟨ht, ?_, ?_⟩) (fun ht => ⟨ht, ?_, ?_⟩)
      · exact fun r hr => hskipped r (.inl hr)
      · exact fun r hr => hstopped r (.inl hr)
      · exact fun r hr => hskipped r (.inr hr)
      · exact fun r hr => hstopped r (.inr hr)
  · rw [h₂.outcome_iff]
    refine exists_congr fun r => ?_
    rw [List.mem_append, or_iff_right (hnostop r)]

end Append

theorem visits_singleton (s : Site) (answer : Walk) :
    Visits [s] [(s, answer)] (answer != .stop) where
  order := List.Sublist.refl _
  visited := by
    intro t
    rw [List.map_singleton]
    refine (and_iff_left_of_imp fun ht => ?_).symm
    obtain rfl := List.mem_singleton.1 ht
    constructor
    · rintro r hr -
      exact congrArg Prod.fst (List.mem_singleton.1 hr)
    · intro r hr
      have heq : r = t := congrArg Prod.fst (List.mem_singleton.1 hr)
      rw [heq]
      exact List.lt_irrefl _
  outcome_iff := by
    cases answer <;> simp

theorem visits_skipped {s : Site} {l : List Site} (hl : ∀ t ∈ l, s.Within t ∧ s ≠ t) :
    Visits (s :: l) [(s, .skipChildren)] true where
  order := by simp
  visited := by
    intro t
    rw [List.map_singleton, List.mem_singleton, List.mem_cons]
    constructor
    · rintro rfl
      exact ⟨.inl rfl, fun r hr _ => congrArg Prod.fst (List.mem_singleton.1 hr), by simp⟩
    · rintro ⟨rfl | ht, hskipped, -⟩
      · rfl
      · obtain ⟨hwithin, hne⟩ := hl t ht
        exact absurd (hskipped s List.mem_cons_self hwithin) hne
  outcome_iff := by simp

/-- An outcome with a log is the one without it, and what the log has gained are the visits. -/
def Records (sites : List Site) (past : List (Site × Walk)) (plain : Bool × σ)
    (logging : Bool × (σ × List (Site × Walk))) : Prop :=
  ∃ log, logging = (plain.1, (plain.2, past ++ log)) ∧ Visits sites log plain.1

theorem records_walkAll {s : Site} (i : Nat) (ns : List Node)
    (hwalk : ∀ c ∈ s.childrenFrom i ns, ∀ st past,
      Records c.preorder past (c.walk visit st) (c.walk (logged visit) (st, past)))
    (hpath : ((s.childrenFrom i ns).flatMap preorder).Pairwise fun a b => a.path < b.path)
    (st : σ) (past : List (Site × Walk)) :
    Records ((s.childrenFrom i ns).flatMap preorder) past
      (Node.walkAll visit s.node s.above i ns st)
      (Node.walkAll (logged visit) s.node s.above i ns (st, past)) := by
  induction ns generalizing i st past with
  | nil =>
    rw [Node.walkAll, Node.walkAll]
    exact ⟨[], by simp, .refl _, by simp [childrenFrom], by simp⟩
  | cons n ns ih =>
    obtain ⟨hfirst, hrest⟩ := List.forall_mem_cons.1 hwalk
    obtain ⟨log, hlog, hvisits⟩ := hfirst st past
    rw [childrenFrom, List.flatMap_cons] at hpath ⊢
    rw [walkAll_cons, walkAll_cons, hlog]
    cases houtcome : (s.child i n).walk visit st with
    | mk going st' =>
      rw [houtcome] at hvisits
      cases going with
      | false => exact ⟨log, rfl, hvisits.append_stopped hpath⟩
      | true =>
        obtain ⟨log', hlog', hvisits'⟩ :=
          ih (i + 1) hrest (List.pairwise_append.1 hpath).2.1 st' (past ++ log)
        refine ⟨log ++ log', ?_, hvisits.append hpath hvisits' ?_⟩
        · dsimp only
          rw [hlog', List.append_assoc]
        · -- a site in the subtrees of two children is before itself
          intro r hr t ht hwithin
          have hmem : t ∈ (s.child i n).preorder :=
            mem_preorder_iff.2 ((mem_preorder_iff.1 (hvisits.mem hr)).trans hwithin)
          exact List.lt_irrefl _ ((List.pairwise_append.1 hpath).2.2 t hmem t ht)

/-- A walk calls its visitor on the sites that are not left out, in document order. -/
theorem records_walk (s : Site) (st : σ) (past : List (Site × Walk)) :
    Records s.preorder past (s.walk visit st) (s.walk (logged visit) (st, past)) := by
  induction s using Site.induction generalizing st past with
  | step s ih =>
    have hpath := s.preorder_pairwise
    rw [preorder_eq] at hpath ⊢
    rw [walk_eq, walk_eq, logged]
    dsimp only
    cases hvisit : visit s st with
    | mk answer st' =>
      cases answer with
      | stop => exact ⟨_, rfl, (visits_singleton s .stop).append_stopped hpath⟩
      | skipChildren =>
        refine ⟨_, rfl, visits_skipped ?_⟩
        intro t ht
        have hlt := (List.pairwise_cons.1 hpath).1 t ht
        refine ⟨mem_preorder_iff.1 ?_, ?_⟩
        · rw [preorder_eq]
          exact List.mem_cons_of_mem s ht
        · rintro rfl
          exact List.lt_irrefl _ hlt
      | proceed =>
        obtain ⟨log, hlog, hvisits⟩ := records_walkAll 0 s.node.children ih
          (List.pairwise_cons.1 hpath).2 st' (past ++ [(s, .proceed)])
        refine ⟨(s, .proceed) :: log, ?_, ?_⟩
        · dsimp only
          rw [hlog, List.append_assoc]
          rfl
        · exact (visits_singleton s .proceed).append hpath hvisits (by simp)

/-! ## The whole -/

/-- The visitor that collects the named sites of some kinds, the last one first. -/
def collecting (kinds : List String) (t : Site) (found : List Site) : Walk × List Site :=
  (.proceed, if t.named && kinds.contains t.kind then t :: found else found)

/-- Whatever the visitor does with its state, the loop of a cursor ends, after no more rounds than
there are sites in the subtree, with the outcome of the walk. It calls the visitor in document order
on exactly the sites of the subtree that are neither below a site with the answer to skip them nor
behind one with the answer to stop, and is false exactly when there is such a stop. So it finds the
named sites of given kinds, each once and in document order. -/
theorem cursorLoop_visits (visit : Site → σ → Walk × σ) (s : Site) (st : σ) :
    (∃ outcome st' log, s.walk visit st = (outcome, st') ∧
      (∀ n, cursorLoop visit s (s.preorder.length + n) s st = some (outcome, st') ∧
        cursorLoop (logged visit) s (s.preorder.length + n) s (st, []) =
          some (outcome, (st', log))) ∧
      Visits s.preorder log outcome ∧ ∀ t ∈ log.map Prod.fst, s.Within t) ∧
    ∀ kinds,
      (∀ n, (cursorLoop (collecting kinds) s (s.preorder.length + n) s []).map
        (fun r => r.2.reverse) = some (s.descendantsOfKinds kinds)) ∧
      s.descendantsOfKinds kinds =
        s.preorder.filter (fun t => t.named && kinds.contains t.kind) ∧
      (s.descendantsOfKinds kinds).Pairwise fun a b => a.path < b.path := by
  constructor
  · have hrecords : Records s.preorder [] (s.walk visit st) (s.walk (logged visit) (st, [])) :=
      records_walk s st []
    obtain ⟨log, hlog, hvisits⟩ := hrecords
    refine ⟨_, _, log, rfl, ?_, hvisits, ?_⟩
    · intro n
      rw [cursorLoop_eq_walk, cursorLoop_eq_walk, hlog]
      exact ⟨rfl, rfl⟩
    · exact fun t ht => mem_preorder_iff.1 (hvisits.order.subset ht)
  · intro kinds
    refine ⟨?_, descendantsOfKinds_eq_filter s kinds, ?_⟩
    · intro n
      rw [cursorLoop_eq_walk]
      rfl
    · rw [descendantsOfKinds_eq_filter]
      exact s.preorder_pairwise.sublist List.filter_sublist

end Site
end Mutagen
