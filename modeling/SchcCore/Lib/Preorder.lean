import Mathlib

/- Trees stored as one vector in preorder: every node has the indices of its children, and the
   subtree of a node fills the indices from its own up to where the next subtree starts. -/
namespace Preorder
variable {ν : Type} {children : ν → List Nat} {nodes : List ν}

/-- The subtrees of the listed children fill `start` up to `stop`, one after the other. -/
def Consecutive (spans : Nat → Nat → Prop) : Nat → List Nat → Nat → Prop
  | start, [], stop => start = stop
  | start, child :: later, stop =>
      child = start ∧ ∃ middle, spans start middle ∧ Consecutive spans middle later stop

/-- The subtree of node `i`, of at most the given height, fills `i` up to `stop`. -/
def Spans (children : ν → List Nat) (nodes : List ν) : Nat → Nat → Nat → Prop
  | 0, _, _ => False
  | height + 1, i, stop => ∃ node, nodes[i]? = some node ∧
      Consecutive (Spans children nodes height) (i + 1) (children node) stop

theorem Consecutive.mono {spans spans' : Nat → Nat → Prop} {start stop : Nat} {list : List Nat}
    (row : Consecutive spans start list stop)
    (weaker : ∀ a b, start ≤ a → spans a b → a ≤ b ∧ spans' a b) :
    Consecutive spans' start list stop := by
  induction list generalizing start with
  | nil => exact row
  | cons child later ih =>
    obtain ⟨here, middle, spanned, rest⟩ := row
    obtain ⟨ordered, again⟩ := weaker start middle (Nat.le_refl _) spanned
    exact ⟨here, middle, again, ih rest fun a b after => weaker a b (by omega)⟩

theorem Consecutive.le {spans : Nat → Nat → Prop} (forward : ∀ a b, spans a b → a < b)
    {start stop : Nat} {list : List Nat} (row : Consecutive spans start list stop) :
    start ≤ stop := by
  induction list generalizing start with
  | nil => exact Nat.le_of_eq row
  | cons child later ih =>
    obtain ⟨-, middle, spanned, rest⟩ := row
    have first := forward start middle spanned
    have after := ih rest
    omega

theorem Spans.lt {height i stop : Nat} (spans : Spans children nodes height i stop) : i < stop := by
  induction height generalizing i stop with
  | zero => exact absurd spans id
  | succ height ih =>
    obtain ⟨node, -, row⟩ := spans
    have after := row.le fun a b => ih
    omega

/-- A longer vector keeps the subtrees it starts with. -/
theorem Spans.append {height i stop : Nat} (spans : Spans children nodes height i stop)
    (more : List ν) : Spans children (nodes ++ more) height i stop := by
  induction height generalizing i stop with
  | zero => exact spans
  | succ height ih =>
    obtain ⟨node, there, row⟩ := spans
    obtain ⟨inside, -⟩ := List.getElem?_eq_some_iff.mp there
    refine ⟨node, by rwa [List.getElem?_append_left inside], row.mono ?_⟩
    intro a b _ spanned
    exact ⟨spanned.lt.le, ih spanned⟩

/-- Changing the vector before a subtree does not touch it. -/
theorem Spans.congr {nodes' : List ν} {height i stop : Nat}
    (spans : Spans children nodes height i stop)
    (kept : ∀ j, i ≤ j → nodes'[j]? = nodes[j]?) : Spans children nodes' height i stop := by
  induction height generalizing i stop with
  | zero => exact spans
  | succ height ih =>
    obtain ⟨node, there, row⟩ := spans
    refine ⟨node, by rw [kept i (Nat.le_refl i), there], row.mono ?_⟩
    intro a b after spanned
    exact ⟨spanned.lt.le, ih spanned fun j later => kept j (by omega)⟩

/-- The subtree of a child lies inside the row. -/
theorem Consecutive.spans_of_mem {spans : Nat → Nat → Prop} (forward : ∀ a b, spans a b → a < b)
    {start stop : Nat} {list : List Nat} (row : Consecutive spans start list stop) {child : Nat}
    (member : child ∈ list) : ∃ middle, spans child middle ∧ start ≤ child ∧ middle ≤ stop := by
  induction list generalizing start with
  | nil => cases member
  | cons first later ih =>
    obtain ⟨rfl, middle, spanned, rest⟩ := row
    rcases List.mem_cons.mp member with rfl | further
    · exact ⟨middle, spanned, Nat.le_refl _, rest.le forward⟩
    · obtain ⟨middle', spanned', after, fits⟩ := ih rest further
      have before := forward _ _ spanned
      exact ⟨middle', spanned', by omega, fits⟩

/-- Some subtree of the row has a given index of it. -/
theorem Consecutive.around {spans : Nat → Nat → Prop} (forward : ∀ a b, spans a b → a < b)
    {start stop : Nat} {list : List Nat} (row : Consecutive spans start list stop) {k : Nat}
    (after : start ≤ k) (below : k < stop) :
    ∃ a b, spans a b ∧ a ≤ k ∧ k < b ∧ b ≤ stop := by
  induction list generalizing start with
  | nil =>
    have ended : start = stop := row
    omega
  | cons child later ih =>
    obtain ⟨-, middle, spanned, rest⟩ := row
    have room := rest.le forward
    by_cases first : k < middle
    · exact ⟨start, middle, spanned, after, first, room⟩
    · exact ih rest (by omega)

/-- Every node of a subtree is the root of a subtree inside. -/
theorem Spans.inner {height i stop : Nat} (spans : Spans children nodes height i stop) {k : Nat}
    (after : i ≤ k) (below : k < stop) :
    ∃ height' stop', Spans children nodes height' k stop' ∧ stop' ≤ stop := by
  induction height generalizing i stop with
  | zero => exact absurd spans id
  | succ height ih =>
    by_cases own : k = i
    · subst own
      exact ⟨height + 1, stop, spans, Nat.le_refl _⟩
    · obtain ⟨node, -, row⟩ := spans
      obtain ⟨a, b, spanned, before, inside, fits⟩ :=
        row.around (fun a b => Spans.lt) (by omega) below
      obtain ⟨height', stop', found, fits'⟩ := ih spanned before inside
      exact ⟨height', stop', found, by omega⟩

theorem Spans.child {height i stop : Nat} (spans : Spans children nodes height i stop) {k : Nat}
    (after : i ≤ k) (below : k < stop) {node : ν} (there : nodes[k]? = some node) {child : Nat}
    (member : child ∈ children node) : k < child ∧ child < stop := by
  obtain ⟨height', stop', found, fits⟩ := spans.inner after below
  cases height' with
  | zero => exact absurd found id
  | succ height' =>
    obtain ⟨node', there', row⟩ := found
    rw [there] at there'
    cases there'
    obtain ⟨middle, spanned, later, room⟩ := row.spans_of_mem (fun a b => Spans.lt) member
    have inside := spanned.lt
    omega

/-- The children of the nodes from `i` up to `stop`. -/
def childrenIn (children : ν → List Nat) (nodes : List ν) (i stop : Nat) : List Nat :=
  ((nodes.drop i).take (stop - i)).flatMap children

theorem childrenIn_empty (i : Nat) : childrenIn children nodes i i = [] := by
  simp [childrenIn]

theorem childrenIn_cons {i stop : Nat} {node : ν} (there : nodes[i]? = some node)
    (room : i < stop) :
    childrenIn children nodes i stop = children node ++ childrenIn children nodes (i + 1) stop := by
  obtain ⟨inside, here⟩ := List.getElem?_eq_some_iff.mp there
  obtain ⟨width, rfl⟩ : ∃ width, stop = i + 1 + width := ⟨stop - (i + 1), by omega⟩
  have long : i + 1 + width - i = width + 1 := by omega
  rw [childrenIn, childrenIn, List.drop_eq_getElem_cons inside, here, long, List.take_succ_cons,
    List.flatMap_cons, Nat.add_sub_cancel_left]

theorem childrenIn_append {start middle stop : Nat} (before : start ≤ middle)
    (after : middle ≤ stop) :
    childrenIn children nodes start stop =
      childrenIn children nodes start middle ++ childrenIn children nodes middle stop := by
  have split : stop - start = (middle - start) + (stop - middle) := by omega
  rw [childrenIn, childrenIn, childrenIn, split, List.take_add, List.drop_drop,
    Nat.add_sub_cancel' before, List.flatMap_append]

theorem range'_split {start middle stop : Nat} (before : start ≤ middle) (after : middle ≤ stop) :
    List.range' start (stop - start) =
      List.range' start (middle - start) ++ List.range' middle (stop - middle) := by
  obtain ⟨first, rfl⟩ := Nat.exists_eq_add_of_le before
  obtain ⟨second, rfl⟩ := Nat.exists_eq_add_of_le after
  rw [Nat.add_assoc, Nat.add_sub_cancel_left, Nat.add_sub_cancel_left, ← Nat.add_assoc,
    Nat.add_sub_cancel_left, List.range'_append_1]

theorem Consecutive.perm_children {spans : Nat → Nat → Prop} (forward : ∀ a b, spans a b → a < b)
    (each : ∀ a b, spans a b →
      (a :: childrenIn children nodes a b).Perm (List.range' a (b - a)))
    {start stop : Nat} {list : List Nat} (row : Consecutive spans start list stop) :
    (list ++ childrenIn children nodes start stop).Perm (List.range' start (stop - start)) := by
  induction list generalizing start with
  | nil =>
    have ended : start = stop := row
    subst ended
    simp [childrenIn_empty]
  | cons child later ih =>
    obtain ⟨rfl, middle, spanned, rest⟩ := row
    have first := (forward _ _ spanned).le
    have room := rest.le forward
    rw [childrenIn_append first room, range'_split first room]
    refine List.Perm.trans ?_ ((each _ _ spanned).append (ih rest))
    rw [List.cons_append, List.cons_append, ← List.append_assoc, ← List.append_assoc]
    exact (List.perm_append_comm.append_right _).cons child

/-- In a subtree every node but its root is a child exactly once. -/
theorem Spans.perm_children {height i stop : Nat} (spans : Spans children nodes height i stop) :
    (childrenIn children nodes i stop).Perm (List.range' (i + 1) (stop - (i + 1))) := by
  induction height generalizing i stop with
  | zero => exact absurd spans id
  | succ height ih =>
    have room := spans.lt
    obtain ⟨node, there, row⟩ := spans
    rw [childrenIn_cons there room]
    refine row.perm_children (fun a b => Spans.lt) fun a b spanned => ?_
    have some := spanned.lt
    have width : b - a = b - (a + 1) + 1 := by omega
    rw [width, List.range'_succ]
    exact (ih spanned).cons a

/-- Where the whole vector is one tree, each later node is a child once and the root never. -/
theorem Spans.count_child {height : Nat} (spans : Spans children nodes height 0 nodes.length)
    (j : Nat) : (nodes.flatMap children).count j = if 0 < j ∧ j < nodes.length then 1 else 0 := by
  have all : childrenIn children nodes 0 nodes.length = nodes.flatMap children := by
    simp [childrenIn]
  have same := spans.perm_children
  have some := spans.lt
  rw [all, Nat.zero_add] at same
  rw [same.count_eq]
  split
  · rename_i inside
    apply List.count_eq_one_of_mem List.nodup_range'
    rw [List.mem_range'_1]
    omega
  · rename_i outside
    apply List.count_eq_zero_of_not_mem
    rw [List.mem_range'_1]
    omega

end Preorder
