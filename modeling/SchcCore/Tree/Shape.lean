import SchcCore.Tree.Layout
import SchcCore.Tree.SortKey

/- The shape of the tree does not depend on the order of the rules: the groups of a node are
   those of the classes its rules have, and their keys put them in one order. -/
namespace SchcCore
open Outcome Preorder

/-- A branch up to the entry index recorded with it. -/
def Branch.shape (branch : Branch) : FieldRule × Nat := (branch.label, branch.next)

def Node.shape (node : Node) : List (FieldRule × Nat) := node.branches.map Branch.shape

def DecisionTree.shape (tree : DecisionTree) : List (List (FieldRule × Nat)) :=
  tree.nodes.map Node.shape

def RuleSet.Sized (ruleSet : RuleSet) : Prop := ∀ rule ∈ ruleSet.rules, rule.Sized

theorem FieldRule.Sized.label {field : FieldRule} (sized : field.Sized) : field.label.Sized :=
  ⟨sized.field, sized.position, sized.length, sized.target, sized.matching⟩

theorem nextFieldAt_sized {rule : Rule} (sized : rule.Sized) (depth : Nat) :
    ∀ field ∈ nextFieldAt rule depth, field.Sized := by
  intro field found
  rw [nextFieldAt, Option.mem_def, Option.map_eq_some_iff] at found
  obtain ⟨next, there, rfl⟩ := found
  exact (sized next (List.mem_of_getElem? there)).field

variable {depth : Nat} {members members' : List (Nat × Rule)} {groups groups' : List BranchGroup}

/-- The key of a class tells it from every other one. -/
theorem class_of_key {a b : Rule} (sizedA : a.Sized) (sizedB : b.Sized)
    {c d : FieldRule × Option FieldRef} (own : entryClass a depth = some c)
    (other : entryClass b depth = some d) (same : branchSortKey c.1 c.2 = branchSortKey d.1 d.2) :
    c = d := by
  simp only [entryClass, Option.map_eq_some_iff] at own other
  obtain ⟨field, here, rfl⟩ := own
  obtain ⟨field', there, rfl⟩ := other
  have sized := (sizedA field (List.mem_of_getElem? here)).label
  have sized' := (sizedB field' (List.mem_of_getElem? there)).label
  obtain ⟨name, position, length, direction, target, matching, action, next⟩ :=
    (branchSortKey_inj sized sized' (nextFieldAt_sized sizedA depth)
      (nextFieldAt_sized sizedB depth)).mp same
  rw [Prod.mk.injEq]
  refine ⟨?_, next⟩
  simp only [FieldRule.label] at name position length direction target matching action ⊢
  rw [name, position, length, direction, target, matching, action]

/-- There is a group for each class that some rule has. -/
theorem Grouped.mem_classes (grouped : Grouped depth members groups)
    {c : FieldRule × Option FieldRef} : c ∈ groups.map BranchGroup.entryClass ↔
      ∃ rule ∈ members.map Prod.snd, entryClass rule depth = some c := by
  constructor
  · intro listed
    obtain ⟨group, inside, rfl⟩ := List.mem_map.mp listed
    obtain ⟨m, field, first, -, -⟩ := grouped.first group inside
    obtain ⟨source, own⟩ := grouped.mem_group inside (List.mem_of_head? first)
    exact ⟨m.2, List.mem_map_of_mem source, own⟩
  · rintro ⟨rule, listed, own⟩
    obtain ⟨m, source, rfl⟩ := List.mem_map.mp listed
    obtain ⟨group, inside, same⟩ := grouped.covers m source c own
    exact List.mem_map.mpr ⟨group, inside, same⟩

theorem Grouped.sorted (grouped : Grouped depth members groups) :
    ((sortGroups groups).map BranchGroup.entryClass).Pairwise
      (fun c d => branchSortKey c.1 c.2 ≤ branchSortKey d.1 d.2) := by
  rw [List.pairwise_map]
  have sorted : (sortGroups groups).Pairwise (fun left right => left.sortKey ≤ right.sortKey) := by
    have total : Std.Total (fun left right : BranchGroup => left.sortKey ≤ right.sortKey) :=
      ⟨fun left right => List.le_total left.sortKey right.sortKey⟩
    have transitive : IsTrans BranchGroup (fun left right => left.sortKey ≤ right.sortKey) :=
      ⟨fun _ _ _ => List.le_trans⟩
    exact List.pairwise_insertionSort _ groups
  refine sorted.imp_of_mem ?_
  intro left right inside inside' ordered
  rwa [grouped.keyed left (mem_sortGroups.mp inside), grouped.keyed right
    (mem_sortGroups.mp inside')] at ordered

/-- The sorted groups have the same classes for every order of the rules. -/
theorem Grouped.classes_eq (grouped : Grouped depth members groups)
    (grouped' : Grouped depth members' groups')
    (same : (members.map Prod.snd).Perm (members'.map Prod.snd))
    (sized : ∀ m ∈ members, m.2.Sized) :
    (sortGroups groups).map BranchGroup.entryClass =
      (sortGroups groups').map BranchGroup.entryClass := by
  have classes : (groups.map BranchGroup.entryClass).Perm (groups'.map BranchGroup.entryClass) := by
    rw [List.perm_ext_iff_of_nodup grouped.distinct grouped'.distinct]
    intro c
    rw [grouped.mem_classes, grouped'.mem_classes]
    simp only [same.mem_iff]
  have sort : ∀ groups : List BranchGroup, ((sortGroups groups).map BranchGroup.entryClass).Perm
      (groups.map BranchGroup.entryClass) :=
    fun groups => (List.perm_insertionSort _ groups).map _
  have known : ∀ c ∈ (sortGroups groups).map BranchGroup.entryClass,
      ∃ rule : Rule, rule.Sized ∧ entryClass rule depth = some c := by
    intro c listed
    obtain ⟨rule, source, own⟩ := grouped.mem_classes.mp ((sort groups).mem_iff.mp listed)
    obtain ⟨m, inside, rfl⟩ := List.mem_map.mp source
    exact ⟨m.2, sized m inside, own⟩
  have perm := (sort groups).trans (classes.trans (sort groups').symm)
  refine List.Perm.eq_of_pairwise ?_ grouped.sorted grouped'.sorted perm
  intro c d listed listed' below above
  obtain ⟨a, sizedA, own⟩ := known c listed
  obtain ⟨b, sizedB, other⟩ := known d (perm.mem_iff.mpr listed')
  exact class_of_key sizedA sizedB own other (List.le_antisymm below above)

/-- Groups of one class have the same rules. -/
theorem Grouped.members_perm (grouped : Grouped depth members groups)
    (grouped' : Grouped depth members' groups')
    (same : (members.map Prod.snd).Perm (members'.map Prod.snd)) {group group' : BranchGroup}
    (inside : group ∈ groups) (inside' : group' ∈ groups')
    (classes : group.entryClass = group'.entryClass) :
    (group.members.map Prod.snd).Perm (group'.members.map Prod.snd) := by
  have filtered : ∀ list : List (Nat × Rule),
      (list.filter (fun m => entryClass m.2 depth = some group.entryClass)).map Prod.snd =
        (list.map Prod.snd).filter (fun rule => entryClass rule depth = some group.entryClass) := by
    intro list
    rw [List.filter_map]
    rfl
  rw [grouped.members group inside, grouped'.members group' inside', ← classes, filtered, filtered]
  exact same.filter _

variable {nodes nodes' : List Node}

/-- The nodes from `start` up to `stop` have the same shapes in both vectors. -/
def SameShapes (nodes nodes' : List Node) (start stop : Nat) : Prop :=
  ∀ k, start ≤ k → k < stop → nodes[k]?.map Node.shape = nodes'[k]?.map Node.shape

/-- Rows of branches for the same classes have the same shape when the subtrees below have. -/
theorem sameShapes_row {height height' : Nat} {branches branches' : List Branch}
    {row row' : List BranchGroup} {below below' : Nat → List (Nat × Rule) → Prop}
    (linked : List.Forall₂ (fun branch group => branch = group.branch branch.next ∧
      below branch.next group.members) branches row)
    (linked' : List.Forall₂ (fun branch group => branch = group.branch branch.next ∧
      below' branch.next group.members) branches' row')
    (classes : row.map BranchGroup.entryClass = row'.map BranchGroup.entryClass)
    (each : ∀ group ∈ row, ∀ group' ∈ row', group.entryClass = group'.entryClass →
      ∀ i stop stop', below i group.members → below' i group'.members →
        Spans Node.targets nodes height i stop → Spans Node.targets nodes' height' i stop' →
        stop = stop' ∧ SameShapes nodes nodes' i stop) {start stop stop' : Nat}
    (filled : Consecutive (Spans Node.targets nodes height) start (branches.map Branch.next) stop)
    (filled' : Consecutive (Spans Node.targets nodes' height') start (branches'.map Branch.next)
      stop') :
    stop = stop' ∧ branches.map Branch.shape = branches'.map Branch.shape ∧
      SameShapes nodes nodes' start stop := by
  induction linked generalizing branches' row' start with
  | nil =>
    cases row' with
    | cons group row' => cases classes
    | nil =>
      cases linked'
      have ended : start = stop := filled
      have ended' : start = stop' := filled'
      refine ⟨ended.symm.trans ended', rfl, ?_⟩
      intro k after before
      omega
  | @cons branch group branches row here _ ih =>
    cases linked' with
    | nil => cases classes
    | @cons branch' group' branches' row' here' linked' =>
      rw [List.map_cons, List.map_cons, List.cons.injEq] at classes
      obtain ⟨same, later⟩ := classes
      obtain ⟨at', middle, spans, rest⟩ := filled
      obtain ⟨at'', middle', spans', rest'⟩ := filled'
      have together : branch.next = branch'.next := at'.trans at''.symm
      obtain ⟨own, under⟩ := here
      obtain ⟨own', under'⟩ := here'
      rw [← together] at under'
      rw [at'] at under under'
      obtain ⟨rfl, first⟩ := each group List.mem_cons_self group' List.mem_cons_self same start
        middle middle' under under' spans spans'
      obtain ⟨ended, shapes, behind⟩ := ih linked' later
        (fun g inside g' inside' => each g (List.mem_cons_of_mem _ inside) g'
          (List.mem_cons_of_mem _ inside')) rest rest'
      refine ⟨ended, ?_, ?_⟩
      · rw [List.map_cons, List.map_cons, shapes, Branch.shape, Branch.shape, label_of_group own,
          label_of_group own', same, together]
      · intro k after before
        by_cases inside : k < middle
        · exact first k after inside
        · exact behind k (by omega) before

/-- Subtrees for the same rules have the same shape. -/
theorem Built.sameShapes {height height' high high' i stop stop' : Nat}
    (built : Built nodes height depth i members) (built' : Built nodes' height' depth i members')
    (same : (members.map Prod.snd).Perm (members'.map Prod.snd)) (sized : ∀ m ∈ members, m.2.Sized)
    (spans : Spans Node.targets nodes high i stop)
    (spans' : Spans Node.targets nodes' high' i stop') :
    stop = stop' ∧ SameShapes nodes nodes' i stop := by
  induction height generalizing height' high high' depth i members members' stop stop' with
  | zero => exact absurd built id
  | succ height ih =>
    cases height' with
    | zero => exact absurd built' id
    | succ height' =>
      cases high with
      | zero => exact absurd spans id
      | succ high =>
        cases high' with
        | zero => exact absurd spans' id
        | succ high' =>
          obtain ⟨branches, groups, here, grouped, linked⟩ := built
          obtain ⟨branches', groups', here', grouped', linked'⟩ := built'
          obtain ⟨node, there, filled⟩ := spans
          obtain ⟨node', there', filled'⟩ := spans'
          rw [here] at there
          rw [here'] at there'
          cases there
          cases there'
          have each : ∀ group ∈ sortGroups groups, ∀ group' ∈ sortGroups groups',
              group.entryClass = group'.entryClass → ∀ j stop stop',
              Built nodes height (depth + 1) j group.members →
              Built nodes' height' (depth + 1) j group'.members →
              Spans Node.targets nodes high j stop → Spans Node.targets nodes' high' j stop' →
              stop = stop' ∧ SameShapes nodes nodes' j stop := by
            intro group inside group' inside' classes j stop stop' below below' spans spans'
            have member := mem_sortGroups.mp inside
            refine ih below below' (grouped.members_perm grouped' same member
              (mem_sortGroups.mp inside') classes) ?_ spans spans'
            intro m chosen
            exact sized m (grouped.mem_group member chosen).1
          obtain ⟨ended, shapes, under⟩ := sameShapes_row
            (linked.imp fun _ _ related => ⟨related.1, related.2.2⟩)
            (linked'.imp fun _ _ related => ⟨related.1, related.2.2⟩)
            (grouped.classes_eq grouped' same sized) each filled filled'
          refine ⟨ended, ?_⟩
          intro k after before
          by_cases own : k = i
          · subst own
            rw [here, here']
            exact congrArg some shapes
          · exact under k (by omega) before

/-- An entry goes into the group another one opened when it agrees in all but the index. -/
theorem accepts_newGroup_iff (a b : FieldRule) (next next' : Option FieldRef) (m : Nat × Rule) :
    (newGroup a next m).accepts b next' ↔
      a.field = b.field ∧ a.fieldPosition = b.fieldPosition ∧ a.length = b.length ∧
        a.direction = b.direction ∧ a.target = b.target ∧ a.matching = b.matching ∧
        a.action = b.action ∧ next = next' := by
  have opened : (newGroup a next m).entryClass = (a.label, next) := rfl
  rw [accepts_iff, opened, Prod.mk.injEq, FieldRule.label, FieldRule.label, FieldRule.mk.injEq]
  constructor
  · rintro ⟨⟨field, length, position, direction, target, matching, action, -⟩, next⟩
    exact ⟨field, position, length, direction, target, matching, action, next⟩
  · rintro ⟨field, position, length, direction, target, matching, action, next⟩
    exact ⟨⟨field, length, position, direction, target, matching, action, rfl⟩, next⟩

/-- Rule sets that differ in the order of their rules get trees of one shape, and a key stands
    for what branches are merged on. -/
theorem tree_shape_order_free {left right : RuleSet} (same : left.rules.Perm right.rules)
    (sized : left.Sized) :
    (∀ (a b : FieldRule) (next next' : Option FieldRef) (m : Nat × Rule), a.Sized → b.Sized →
      (∀ field ∈ next, field.Sized) → (∀ field ∈ next', field.Sized) →
        (branchSortKey a next = branchSortKey b next' ↔
          a.field = b.field ∧ a.fieldPosition = b.fieldPosition ∧ a.length = b.length ∧
            a.direction = b.direction ∧ a.target = b.target ∧ a.matching = b.matching ∧
            a.action = b.action ∧ next = next') ∧
        (branchSortKey a next = branchSortKey b next' ↔ (newGroup a next m).accepts b next')) ∧
    ∃ tree tree' : DecisionTree, DecisionTree.build left = .ok tree ∧
      DecisionTree.build right = .ok tree' ∧ tree.nodes.length = tree'.nodes.length ∧
      tree.shape = tree'.shape := by
  constructor
  · intro a b next next' m sizedA sizedB sizedNext sizedNext'
    have key := branchSortKey_inj sizedA sizedB sizedNext sizedNext'
    exact ⟨key, key.trans (accepts_newGroup_iff a b next next' m).symm⟩
  · obtain ⟨tree, built, whole⟩ := build_total left
    obtain ⟨tree', built', whole'⟩ := build_total right
    have sized' : ∀ m ∈ orderedRules left.rules, m.2.Sized := by
      intro m member
      exact sized m.2 (List.mem_of_getElem? (mem_orderedRules.mp member))
    rw [← map_snd_orderedRules left.rules, ← map_snd_orderedRules right.rules] at same
    obtain ⟨length, shapes⟩ :=
      whole.sameShapes whole' same sized' (build_spans built) (build_spans built')
    refine ⟨tree, tree', built, built', length, ?_⟩
    rw [DecisionTree.shape, DecisionTree.shape]
    apply List.ext_getElem?
    intro k
    rw [List.getElem?_map, List.getElem?_map]
    by_cases inside : k < tree.nodes.length
    · exact shapes k (Nat.zero_le k) inside
    · rw [List.getElem?_eq_none (Nat.not_lt.mp inside),
        List.getElem?_eq_none (length ▸ Nat.not_lt.mp inside)]

/-- A rule with one CoAP option of any value, sent in full. -/
def optionRule (id number : Nat) : Rule :=
  ⟨⟨id, 8⟩, [⟨.coapOption number, .variableBytes, 1, .bidirectional, .none, .ignore, .valueSent, 0⟩],
    .compression⟩

theorem optionRule_sized {id number : Nat} (word : Word number) : (optionRule id number).Sized := by
  intro field member
  cases List.mem_singleton.mp member
  exact ⟨word, (by decide : 1 < 2 ^ 64), trivial, trivial, trivial⟩

theorem tree_shape_order_free_at_two_options :
    ∃ tree tree' : DecisionTree,
      DecisionTree.build ⟨[optionRule 1 11, optionRule 2 3], .empty⟩ = .ok tree ∧
        DecisionTree.build ⟨[optionRule 2 3, optionRule 1 11], .empty⟩ = .ok tree' ∧
        tree.nodes.length = tree'.nodes.length ∧ tree.shape = tree'.shape := by
  have sized : RuleSet.Sized ⟨[optionRule 1 11, optionRule 2 3], .empty⟩ := by
    intro rule member
    simp only [List.mem_cons, List.not_mem_nil, or_false] at member
    rcases member with rfl | rfl
    · exact optionRule_sized (by decide : 11 < 2 ^ 64)
    · exact optionRule_sized (by decide : 3 < 2 ^ 64)
  have swapped : (RuleSet.mk [optionRule 1 11, optionRule 2 3] .empty).rules.Perm
      (RuleSet.mk [optionRule 2 3, optionRule 1 11] .empty).rules := List.Perm.swap _ _ _
  exact (tree_shape_order_free swapped sized).2

end SchcCore
