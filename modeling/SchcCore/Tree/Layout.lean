import SchcCore.Lib.Preorder
import SchcCore.Tree.Lent

/- How the built tree lies in its vector: a subtree after the other, so that branches lead
   forward and every node but the root is reached by one. Each rule has one path. -/
namespace SchcCore
open Outcome Preorder

/-- Where the branches of a node lead. -/
def Node.targets (node : Node) : List Nat := node.branches.map Branch.next

/-- Where all branches of the tree lead, branch by branch. -/
def DecisionTree.targets (tree : DecisionTree) : List Nat := tree.nodes.flatMap Node.targets

theorem buildBranches_spans {build : List (Nat × Rule) → List Node → Result (Nat × List Node)}
    {height : Nat} (each : ∀ members nodes next nodes', build members nodes = .ok (next, nodes') →
      next = nodes.length ∧ nodes <+: nodes' ∧
        Spans Node.targets nodes' height next nodes'.length)
    {groups : List BranchGroup} {nodes last : List Node} {branches : List Branch}
    (done : buildBranches build groups nodes = .ok (branches, last)) :
    nodes <+: last ∧ Consecutive (Spans Node.targets last height) nodes.length
      (branches.map Branch.next) last.length := by
  induction groups generalizing nodes branches with
  | nil =>
    cases done
    exact ⟨List.prefix_rfl, rfl⟩
  | cons group groups ih =>
    simp only [buildBranches, bind_eq_ok] at done
    obtain ⟨⟨next, middle⟩, first, ⟨later, last'⟩, rest, done⟩ := done
    cases done
    obtain ⟨rfl, extended, spans⟩ := each _ _ _ _ first
    obtain ⟨further, row⟩ := ih rest
    obtain ⟨tail, rfl⟩ := further
    exact ⟨extended.trans (List.prefix_append _ _), rfl, middle.length, spans.append tail, row⟩

theorem buildNode_spans {height depth : Nat} {rules : List (Nat × Rule)} {nodes last : List Node}
    {i : Nat} (done : buildNode height depth rules nodes = .ok (i, last)) :
    i = nodes.length ∧ nodes <+: last ∧ Spans Node.targets last height i last.length := by
  induction height generalizing depth rules nodes i last with
  | zero => cases done
  | succ height ih =>
    simp only [buildNode, bind_eq_ok] at done
    obtain ⟨groups, -, ⟨branches, after⟩, loop, done⟩ := done
    cases done
    obtain ⟨⟨tail, rfl⟩, row⟩ :=
      buildBranches_spans (fun members nodes next nodes' made => ih made) loop
    refine ⟨rfl, ?_, ?_⟩
    · rw [List.append_assoc, List.singleton_append, modify_after]
      exact List.prefix_append _ _
    · refine ⟨{ leafNode rules depth [] with branches }, ?_, ?_⟩
      · rw [List.append_assoc, List.singleton_append, modify_after]
        rw [List.getElem?_append_right (Nat.le_refl _), Nat.sub_self]
        rfl
      · simp only [List.length_modify, List.length_append, List.length_singleton] at row ⊢
        refine row.mono fun a b later spans => ⟨spans.lt.le, spans.congr fun j after => ?_⟩
        have past : nodes.length ≠ j := by omega
        exact List.getElem?_modify_ne _ _ past

/-- The whole vector is one tree. -/
theorem build_spans {ruleSet : RuleSet} {tree : DecisionTree}
    (built : DecisionTree.build ruleSet = .ok tree) :
    Spans Node.targets tree.nodes (longestRule (orderedRules ruleSet.rules) + 1) 0
      tree.nodes.length := by
  simp only [DecisionTree.build, bind_eq_ok] at built
  obtain ⟨⟨i, nodes⟩, done, built⟩ := built
  cases built
  obtain ⟨rfl, -, spans⟩ := buildNode_spans done
  exact spans

/- Paths. -/

/-- The branches of the path lead from node `i` to node `j`. -/
def Leads (nodes : List Node) : Nat → List Branch → Nat → Prop
  | i, [], j => i = j
  | i, branch :: path, j =>
      ∃ node, nodes[i]? = some node ∧ branch ∈ node.branches ∧ Leads nodes branch.next path j

/-- The path ends at a node with a rule identifier. -/
def EndsRule (nodes : List Node) (i : Nat) (path : List Branch) : Prop :=
  ∃ j node, Leads nodes i path j ∧ nodes[j]? = some node ∧ node.ruleId.isSome

/-- Up to its index, the entry that a branch was made from. -/
def Branch.label (branch : Branch) : FieldRule := branch.entry.label

/-- The path ends at a node with a rule identifier, and its branches are the entries of the
    rule in order: field, length, position, direction, target, operator and action. -/
def DecisionTree.Represents (tree : DecisionTree) (path : List Branch) (rule : Rule) : Prop :=
  EndsRule tree.nodes 0 path ∧ path.map Branch.label = rule.fields.map FieldRule.label

variable {nodes : List Node} {height depth i : Nat} {members : List (Nat × Rule)}

theorem endsRule_cons {branch : Branch} {path : List Branch} :
    EndsRule nodes i (branch :: path) ↔
      ∃ node, nodes[i]? = some node ∧ branch ∈ node.branches ∧ EndsRule nodes branch.next path := by
  constructor
  · rintro ⟨j, last, ⟨node, there, taken, leads⟩, ended⟩
    exact ⟨node, there, taken, j, last, leads, ended⟩
  · rintro ⟨node, there, taken, j, last, leads, ended⟩
    exact ⟨j, last, ⟨node, there, taken, leads⟩, ended⟩

theorem label_of_group {branch : Branch} {group : BranchGroup}
    (same : branch = group.branch branch.next) : branch.label = group.entryClass.1 := by
  rw [same]
  rfl

/-- Where a path ends a rule, a member of the node it starts from has its branches as its last
    entries. -/
theorem Built.member_of_path (built : Built nodes height depth i members) {path : List Branch}
    (ends : EndsRule nodes i path) : ∃ m ∈ members,
      (m.2.fields.drop depth).map FieldRule.label = path.map Branch.label := by
  induction path generalizing height depth i members with
  | nil =>
    cases height with
    | zero => exact absurd built id
    | succ height =>
      obtain ⟨branches, groups, here, -, -⟩ := built
      obtain ⟨j, node, rfl, there, named⟩ := ends
      rw [here] at there
      cases there
      simp only [leafNode, Option.isSome_map] at named
      obtain ⟨m, leaf⟩ := Option.isSome_iff_exists.mp named
      obtain ⟨inside, ended, -⟩ := leafAt_some leaf
      exact ⟨m, inside, by rw [List.drop_of_length_le ended.le]; rfl⟩
  | cons branch path ih =>
    cases height with
    | zero => exact absurd built id
    | succ height =>
      obtain ⟨branches, groups, here, grouped, linked⟩ := built
      obtain ⟨node, there, taken, ends⟩ := endsRule_cons.mp ends
      rw [here] at there
      cases there
      obtain ⟨group, inside, same, -, below⟩ := partner_right linked taken
      obtain ⟨m, member, labels⟩ := ih below ends
      obtain ⟨source, own⟩ := grouped.mem_group (mem_sortGroups.mp inside) member
      have longer := length_of_entryClass own
      rw [entryClass_of_field (List.getElem?_eq_getElem longer), Option.some.injEq] at own
      refine ⟨m, source, ?_⟩
      rw [List.drop_eq_getElem_cons longer, List.map_cons, List.map_cons, labels,
        label_of_group same, ← own]

/-- The class of a branch on a path to the end of a rule: its own entry and the next field. -/
theorem class_of_path {group : BranchGroup} {groups : List BranchGroup}
    (grouped : Grouped depth members groups) (inside : group ∈ groups)
    {branch : Branch} (same : branch = group.branch branch.next) {path : List Branch}
    (below : Built nodes height (depth + 1) branch.next group.members)
    (ends : EndsRule nodes branch.next path) :
    group.entryClass = (branch.label, (path.map Branch.label).head?.map FieldRule.field) := by
  obtain ⟨m, member, labels⟩ := below.member_of_path ends
  have own := (grouped.mem_group inside member).2
  have longer := length_of_entryClass own
  rw [entryClass_of_field (List.getElem?_eq_getElem longer), Option.some.injEq] at own
  rw [← labels, label_of_group same, ← own, nextFieldAt, List.head?_map, List.head?_drop,
    Option.map_map]
  rfl

theorem partner_at {α β : Type} {r : α → β → Prop} {as : List α} {bs : List β}
    (paired : List.Forall₂ r as bs) {a : α} (member : a ∈ as) :
    ∃ (n : Nat) (b : β), as[n]? = some a ∧ bs[n]? = some b ∧ r a b := by
  induction paired with
  | nil => cases member
  | cons related _ ih =>
    rcases List.mem_cons.mp member with rfl | later
    · exact ⟨0, _, rfl, rfl, related⟩
    · obtain ⟨n, b, left, right, related⟩ := ih later
      exact ⟨n + 1, b, left, right, related⟩

theorem distinct_sortGroups {groups : List BranchGroup}
    (distinct : (groups.map BranchGroup.entryClass).Nodup) :
    ((sortGroups groups).map BranchGroup.entryClass).Nodup :=
  ((List.perm_insertionSort _ groups).map BranchGroup.entryClass).nodup_iff.mpr distinct

/-- Two paths that end rules and have the same entries are one path. -/
theorem Built.path_unique (built : Built nodes height depth i members) {path path' : List Branch}
    (ends : EndsRule nodes i path) (ends' : EndsRule nodes i path')
    (same : path.map Branch.label = path'.map Branch.label) : path = path' := by
  induction path generalizing height depth i members path' with
  | nil => exact (List.map_eq_nil_iff.mp same.symm).symm
  | cons branch path ih =>
    cases path' with
    | nil => cases same
    | cons branch' path' =>
      cases height with
      | zero => exact absurd built id
      | succ height =>
        obtain ⟨branches, groups, here, grouped, linked⟩ := built
        obtain ⟨node, there, taken, ends⟩ := endsRule_cons.mp ends
        obtain ⟨node', there', taken', ends'⟩ := endsRule_cons.mp ends'
        rw [here] at there there'
        cases there
        cases there'
        obtain ⟨n, group, placed, grouped₁, made, -, below⟩ := partner_at linked taken
        obtain ⟨n', group', placed', grouped₂, made', -, below'⟩ := partner_at linked taken'
        rw [List.map_cons, List.map_cons, List.cons.injEq] at same
        obtain ⟨first, later⟩ := same
        have inside := mem_sortGroups.mp (List.mem_of_getElem? grouped₁)
        have inside' := mem_sortGroups.mp (List.mem_of_getElem? grouped₂)
        have classes : group.entryClass = group'.entryClass := by
          rw [class_of_path grouped inside made below ends,
            class_of_path grouped inside' made' below' ends', first, later]
        have index : n = n' := by
          have bound : n < ((sortGroups groups).map BranchGroup.entryClass).length := by
            rw [List.length_map]
            exact (List.getElem?_eq_some_iff.mp grouped₁).1
          apply (List.getElem?_inj bound (distinct_sortGroups grouped.distinct)).mp
          rw [List.getElem?_map, List.getElem?_map, grouped₁, grouped₂]
          exact congrArg some classes
        subst index
        rw [placed] at placed'
        cases placed'
        rw [ih below ends ends' later]

/-- A member of a node goes on along its entries to a node that ends it. -/
theorem Built.path_of_member (built : Built nodes height depth i members) {m : Nat × Rule}
    (member : m ∈ members) {n : Nat} (enough : depth + n = m.2.fields.length) :
    ∃ path, EndsRule nodes i path ∧
      path.map Branch.label = (m.2.fields.drop depth).map FieldRule.label := by
  induction n generalizing height depth i members with
  | zero =>
    cases height with
    | zero => exact absurd built id
    | succ height =>
      obtain ⟨branches, groups, here, -, -⟩ := built
      obtain ⟨first, leaf⟩ := leafAt_isSome member (show m.2.fields.length = depth from enough.symm)
      refine ⟨[], ⟨i, _, rfl, here, ?_⟩, ?_⟩
      · rw [leafNode, leaf]
        rfl
      · rw [List.drop_of_length_le (by omega)]
        rfl
  | succ n ih =>
    cases height with
    | zero => exact absurd built id
    | succ height =>
      obtain ⟨branches, groups, here, grouped, linked⟩ := built
      have longer : depth < m.2.fields.length := by omega
      obtain ⟨group, inside, chosen⟩ := AtNode.branch_of_member grouped member longer
      obtain ⟨branch, taken, same, -, below⟩ := partner_left linked inside
      obtain ⟨path, ends, labels⟩ := ih below chosen (by omega)
      have own := (grouped.mem_group (mem_sortGroups.mp inside) chosen).2
      rw [entryClass_of_field (List.getElem?_eq_getElem longer), Option.some.injEq] at own
      refine ⟨branch :: path, endsRule_cons.mpr ⟨_, here, taken, ends⟩, ?_⟩
      rw [List.drop_eq_getElem_cons longer, List.map_cons, List.map_cons, labels,
        label_of_group same, ← own]

/-- Every rule has exactly one path. -/
theorem represents_once {ruleSet : RuleSet} {tree : DecisionTree}
    (built : DecisionTree.build ruleSet = .ok tree) {rule : Rule} (member : rule ∈ ruleSet.rules) :
    ∃! path, tree.Represents path rule := by
  obtain ⟨tree', built', whole⟩ := build_total ruleSet
  rw [built] at built'
  cases built'
  obtain ⟨k, placed⟩ := List.mem_iff_getElem?.mp member
  have listed : (k, rule) ∈ orderedRules ruleSet.rules := mem_orderedRules.mpr placed
  obtain ⟨path, ends, labels⟩ := whole.path_of_member listed (Nat.zero_add rule.fields.length)
  refine ⟨path, ⟨ends, labels⟩, ?_⟩
  rintro path' ⟨ends', labels'⟩
  exact whole.path_unique ends' ends (labels'.trans labels.symm)

end SchcCore
