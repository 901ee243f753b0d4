import SchcCore.Tree.Build

/- What the built tree is: at every node stand the rules that share the entries so far, each
   branch leads to the ones that also share the next entry, and a rule that ends leaves its
   order and identifier there. Building never fails. -/
namespace SchcCore
open Outcome

/-- An entry without its index: what branches are merged on. -/
def FieldRule.label (field : FieldRule) : FieldRule := { field with entryIndex := 0 }

/-- What decides the branch of a rule at a depth: its entry there and the next field. -/
def entryClass (rule : Rule) (depth : Nat) : Option (FieldRule × Option FieldRef) :=
  (rule.fields[depth]?).map (fun field => (field.label, nextFieldAt rule depth))

def BranchGroup.entryClass (group : BranchGroup) : FieldRule × Option FieldRef :=
  (⟨group.parse.field, group.parse.length, group.parse.fieldPosition, group.direction,
    group.target, group.matching, group.action, 0⟩, group.nextField)

theorem accepts_iff (group : BranchGroup) (field : FieldRule) (nextField : Option FieldRef) :
    group.accepts field nextField ↔ group.entryClass = (field.label, nextField) := by
  simp [BranchGroup.accepts, BranchGroup.entryClass, FieldRule.label, and_assoc]

/-- The rules of a node sorted into groups, each with the index its first rule lends. -/
structure Grouped (depth : Nat) (rules : List (Nat × Rule)) (groups : List BranchGroup) : Prop where
  members : ∀ group ∈ groups,
    group.members = rules.filter (fun m => entryClass m.2 depth = some group.entryClass)
  first : ∀ group ∈ groups, ∃ m field, group.members.head? = some m ∧
    m.2.fields[depth]? = some field ∧ group.parse.entryIndex = field.entryIndex
  covers : ∀ m ∈ rules, ∀ c, entryClass m.2 depth = some c → ∃ group ∈ groups, group.entryClass = c
  distinct : (groups.map BranchGroup.entryClass).Nodup
  keyed : ∀ group ∈ groups,
    group.sortKey = branchSortKey group.entryClass.1 group.entryClass.2

theorem map_class_joinGroup (field : FieldRule) (nextField : Option FieldRef) (m : Nat × Rule)
    (groups : List BranchGroup) :
    (joinGroup field nextField m groups).map BranchGroup.entryClass =
      if (field.label, nextField) ∈ groups.map BranchGroup.entryClass then
        groups.map BranchGroup.entryClass
      else groups.map BranchGroup.entryClass ++ [(field.label, nextField)] := by
  induction groups with
  | nil => simp [joinGroup, newGroup, BranchGroup.entryClass, FieldRule.label]
  | cons group groups ih =>
    by_cases accepted : group.accepts field nextField
    · have same := (accepts_iff _ _ _).mp accepted
      simp only [joinGroup, accepted, ↓reduceIte, List.map_cons, same, List.mem_cons, true_or]
      exact congrArg (· :: _) same
    · have differ : (field.label, nextField) ≠ group.entryClass := by
        intro same
        exact accepted ((accepts_iff _ _ _).mpr same.symm)
      simp only [joinGroup, accepted, Bool.false_eq_true, ↓reduceIte, List.map_cons, ih,
        List.mem_cons, differ, false_or]
      split <;> rfl

theorem mem_joinGroup {field : FieldRule} {nextField : Option FieldRef} {m : Nat × Rule}
    {groups : List BranchGroup} (distinct : (groups.map BranchGroup.entryClass).Nodup)
    {group : BranchGroup} (member : group ∈ joinGroup field nextField m groups) :
    (group ∈ groups ∧ group.entryClass ≠ (field.label, nextField)) ∨
      (∃ old ∈ groups, old.entryClass = (field.label, nextField) ∧
        group = { old with members := old.members ++ [m] }) ∨
      ((field.label, nextField) ∉ groups.map BranchGroup.entryClass ∧
        group = newGroup field nextField m) := by
  induction groups with
  | nil =>
    simp only [joinGroup, List.mem_singleton] at member
    exact .inr (.inr ⟨by simp, member⟩)
  | cons first groups ih =>
    rw [List.map_cons, List.nodup_cons] at distinct
    by_cases accepted : first.accepts field nextField
    · have same := (accepts_iff _ _ _).mp accepted
      simp only [joinGroup, accepted, ↓reduceIte, List.mem_cons] at member
      rcases member with here | later
      · exact .inr (.inl ⟨first, List.mem_cons_self, same, here⟩)
      · refine .inl ⟨List.mem_cons_of_mem _ later, ?_⟩
        intro again
        apply distinct.1
        rw [same, ← again]
        exact List.mem_map_of_mem later
    · have differ : first.entryClass ≠ (field.label, nextField) := by
        intro same
        exact accepted ((accepts_iff _ _ _).mpr same)
      simp only [joinGroup, accepted, Bool.false_eq_true, ↓reduceIte, List.mem_cons] at member
      rcases member with rfl | later
      · exact .inl ⟨List.mem_cons_self, differ⟩
      · rcases ih distinct.2 later with ⟨kept, other⟩ | ⟨old, inside, same, made⟩ | ⟨fresh, made⟩
        · exact .inl ⟨List.mem_cons_of_mem _ kept, other⟩
        · exact .inr (.inl ⟨old, List.mem_cons_of_mem _ inside, same, made⟩)
        · refine .inr (.inr ⟨?_, made⟩)
          simp only [List.map_cons, List.mem_cons, not_or]
          exact ⟨Ne.symm differ, fresh⟩

theorem entryClass_of_field {rule : Rule} {depth : Nat} {field : FieldRule}
    (here : rule.fields[depth]? = some field) :
    entryClass rule depth = some (field.label, nextFieldAt rule depth) := by
  simp [entryClass, here]

/-- One more rule: the groups stay sorted. -/
theorem Grouped.join {depth : Nat} {rules : List (Nat × Rule)} {groups : List BranchGroup}
    (grouped : Grouped depth rules groups) {m : Nat × Rule} {field : FieldRule}
    (here : m.2.fields[depth]? = some field) :
    Grouped depth (rules ++ [m]) (joinGroup field (nextFieldAt m.2 depth) m groups) := by
  have own := entryClass_of_field here
  have classes := map_class_joinGroup field (nextFieldAt m.2 depth) m groups
  constructor
  · intro group member
    rcases mem_joinGroup grouped.distinct member with ⟨kept, other⟩ | ⟨old, inside, same, made⟩ |
      ⟨fresh, made⟩
    · have apart : ¬ (field.label, nextFieldAt m.2 depth) = group.entryClass := Ne.symm other
      rw [grouped.members group kept, List.filter_append]
      simp [own, apart]
    · subst made
      have unchanged : BranchGroup.entryClass { old with members := old.members ++ [m] } =
          (field.label, nextFieldAt m.2 depth) := same
      have members := grouped.members old inside
      rw [same] at members
      simp only [unchanged]
      rw [members, List.filter_append]
      simp [own]
    · subst made
      have none : rules.filter (fun r =>
          entryClass r.2 depth = some (field.label, nextFieldAt m.2 depth)) = [] := by
        rw [List.filter_eq_nil_iff]
        intro r inside hit
        obtain ⟨group, member, same⟩ := grouped.covers r inside _ (of_decide_eq_true hit)
        exact fresh (same ▸ List.mem_map_of_mem member)
      rw [List.filter_append]
      change [m] = rules.filter (fun r =>
        entryClass r.2 depth = some (field.label, nextFieldAt m.2 depth)) ++ _
      rw [none]
      simp [own, newGroup, BranchGroup.entryClass, FieldRule.label]
  · intro group member
    rcases mem_joinGroup grouped.distinct member with ⟨kept, -⟩ | ⟨old, inside, -, made⟩ |
      ⟨-, made⟩
    · exact grouped.first group kept
    · subst made
      obtain ⟨head, entry, first, there, lent⟩ := grouped.first old inside
      refine ⟨head, entry, ?_, there, lent⟩
      rw [List.head?_append, first]
      rfl
    · subst made
      exact ⟨m, field, rfl, here, rfl⟩
  · intro r inside c hit
    have listed : c ∈ (joinGroup field (nextFieldAt m.2 depth) m groups).map BranchGroup.entryClass := by
      rw [classes]
      rcases List.mem_append.mp inside with old | new
      · obtain ⟨group, member, same⟩ := grouped.covers r old c hit
        have present := List.mem_map_of_mem (f := BranchGroup.entryClass) member
        rw [same] at present
        split
        · exact present
        · exact List.mem_append_left _ present
      · rw [List.mem_singleton] at new
        subst new
        rw [own] at hit
        cases hit
        split
        · assumption
        · simp
    obtain ⟨group, member, same⟩ := List.mem_map.mp listed
    exact ⟨group, member, same⟩
  · rw [classes]
    split
    · exact grouped.distinct
    · rename_i fresh
      rw [List.nodup_append]
      refine ⟨grouped.distinct, by simp, ?_⟩
      intro a ha b hb same
      rw [List.mem_singleton] at hb
      exact fresh (hb ▸ same ▸ ha)
  · intro group member
    rcases mem_joinGroup grouped.distinct member with ⟨kept, -⟩ | ⟨old, inside, -, made⟩ |
      ⟨-, made⟩
    · exact grouped.keyed group kept
    · subst made
      exact grouped.keyed old inside
    · subst made
      rfl

theorem Grouped.pass {depth : Nat} {rules : List (Nat × Rule)} {groups : List BranchGroup}
    (grouped : Grouped depth rules groups) {m : Nat × Rule} (ended : m.2.fields[depth]? = none) :
    Grouped depth (rules ++ [m]) groups := by
  have own : entryClass m.2 depth = none := by simp [entryClass, ended]
  refine ⟨?_, grouped.first, ?_, grouped.distinct, grouped.keyed⟩
  · intro group member
    rw [grouped.members group member, List.filter_append]
    simp [own]
  · intro r inside c hit
    rcases List.mem_append.mp inside with old | new
    · exact grouped.covers r old c hit
    · rw [List.mem_singleton] at new
      subst new
      rw [own] at hit
      cases hit

theorem branchGroupsFrom_spec {depth : Nat} {done rules : List (Nat × Rule)}
    {groups : List BranchGroup} (grouped : Grouped depth done groups)
    (long : ∀ m ∈ rules, depth ≤ m.2.fields.length) :
    ∃ all, branchGroupsFrom depth groups rules = .ok all ∧ Grouped depth (done ++ rules) all := by
  induction rules generalizing done groups with
  | nil => exact ⟨groups, rfl, by simpa using grouped⟩
  | cons m rules ih =>
    obtain ⟨order, rule⟩ := m
    have enough := long (order, rule) List.mem_cons_self
    have rest : ∀ m ∈ rules, depth ≤ m.2.fields.length :=
      fun m member => long m (List.mem_cons_of_mem _ member)
    have long' : ¬ rule.fields.length < depth := Nat.not_lt.mpr enough
    have assoc : done ++ (order, rule) :: rules = (done ++ [(order, rule)]) ++ rules := by simp
    rw [assoc]
    cases here : rule.fields[depth]? with
    | none =>
      simp only [branchGroupsFrom, long', ↓reduceIte, here]
      exact ih (grouped.pass (m := (order, rule)) here) rest
    | some field =>
      simp only [branchGroupsFrom, long', ↓reduceIte, here]
      exact ih (grouped.join (m := (order, rule)) here) rest

theorem branchGroups_spec {depth : Nat} {rules : List (Nat × Rule)}
    (long : ∀ m ∈ rules, depth ≤ m.2.fields.length) :
    ∃ groups, branchGroups rules depth = .ok groups ∧ Grouped depth rules groups := by
  have start : Grouped depth [] [] := ⟨by simp, by simp, by simp, by simp, by simp⟩
  simpa [branchGroups] using branchGroupsFrom_spec start long

theorem mem_sortGroups {group : BranchGroup} {groups : List BranchGroup} :
    group ∈ sortGroups groups ↔ group ∈ groups := by
  simp [sortGroups, List.mem_insertionSort]

/-- A member of a group has its next entry, of the group's class. -/
theorem Grouped.mem_group {depth : Nat} {rules : List (Nat × Rule)} {groups : List BranchGroup}
    (grouped : Grouped depth rules groups) {group : BranchGroup} (inside : group ∈ groups)
    {m : Nat × Rule} (member : m ∈ group.members) :
    m ∈ rules ∧ entryClass m.2 depth = some group.entryClass := by
  rw [grouped.members group inside, List.mem_filter] at member
  exact ⟨member.1, of_decide_eq_true member.2⟩

theorem length_of_entryClass {rule : Rule} {depth : Nat} {c : FieldRule × Option FieldRef}
    (hit : entryClass rule depth = some c) : depth < rule.fields.length := by
  by_contra short
  have past : rule.fields[depth]? = none := List.getElem?_eq_none (by omega)
  simp [entryClass, past] at hit

/- The nodes. -/

def leafNode (rules : List (Nat × Rule)) (depth : Nat) (branches : List Branch) : Node :=
  ⟨(leafAt rules depth).map (fun m => m.2.id), (leafAt rules depth).map (fun m => m.1), branches⟩

/-- Node `i` stands for `rules` at `depth`, with the nodes under it. -/
def Built (nodes : List Node) : Nat → Nat → Nat → List (Nat × Rule) → Prop
  | 0, _, _, _ => False
  | height + 1, depth, i, rules =>
      ∃ branches groups, nodes[i]? = some (leafNode rules depth branches) ∧
        Grouped depth rules groups ∧
        List.Forall₂ (fun branch group => branch = group.branch branch.next ∧ i < branch.next ∧
          Built nodes height (depth + 1) branch.next group.members) branches (sortGroups groups)

theorem partner_right {α β : Type} {r : α → β → Prop} {as : List α} {bs : List β}
    (paired : List.Forall₂ r as bs) {a : α} (member : a ∈ as) : ∃ b ∈ bs, r a b := by
  induction paired with
  | nil => simp at member
  | cons related _ ih =>
    rcases List.mem_cons.mp member with rfl | later
    · exact ⟨_, List.mem_cons_self, related⟩
    · obtain ⟨b, inside, related⟩ := ih later
      exact ⟨b, List.mem_cons_of_mem _ inside, related⟩

theorem partner_left {α β : Type} {r : α → β → Prop} {as : List α} {bs : List β}
    (paired : List.Forall₂ r as bs) {b : β} (member : b ∈ bs) : ∃ a ∈ as, r a b :=
  partner_right (List.Forall₂.flip (paired : List.Forall₂ (flip (flip r)) as bs)) member

theorem Built.mono {nodes nodes' : List Node} {height depth i : Nat} {rules : List (Nat × Rule)}
    (built : Built nodes height depth i rules)
    (kept : ∀ j node, i ≤ j → nodes[j]? = some node → nodes'[j]? = some node) :
    Built nodes' height depth i rules := by
  induction height generalizing depth i rules with
  | zero => exact built
  | succ height ih =>
    obtain ⟨branches, groups, here, grouped, linked⟩ := built
    refine ⟨branches, groups, kept i _ (Nat.le_refl i) here, grouped, ?_⟩
    refine linked.imp fun branch group ⟨same, later, below⟩ => ⟨same, later, ?_⟩
    exact ih below fun j node after => kept j node (by omega)

theorem buildBranches_spec {height depth : Nat} {groups : List BranchGroup}
    {build : List (Nat × Rule) → List Node → Result (Nat × List Node)}
    (each : ∀ group ∈ groups, ∀ nodes, ∃ nodes',
      build group.members nodes = .ok (nodes.length, nodes') ∧ nodes <+: nodes' ∧
        Built nodes' height depth nodes.length group.members) (nodes : List Node) :
    ∃ branches nodes', buildBranches build groups nodes = .ok (branches, nodes') ∧
      nodes <+: nodes' ∧
      List.Forall₂ (fun branch group => branch = group.branch branch.next ∧
        nodes.length ≤ branch.next ∧ Built nodes' height depth branch.next group.members)
        branches groups := by
  induction groups generalizing nodes with
  | nil => exact ⟨[], nodes, rfl, List.prefix_rfl, .nil⟩
  | cons group groups ih =>
    obtain ⟨first, made, extends₁, built⟩ := each group List.mem_cons_self nodes
    obtain ⟨branches, last, rest, extends₂, linked⟩ :=
      ih (fun group member => each group (List.mem_cons_of_mem _ member)) first
    refine ⟨group.branch nodes.length :: branches, last, ?_, extends₁.trans extends₂, .cons ?_ ?_⟩
    · simp only [buildBranches, made, ok_bind, rest]
    · refine ⟨rfl, Nat.le_refl _, built.mono fun j node _ found => ?_⟩
      obtain ⟨tail, rfl⟩ := extends₂
      obtain ⟨inside, -⟩ := List.getElem?_eq_some_iff.mp found
      rwa [List.getElem?_append_left inside]
    · have longer := extends₁.length_le
      exact linked.imp fun branch group ⟨same, later, below⟩ => ⟨same, by omega, below⟩

theorem modify_after (before tail : List Node) (node : Node) (change : Node → Node) :
    (before ++ node :: tail).modify before.length change = before ++ change node :: tail := by
  induction before with
  | nil => rfl
  | cons first before ih => exact congrArg (first :: ·) ih

theorem buildNode_spec {height depth : Nat} {rules : List (Nat × Rule)}
    (long : ∀ m ∈ rules, depth ≤ m.2.fields.length)
    (high : ∀ m ∈ rules, m.2.fields.length < depth + (height + 1)) (nodes : List Node) :
    ∃ nodes', buildNode (height + 1) depth rules nodes = .ok (nodes.length, nodes') ∧
      nodes <+: nodes' ∧ Built nodes' (height + 1) depth nodes.length rules := by
  induction height generalizing depth rules nodes with
  | zero =>
    obtain ⟨groups, made, grouped⟩ := branchGroups_spec long
    have none : groups = [] := by
      by_contra some
      obtain ⟨group, member⟩ := List.exists_mem_of_ne_nil groups some
      obtain ⟨m, field, first, here, -⟩ := grouped.first group member
      have inside := grouped.mem_group member (List.mem_of_head? first)
      have := length_of_entryClass inside.2
      have := high m inside.1
      omega
    subst none
    refine ⟨nodes ++ [leafNode rules depth []], ?_, List.prefix_append _ _, ?_⟩
    · rw [buildNode, made]
      simp [sortGroups, buildBranches, leafNode, modify_after]
    · exact ⟨[], [], by simp, grouped, .nil⟩
  | succ height ih =>
    obtain ⟨groups, made, grouped⟩ := branchGroups_spec long
    have each : ∀ group ∈ sortGroups groups, ∀ nodes, ∃ nodes',
        buildNode (height + 1) (depth + 1) group.members nodes = .ok (nodes.length, nodes') ∧
          nodes <+: nodes' ∧ Built nodes' (height + 1) (depth + 1) nodes.length group.members := by
      intro group member nodes
      refine ih ?_ ?_ nodes
      · intro m inside
        exact length_of_entryClass (grouped.mem_group (mem_sortGroups.mp member) inside).2
      · intro m inside
        have := high m (grouped.mem_group (mem_sortGroups.mp member) inside).1
        omega
    obtain ⟨branches, last, rest, extended, linked⟩ :=
      buildBranches_spec each (nodes ++ [leafNode rules depth []])
    obtain ⟨tail, rfl⟩ := extended
    refine ⟨nodes ++ leafNode rules depth branches :: tail, ?_, List.prefix_append _ _, ?_⟩
    · rw [buildNode, made, ok_bind]
      change (buildBranches _ _ (nodes ++ [leafNode rules depth []]) >>= _) = _
      rw [rest, ok_bind]
      simp only [List.append_assoc, List.cons_append, List.nil_append, modify_after]
      rfl
    · refine ⟨branches, groups, by simp, grouped, ?_⟩
      refine linked.imp fun branch group ⟨same, later, below⟩ => ⟨same, ?_, below.mono ?_⟩
      · simpa using later
      · intro j node after found
        have past : nodes.length < j := by
          simp only [List.length_append, List.length_singleton] at later
          omega
        rw [List.getElem?_append_right (by simp; omega)] at found
        rw [List.getElem?_append_right (by omega)]
        simp only [List.length_append, List.length_singleton] at found
        have step : j - nodes.length = j - (nodes.length + 1) + 1 := by omega
        rw [step, List.getElem?_cons_succ]
        exact found

theorem length_le_longestRule {rules : List (Nat × Rule)} {m : Nat × Rule} (member : m ∈ rules) :
    m.2.fields.length ≤ longestRule rules := by
  induction rules with
  | nil => simp at member
  | cons first rules ih =>
    simp only [longestRule, List.foldr_cons]
    rcases List.mem_cons.mp member with rfl | later
    · exact Nat.le_max_left _ _
    · exact (ih later).trans (Nat.le_max_right _ _)

/-- Building succeeds for every rule set, with the whole set at the root. -/
theorem build_total (ruleSet : RuleSet) :
    ∃ tree, DecisionTree.build ruleSet = .ok tree ∧
      Built tree.nodes (longestRule (orderedRules ruleSet.rules) + 1) 0 0
        (orderedRules ruleSet.rules) := by
  have long : ∀ m ∈ orderedRules ruleSet.rules, 0 ≤ m.2.fields.length := fun _ _ => Nat.zero_le _
  have high : ∀ m ∈ orderedRules ruleSet.rules,
      m.2.fields.length < 0 + (longestRule (orderedRules ruleSet.rules) + 1) := by
    intro m member
    have := length_le_longestRule member
    omega
  obtain ⟨nodes, made, -, built⟩ := buildNode_spec long high []
  refine ⟨⟨nodes⟩, ?_, built⟩
  rw [DecisionTree.build, made]
  rfl

end SchcCore
