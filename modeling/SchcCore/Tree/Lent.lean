import SchcCore.Tree.Paths

/- Where a rule runs in the shared tree: the rules that stand at a node with it are the ones
   that agree with it so far, and each of its entries runs under the index of the first rule
   that agrees with it up to that entry. -/
namespace SchcCore
open Outcome

/-- Two rules that take the same branches up to a depth. -/
def agrees (depth : Nat) (a b : Rule) : Bool :=
  (List.range depth).all (fun k => entryClass a k = entryClass b k)

theorem agrees_iff {depth : Nat} {a b : Rule} :
    agrees depth a b ↔ ∀ k < depth, entryClass a k = entryClass b k := by
  simp [agrees]

theorem agrees_succ (depth : Nat) (a b : Rule) :
    agrees (depth + 1) a b =
      (agrees depth a b && decide (entryClass a depth = entryClass b depth)) := by
  simp [agrees, List.range_succ]

@[simp] theorem agrees_self (depth : Nat) (a : Rule) : agrees depth a a := by
  simp [agrees]

/-- Agreeing rules have the same company. -/
theorem agrees_eq {depth : Nat} {a b : Rule} (same : agrees depth a b) :
    agrees depth a = agrees depth b := by
  funext c
  rw [Bool.eq_iff_iff, agrees_iff, agrees_iff]
  have equal := agrees_iff.mp same
  constructor
  · intro both k below
    rw [← equal k below, both k below]
  · intro both k below
    rw [equal k below, both k below]

/-- The entry index that the shared tree uses for entry `k` of a rule. -/
def lentIndex (rules : List Rule) (rule : Rule) (k : Nat) : Nat :=
  match (rules.find? (agrees (k + 1) rule)).bind (fun first => first.fields[k]?) with
  | some field => field.entryIndex
  | none => 0

/-- The entries of a rule as the shared tree of `rules` runs them. -/
def Rule.lent (rules : List Rule) (rule : Rule) : List FieldRule :=
  rule.fields.mapIdx (fun k field => { field with entryIndex := lentIndex rules rule k })

@[simp] theorem Rule.length_lent (rules : List Rule) (rule : Rule) :
    (rule.lent rules).length = rule.fields.length := by
  simp [Rule.lent]

theorem Rule.getElem?_lent (rules : List Rule) (rule : Rule) (k : Nat) :
    (rule.lent rules)[k]? = (rule.fields[k]?).map
      (fun field => { field with entryIndex := lentIndex rules rule k }) := by
  simp [Rule.lent, List.getElem?_mapIdx]

@[simp] theorem Rule.map_label_lent (rules : List Rule) (rule : Rule) :
    (rule.lent rules).map FieldRule.label = rule.fields.map FieldRule.label := by
  apply List.ext_getElem?
  intro k
  rw [List.getElem?_map, List.getElem?_map, Rule.getElem?_lent]
  cases rule.fields[k]? <;> simp [FieldRule.label]

/-- Alone, a rule keeps its own indices. -/
@[simp] theorem Rule.lent_alone (rule : Rule) : rule.lent [rule] = rule.fields := by
  apply List.ext_getElem?
  intro k
  rw [Rule.getElem?_lent]
  cases here : rule.fields[k]? with
  | none => rfl
  | some field =>
    have own : lentIndex [rule] rule k = field.entryIndex := by
      simp [lentIndex, here]
    rw [own]
    rfl

/-- The members of `rules` that agree with a rule up to a depth, with their places. -/
def cohort (rules : List Rule) (rule : Rule) (depth : Nat) : List (Nat × Rule) :=
  (orderedRules rules).filter (fun m => agrees depth rule m.2)

theorem mem_orderedRules {rules : List Rule} {m : Nat × Rule} :
    m ∈ orderedRules rules ↔ rules[m.1]? = some m.2 := by
  obtain ⟨k, rule⟩ := m
  simp only [orderedRules, List.mem_map, Prod.exists, Prod.mk.injEq]
  constructor
  · rintro ⟨r, i, listed, rfl, rfl⟩
    simpa using List.mem_zipIdx_iff_getElem?.mp listed
  · intro placed
    exact ⟨rule, k, List.mem_zipIdx_iff_getElem?.mpr (by simpa using placed), rfl, rfl⟩

theorem map_snd_orderedRules (rules : List Rule) : (orderedRules rules).map Prod.snd = rules := by
  simp [orderedRules, Function.comp_def]

theorem mem_cohort {rules : List Rule} {rule : Rule} {depth : Nat} {m : Nat × Rule} :
    m ∈ cohort rules rule depth ↔ m ∈ orderedRules rules ∧ agrees depth rule m.2 := by
  simp [cohort]

@[simp] theorem cohort_zero (rules : List Rule) (rule : Rule) :
    cohort rules rule 0 = orderedRules rules := by
  simp [cohort, agrees]

theorem find?_of_head_cohort {rules : List Rule} {rule : Rule} {depth : Nat} {m : Nat × Rule}
    (first : (cohort rules rule depth).head? = some m) :
    rules.find? (agrees depth rule) = some m.2 := by
  rw [cohort, List.head?_filter] at first
  conv_lhs => rw [← map_snd_orderedRules rules]
  rw [List.find?_map]
  change ((orderedRules rules).find? (fun m => agrees depth rule m.2)).map Prod.snd = _
  rw [first]
  rfl

/-- The entry that a branch stands for, under the index lent to it. -/
def Branch.entry (b : Branch) : FieldRule :=
  ⟨b.parse.field, b.parse.length, b.parse.fieldPosition, b.direction, b.target, b.matching,
    b.action, b.parse.entryIndex⟩

theorem entry_branch (group : BranchGroup) (next : Nat) :
    (group.branch next).entry =
      { group.entryClass.1 with entryIndex := group.parse.entryIndex } := rfl

/-- The rules at a node reached by the entries `path`. -/
structure AtNode (rules : List Rule) (members : List (Nat × Rule)) (path : List FieldRule) :
    Prop where
  company : ∀ m ∈ members, m ∈ orderedRules rules ∧ members = cohort rules m.2 path.length
  route : ∀ m ∈ members, path.length ≤ m.2.fields.length ∧ path = (m.2.lent rules).take path.length

theorem AtNode.root (rules : List Rule) : AtNode rules (orderedRules rules) [] :=
  ⟨fun m member => ⟨member, by simp⟩, fun m _ => by simp⟩

theorem cohort_succ (rules : List Rule) (rule : Rule) (depth : Nat) :
    cohort rules rule (depth + 1) = (cohort rules rule depth).filter
      (fun m => entryClass m.2 depth = entryClass rule depth) := by
  simp only [cohort, List.filter_filter, agrees_succ]
  congr 1
  funext m
  rw [Bool.and_comm, Bool.decide_congr eq_comm]

/-- The entry of a branch is the one that each member of its group runs. -/
theorem AtNode.entry {rules : List Rule} {members : List (Nat × Rule)} {path : List FieldRule}
    (here : AtNode rules members path) {groups : List BranchGroup}
    (grouped : Grouped path.length members groups) {group : BranchGroup} (inside : group ∈ groups)
    (next : Nat) {m : Nat × Rule} (member : m ∈ group.members) :
    group.members = cohort rules m.2 (path.length + 1) ∧
      (m.2.lent rules)[path.length]? = some (group.branch next).entry := by
  obtain ⟨source, own⟩ := grouped.mem_group inside member
  have members : group.members = cohort rules m.2 (path.length + 1) := by
    rw [grouped.members group inside, cohort_succ, ← (here.company m source).2, own]
  refine ⟨members, ?_⟩
  obtain ⟨first, field, head, there, index⟩ := grouped.first group inside
  have found := find?_of_head_cohort (members ▸ head)
  have lent : lentIndex rules m.2 path.length = group.parse.entryIndex := by
    simp [lentIndex, found, there, index]
  rw [Rule.getElem?_lent, lent, entry_branch]
  simp only [entryClass, Option.map_eq_some_iff] at own
  obtain ⟨mine, placed, same⟩ := own
  rw [placed, ← same]
  rfl

theorem AtNode.step {rules : List Rule} {members : List (Nat × Rule)} {path : List FieldRule}
    (here : AtNode rules members path) {groups : List BranchGroup}
    (grouped : Grouped path.length members groups) {group : BranchGroup} (inside : group ∈ groups)
    (next : Nat) : AtNode rules group.members (path ++ [(group.branch next).entry]) := by
  constructor
  · intro m member
    refine ⟨(here.company m (grouped.mem_group inside member).1).1, ?_⟩
    simpa using (here.entry grouped inside next member).1
  · intro m member
    obtain ⟨source, own⟩ := grouped.mem_group inside member
    have entry := (here.entry grouped inside next member).2
    refine ⟨by simpa using length_of_entryClass own, ?_⟩
    rw [List.length_append, List.length_singleton, List.take_add_one, entry,
      ← (here.route m source).2]
    rfl

/-- A member with a further entry goes on along one of the branches. -/
theorem AtNode.branch_of_member {members : List (Nat × Rule)} {depth : Nat}
    {groups : List BranchGroup} (grouped : Grouped depth members groups) {m : Nat × Rule}
    (member : m ∈ members) (longer : depth < m.2.fields.length) :
    ∃ group ∈ sortGroups groups, m ∈ group.members := by
  have placed : entryClass m.2 depth = some ((m.2.fields[depth]).label, nextFieldAt m.2 depth) :=
    entryClass_of_field (List.getElem?_eq_getElem longer)
  obtain ⟨group, inside, same⟩ := grouped.covers m member _ placed
  refine ⟨group, mem_sortGroups.mpr inside, ?_⟩
  rw [grouped.members group inside, List.mem_filter]
  exact ⟨member, by simp [placed, same]⟩

/- Leaves. -/

theorem leafAt_some {rules : List (Nat × Rule)} {depth : Nat} {m : Nat × Rule}
    (leaf : leafAt rules depth = some m) :
    m ∈ rules ∧ m.2.fields.length = depth ∧
      ∀ m' ∈ rules, m'.2.fields.length = depth → m.1 ≤ m'.1 := by
  have member := List.argmin_mem leaf
  rw [List.mem_filter, decide_eq_true_eq] at member
  refine ⟨member.1, member.2, ?_⟩
  intro m' other long
  exact List.le_of_mem_argmin (List.mem_filter.mpr ⟨other, by simpa using long⟩) leaf

theorem leafAt_isSome {rules : List (Nat × Rule)} {depth : Nat} {m : Nat × Rule}
    (member : m ∈ rules) (ended : m.2.fields.length = depth) :
    ∃ first, leafAt rules depth = some first := by
  cases leaf : leafAt rules depth with
  | some first => exact ⟨first, rfl⟩
  | none =>
    rw [leafAt, List.argmin_eq_none, List.filter_eq_nil_iff] at leaf
    exact absurd (by simpa using ended) (leaf m member)

/-- Rules that agree up to where one of them ends, end there together. -/
theorem length_eq_of_agrees {a b : Rule} (some : a.fields ≠ [])
    (same : agrees a.fields.length a b) : b.fields.length = a.fields.length := by
  have positive : 0 < a.fields.length := List.length_pos_iff.mpr some
  have last := agrees_iff.mp same (a.fields.length - 1) (by omega)
  simp only [entryClass, nextFieldAt, Nat.sub_add_cancel positive] at last
  rw [List.getElem?_eq_getElem (show a.fields.length - 1 < a.fields.length by omega),
    List.getElem?_eq_none (Nat.le_refl _)] at last
  by_cases there : a.fields.length - 1 < b.fields.length
  · rw [List.getElem?_eq_getElem there] at last
    by_cases further : a.fields.length < b.fields.length
    · simp [List.getElem?_eq_getElem further] at last
    · omega
  · rw [List.getElem?_eq_none (show b.fields.length ≤ a.fields.length - 1 by omega)] at last
    simp at last

/-- Rules with the same entries up to their indices take the same branches throughout. -/
theorem agrees_of_labels {a b : Rule}
    (same : a.fields.map FieldRule.label = b.fields.map FieldRule.label) (depth : Nat) :
    agrees depth a b := by
  have label : ∀ k : Nat, (a.fields[k]?).map FieldRule.label = (b.fields[k]?).map FieldRule.label := by
    intro k
    rw [← List.getElem?_map, same, List.getElem?_map]
  have field : ∀ k : Nat, (a.fields[k]?).map FieldRule.field = (b.fields[k]?).map FieldRule.field := by
    intro k
    have here := congrArg (Option.map FieldRule.field) (label k)
    simpa [Option.map_map, Function.comp_def, FieldRule.label] using here
  refine agrees_iff.mpr fun k _ => ?_
  have here := congrArg
    (Option.map (fun own => (own, (a.fields[k + 1]?).map FieldRule.field))) (label k)
  simp only [Option.map_map, Function.comp_def] at here
  simp only [entryClass, nextFieldAt]
  rw [here, field]

theorem labels_of_agrees {a b : Rule} (same : agrees a.fields.length a b)
    (lengths : a.fields.length = b.fields.length) :
    a.fields.map FieldRule.label = b.fields.map FieldRule.label := by
  apply List.ext_getElem?
  intro k
  rw [List.getElem?_map, List.getElem?_map]
  by_cases below : k < a.fields.length
  · have here := congrArg (Option.map Prod.fst) (agrees_iff.mp same k below)
    simpa [entryClass, Option.map_map, Function.comp_def] using here
  · rw [List.getElem?_eq_none (by omega), List.getElem?_eq_none (by omega)]

end SchcCore
