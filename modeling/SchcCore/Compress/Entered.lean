import SchcCore.Compress.Traverse
import SchcCore.Tree.Layout

/- Which nodes a traversal enters, call by call. A node's branches are entered one after the
   other, and the subtrees they lead to follow one another in the vector. -/
namespace SchcCore
open Outcome Preorder

/-- What the recursive call of a branch enters, when the branch is taken. -/
def enteredTaken : Result (Option CompressionState) →
    (CompressionState → Option (List Nat)) → Option (List Nat)
  | .ok (some next), enter => enter next
  | _, _ => some []

/-- What the rest of a loop enters, when the loop goes on. -/
def enteredAfter : TraversalContext × Result Unit →
    (TraversalContext → Option (List Nat)) → Option (List Nat)
  | (_, .error _), _ => some []
  | (traversal, .ok ()), enter => enter traversal

/-- The nodes entered below `for branch in node.branches`: `visit` and `entered` are the
    recursive call and what it enters. -/
def enteredBranches (packet : List UInt8) (direction : Direction)
    (visit : Nat → CompressionState → TraversalContext → TraversalContext × Result Unit)
    (entered : Nat → CompressionState → TraversalContext → Option (List Nat))
    (state : CompressionState) : List Branch → TraversalContext → Option (List Nat)
  | [], _ => some []
  | branch :: branches, traversal => do
      let inside ← enteredTaken (advance packet direction branch.entry state)
        (fun next => entered branch.next next traversal)
      let later ← enteredAfter
        (Compressor.visitBranch packet direction visit state branch traversal)
        (fun traversal => enteredBranches packet direction visit entered state branches traversal)
      some (inside ++ later)

namespace Compressor

/-- The nodes that a call of `traverse` enters, in order; nothing when the bound on the nesting
    of calls cuts it off. -/
def entered (c : Compressor) (packet : List UInt8) (direction : Direction) :
    Nat → Nat → CompressionState → TraversalContext → Option (List Nat)
  | 0, _, _, _ => none
  | steps + 1, i, state, traversal =>
      match c.tree.nodes[i]? with
      | none => some [i]
      | some node =>
          match c.visitLeaf packet direction node state traversal with
          | .error _ => some [i]
          | .ok traversal => do
              let below ← enteredBranches packet direction (c.traverse packet direction steps)
                (c.entered packet direction steps) state node.branches traversal
              some (i :: below)

end Compressor

/- The traversal that writes its nodes down. -/

/-- How a call ended and the nodes it entered. -/
structure Traced where
  outcome : TraversalContext × Result Unit
  nodes : List Nat

/-- The recursive call of one branch. -/
def tracedCall (packet : List UInt8) (direction : Direction)
    (visit : Nat → CompressionState → TraversalContext → Traced)
    (state : CompressionState) (branch : Branch) (traversal : TraversalContext) : Traced :=
  match advance packet direction branch.entry state with
  | .error halt => ⟨(traversal, .error halt), []⟩
  | .ok none => ⟨(traversal, .ok ()), []⟩
  | .ok (some next) => visit branch.next next traversal

/-- `for branch in node.branches`, over calls that write down what they enter. -/
def tracedBranches (packet : List UInt8) (direction : Direction)
    (visit : Nat → CompressionState → TraversalContext → Traced)
    (state : CompressionState) : List Branch → TraversalContext → Traced
  | [], traversal => ⟨(traversal, .ok ()), []⟩
  | branch :: branches, traversal =>
      let called := tracedCall packet direction visit state branch traversal
      match Compressor.absorb called.outcome with
      | (traversal, .error halt) => ⟨(traversal, .error halt), called.nodes⟩
      | (traversal, .ok ()) =>
          let later := tracedBranches packet direction visit state branches traversal
          ⟨later.outcome, called.nodes ++ later.nodes⟩

/-- `traverse`, writing down each node as it is entered. -/
def Compressor.traced (c : Compressor) (packet : List UInt8) (direction : Direction) :
    Nat → Nat → CompressionState → TraversalContext → Traced
  | 0, _, _, traversal => ⟨(traversal, panicAt .stackOverflow), []⟩
  | steps + 1, nodeIndex, state, traversal =>
      match c.tree.nodes[nodeIndex]? with
      | none => ⟨(traversal, panicAt .index), [nodeIndex]⟩
      | some node =>
          match c.visitLeaf packet direction node state traversal with
          | .error halt => ⟨(traversal, .error halt), [nodeIndex]⟩
          | .ok traversal =>
              let below := tracedBranches packet direction (c.traced packet direction steps) state
                node.branches traversal
              ⟨below.outcome, nodeIndex :: below.nodes⟩

variable {packet : List UInt8} {direction : Direction}

section
variable {visit : Nat → CompressionState → TraversalContext → Traced}
  {entered : Nat → CompressionState → TraversalContext → Option (List Nat)}
  {state : CompressionState} {branch : Branch} {branches : List Branch} {traversal : TraversalContext}
  {trace : List Nat}

theorem absorb_tracedCall :
    Compressor.absorb (tracedCall packet direction visit state branch traversal).outcome =
      Compressor.visitBranch packet direction (fun i next before => (visit i next before).outcome)
        state branch traversal := by
  unfold tracedCall Compressor.visitBranch
  cases advance packet direction branch.entry state with
  | error halt => rfl
  | ok moved => cases moved <;> rfl

theorem tracedCall_nodes
    (each : ∀ i next before trace, entered i next before = some trace →
      (visit i next before).nodes = trace)
    (ran : enteredTaken (advance packet direction branch.entry state)
      (fun next => entered branch.next next traversal) = some trace) :
    (tracedCall packet direction visit state branch traversal).nodes = trace := by
  unfold tracedCall
  split <;> rename_i taken <;> rw [taken] at ran
  · cases ran
    rfl
  · cases ran
    rfl
  · exact each _ _ _ _ ran

theorem tracedBranches_outcome :
    (tracedBranches packet direction visit state branches traversal).outcome =
      Compressor.traverseBranches packet direction
        (fun i next before => (visit i next before).outcome) state branches traversal := by
  induction branches generalizing traversal with
  | nil => rfl
  | cons branch branches ih =>
    rw [tracedBranches, Compressor.traverseBranches_cons]
    dsimp only
    rw [absorb_tracedCall]
    obtain ⟨after, ended⟩ := Compressor.visitBranch packet direction
      (fun i next before => (visit i next before).outcome) state branch traversal
    cases ended with
    | error halt => rfl
    | ok done => exact ih

theorem tracedBranches_nodes
    (each : ∀ i next before trace, entered i next before = some trace →
      (visit i next before).nodes = trace)
    (ran : enteredBranches packet direction (fun i next before => (visit i next before).outcome)
      entered state branches traversal = some trace) :
    (tracedBranches packet direction visit state branches traversal).nodes = trace := by
  induction branches generalizing traversal trace with
  | nil =>
    cases ran
    rfl
  | cons branch branches ih =>
    rw [enteredBranches, Option.bind_eq_bind, Option.bind_eq_some_iff] at ran
    obtain ⟨inside, taken, ran⟩ := ran
    rw [Option.bind_eq_some_iff] at ran
    obtain ⟨later, after, joined⟩ := ran
    cases joined
    rw [tracedBranches]
    dsimp only
    rw [absorb_tracedCall, tracedCall_nodes each taken]
    generalize Compressor.visitBranch packet direction
      (fun i next before => (visit i next before).outcome) state branch traversal = visited at after ⊢
    obtain ⟨reached, ended⟩ := visited
    cases ended with
    | error halt =>
      cases after
      exact (List.append_nil inside).symm
    | ok done => exact congrArg (inside ++ ·) (ih after)

end

theorem Compressor.traced_outcome (c : Compressor) (steps i : Nat) (state : CompressionState)
    (traversal : TraversalContext) :
    (c.traced packet direction steps i state traversal).outcome =
      c.traverse packet direction steps i state traversal := by
  induction steps generalizing i state traversal with
  | zero => rfl
  | succ steps ih =>
    rw [traced, traverse]
    cases c.tree.nodes[i]? with
    | none => rfl
    | some node =>
      dsimp only
      cases c.visitLeaf packet direction node state traversal with
      | error halt => rfl
      | ok after =>
        dsimp only
        rw [tracedBranches_outcome]
        simp only [ih]

/-- The nodes that `entered` lists are those that the traversal writes down. -/
theorem Compressor.traced_nodes {c : Compressor} {steps i : Nat} {state : CompressionState}
    {traversal : TraversalContext} {trace : List Nat}
    (ran : c.entered packet direction steps i state traversal = some trace) :
    (c.traced packet direction steps i state traversal).nodes = trace := by
  induction steps generalizing i state traversal trace with
  | zero => cases ran
  | succ steps ih =>
    rw [entered] at ran
    rw [traced]
    cases there : c.tree.nodes[i]? with
    | none =>
      rw [there] at ran
      exact Option.some.inj ran
    | some node =>
      rw [there] at ran
      dsimp only at ran ⊢
      cases visited : c.visitLeaf packet direction node state traversal with
      | error halt =>
        rw [visited] at ran
        exact Option.some.inj ran
      | ok after =>
        rw [visited] at ran
        simp only [Option.bind_eq_bind, Option.bind_eq_some_iff] at ran
        obtain ⟨below, listed, joined⟩ := ran
        cases joined
        have plain : c.traverse packet direction steps = fun i next before =>
            (c.traced packet direction steps i next before).outcome := by
          funext i next before
          exact (c.traced_outcome steps i next before).symm
        rw [plain] at listed
        exact congrArg (i :: ·) (tracedBranches_nodes (fun _ _ _ _ => ih) listed)

/-- The nodes entered below a row of branches lie in order in the subtrees of the row. -/
theorem enteredBranches_sublist
    {visit : Nat → CompressionState → TraversalContext → TraversalContext × Result Unit}
    {entered : Nat → CompressionState → TraversalContext → Option (List Nat)}
    {spans : Nat → Nat → Prop} (forward : ∀ a b, spans a b → a < b) {start stop : Nat}
    {branches : List Branch}
    (row : Consecutive spans start (branches.map Branch.next) stop)
    (each : ∀ a b, start ≤ a → b ≤ stop → spans a b → ∀ state traversal, ∃ trace,
      entered a state traversal = some trace ∧ trace.Sublist (List.range' a (b - a)))
    (state : CompressionState) (traversal : TraversalContext) :
    ∃ trace, enteredBranches packet direction visit entered state branches traversal = some trace ∧
      trace.Sublist (List.range' start (stop - start)) := by
  induction branches generalizing start traversal with
  | nil => exact ⟨[], rfl, List.nil_sublist _⟩
  | cons branch branches ih =>
    obtain ⟨here, middle, spanned, rest⟩ := row
    have first := forward start middle spanned
    have room := rest.le forward
    have inside : ∃ trace, enteredTaken (advance packet direction branch.entry state)
        (fun next => entered branch.next next traversal) = some trace ∧
        trace.Sublist (List.range' start (middle - start)) := by
      unfold enteredTaken
      split
      · rename_i next _
        rw [here]
        exact each start middle (Nat.le_refl _) room spanned next traversal
      · exact ⟨[], rfl, List.nil_sublist _⟩
    have later : ∃ trace, enteredAfter
        (Compressor.visitBranch packet direction visit state branch traversal)
        (fun traversal => enteredBranches packet direction visit entered state branches traversal) =
          some trace ∧
        trace.Sublist (List.range' middle (stop - middle)) := by
      unfold enteredAfter
      split
      · exact ⟨[], rfl, List.nil_sublist _⟩
      · rename_i after _
        exact ih rest (fun a b behind => each a b (by omega)) after
    obtain ⟨front, entered₁, sub₁⟩ := inside
    obtain ⟨back, entered₂, sub₂⟩ := later
    refine ⟨front ++ back, ?_, ?_⟩
    · rw [enteredBranches, entered₁, Option.bind_eq_bind, Option.bind_some, entered₂]
      rfl
    · rw [range'_split first.le room]
      exact sub₁.append sub₂

namespace Compressor
variable {c : Compressor}

/-- A call enters nodes of its subtree only, in the order of the vector. -/
theorem entered_sublist {height i stop steps : Nat}
    (spans : Spans Node.targets c.tree.nodes height i stop) (enough : stop - i ≤ steps)
    (state : CompressionState) (traversal : TraversalContext) :
    ∃ trace, c.entered packet direction steps i state traversal = some trace ∧
      trace.Sublist (List.range' i (stop - i)) := by
  induction steps generalizing height i stop state traversal with
  | zero =>
    have room := spans.lt
    omega
  | succ steps ih =>
    have room := spans.lt
    have width : stop - i = stop - (i + 1) + 1 := by omega
    cases height with
    | zero => exact absurd spans id
    | succ height =>
      obtain ⟨node, there, row⟩ := spans
      rw [entered, there, width, List.range'_succ]
      dsimp only
      split
      · exact ⟨[i], rfl, (List.nil_sublist _).cons_cons i⟩
      · rename_i after _
        have each : ∀ a b, i + 1 ≤ a → b ≤ stop → Spans Node.targets c.tree.nodes height a b →
            ∀ state traversal, ∃ trace,
              c.entered packet direction steps a state traversal = some trace ∧
                trace.Sublist (List.range' a (b - a)) := by
          intro a b behind before spanned state traversal
          exact ih spanned (by omega) state traversal
        obtain ⟨trace, below, sub⟩ :=
          enteredBranches_sublist (fun a b => Spans.lt) row each state after
        rw [below]
        exact ⟨i :: trace, rfl, sub.cons_cons i⟩

/-- Once there are as many steps as the subtree has nodes, their number plays no part. -/
theorem traverse_steps {height i stop steps steps' : Nat}
    (spans : Spans Node.targets c.tree.nodes height i stop) (enough : stop - i ≤ steps)
    (enough' : stop - i ≤ steps') (state : CompressionState) (traversal : TraversalContext) :
    c.traverse packet direction steps i state traversal =
      c.traverse packet direction steps' i state traversal := by
  induction height generalizing i stop steps steps' state traversal with
  | zero => exact absurd spans id
  | succ height ih =>
    have room := spans.lt
    obtain ⟨node, there, row⟩ := spans
    obtain ⟨steps, rfl⟩ := Nat.exists_eq_add_one_of_ne_zero (show steps ≠ 0 by omega)
    obtain ⟨steps', rfl⟩ := Nat.exists_eq_add_one_of_ne_zero (show steps' ≠ 0 by omega)
    have below : ∀ branch ∈ node.branches, c.traverse packet direction steps branch.next =
        c.traverse packet direction steps' branch.next := by
      intro branch member
      obtain ⟨middle, spanned, after, fits⟩ := row.spans_of_mem (fun a b => Spans.lt)
        (List.mem_map_of_mem member)
      funext state traversal
      exact ih spanned (by omega) (by omega) state traversal
    rw [traverse, traverse, there]
    dsimp only
    split
    · rfl
    · exact traverseBranches_congr
        (fun branch member next _ => congrFun (below branch member) next) _

end Compressor

/-- The tree of a rule set is well founded and has every rule once: branches lead forward, one
    to every node but the root, and each rule has one path. So a traversal ends, at the latest
    after as many nested calls as there are nodes, and enters a node at most once. -/
theorem tree_well_founded (ruleSet : RuleSet) :
    ∃ tree : DecisionTree, DecisionTree.build ruleSet = .ok tree ∧
      (∀ (i : Nat) (node : Node), tree.nodes[i]? = some node → ∀ branch ∈ node.branches,
        i < branch.next ∧ branch.next < tree.nodes.length) ∧
      (∀ j, tree.targets.count j = if 0 < j ∧ j < tree.nodes.length then 1 else 0) ∧
      (∀ rule ∈ ruleSet.rules, ∃! path, tree.Represents path rule) ∧
      (∀ (context : RuleContext) (packet : List UInt8) (direction : Direction) (steps : Nat)
        (state : CompressionState) (traversal : TraversalContext), tree.nodes.length ≤ steps →
          Compressor.traverse ⟨context, tree⟩ packet direction steps 0 state traversal =
              Compressor.traverse ⟨context, tree⟩ packet direction tree.nodes.length 0 state
                traversal ∧
            ∃ trace, Compressor.entered ⟨context, tree⟩ packet direction steps 0 state traversal =
                some trace ∧
              trace.Nodup ∧ ∀ i ∈ trace, i < tree.nodes.length) := by
  obtain ⟨tree, built, -⟩ := build_total ruleSet
  have spans := build_spans built
  refine ⟨tree, built, ?_, ?_, ?_, ?_⟩
  · intro i node there branch member
    have inside := (List.getElem?_eq_some_iff.mp there).1
    exact spans.child (Nat.zero_le i) inside there (List.mem_map_of_mem member)
  · exact spans.count_child
  · intro rule member
    exact represents_once built member
  · intro context packet direction steps state traversal enough
    have once : ∃ trace, Compressor.entered ⟨context, tree⟩ packet direction steps 0 state
        traversal = some trace ∧ trace.Sublist (List.range' 0 (tree.nodes.length - 0)) :=
      Compressor.entered_sublist spans (by omega) state traversal
    obtain ⟨trace, ran, sub⟩ := once
    refine ⟨Compressor.traverse_steps spans (by omega) (Nat.le_refl _) state traversal, trace, ran,
      sub.nodup List.nodup_range', ?_⟩
    intro i member
    have range := List.mem_range'_1.mp (sub.subset member)
    omega

end SchcCore
