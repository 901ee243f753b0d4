import SchcCore.Compress.Selection

/- What compression reports when no rule carries the packet. A traversal notes the natures that it
   cannot process and the errors of the branches it gives up, and no more than that. -/
namespace SchcCore
open Outcome FieldStore Least

namespace Compressor
variable {c : Compressor} {packet : List UInt8} {direction : Direction}

/- What a traversal notes. -/

inductive Note where
  | nature (nature : RuleNature)
  | error (error : SchcError)

def Noted (traversal : TraversalContext) : Note → Prop
  | .nature nature => nature ∈ traversal.natureErrors
  | .error error => error ∈ traversal.branchErrors

/-- The natures that the rule kept at a node adds. -/
def unsupportedAt (c : Compressor) (node : Node) : List RuleNature :=
  match node.ruleId, node.ruleOrder with
  | some _, some ruleOrder => leafNatureErrors c.context.rules.rules[ruleOrder]?
  | _, _ => []

/-- Taking a branch fails, or the leaf that it leads to does. -/
def BranchFails (c : Compressor) (packet : List UInt8) (direction : Direction) (branch : Branch)
    (state : CompressionState) (error : SchcError) : Prop :=
  error ≠ .noMatchingRule ∧
    (advance packet direction branch.entry state = fail error ∨
      ∃ next child, advance packet direction branch.entry state = .ok (some next) ∧
        c.tree.nodes[branch.next]? = some child ∧ c.leafOf packet direction child next = fail error)

def NotesAt (c : Compressor) (packet : List UInt8) (direction : Direction) (node : Node)
    (state : CompressionState) : Note → Prop
  | .nature nature => nature ∈ c.unsupportedAt node
  | .error error => ∃ branch ∈ node.branches, c.BranchFails packet direction branch state error

/-- Some node visited from node `i` in `state` adds the note. -/
def Notes (c : Compressor) (packet : List UInt8) (direction : Direction) (i : Nat)
    (state : CompressionState) (note : Note) : Prop :=
  ∃ path j last node candidate, c.Visits packet direction i state path j last ∧
    c.tree.nodes[j]? = some node ∧ c.leafOf packet direction node last = .ok candidate ∧
    c.NotesAt packet direction node last note

/-- What a branch adds: its own failure, or what is noted where it leads. -/
def BranchNotes (c : Compressor) (packet : List UInt8) (direction : Direction) (branch : Branch)
    (state : CompressionState) (note : Note) : Prop :=
  (∃ error, note = .error error ∧ c.BranchFails packet direction branch state error) ∨
    ∃ next, advance packet direction branch.entry state = .ok (some next) ∧
      c.Notes packet direction branch.next next note

theorem notes_iff {i : Nat} {node : Node} (there : c.tree.nodes[i]? = some node)
    {state : CompressionState} {candidate : Option Candidate}
    (offer : c.leafOf packet direction node state = .ok candidate) (note : Note) :
    c.Notes packet direction i state note ↔
      (∃ nature, note = .nature nature ∧ nature ∈ c.unsupportedAt node) ∨
        ∃ branch ∈ node.branches, c.BranchNotes packet direction branch state note := by
  constructor
  · rintro ⟨path, j, last, leaf, own, visits, placed, offered, noted⟩
    cases visits with
    | here =>
      rw [there] at placed
      cases placed
      cases note with
      | nature nature => exact .inl ⟨nature, rfl, noted⟩
      | error error =>
        obtain ⟨branch, member, fails⟩ := noted
        exact .inr ⟨branch, member, .inl ⟨error, rfl, fails⟩⟩
    | @step _ _ _ _ branch next path _ _ there' _ member advanced rest =>
      rw [there] at there'
      cases there'
      exact .inr ⟨branch, member, .inr ⟨next, advanced, path, j, last, leaf, own, rest, placed,
        offered, noted⟩⟩
  · rintro (⟨nature, rfl, noted⟩ | ⟨branch, member, ⟨error, rfl, fails⟩ | ⟨next, advanced, path, j,
      last, leaf, own, visits, placed, offered, noted⟩⟩)
    · exact ⟨[], i, state, node, candidate, .here, there, offer, noted⟩
    · exact ⟨[], i, state, node, candidate, .here, there, offer, branch, member, fails⟩
    · exact ⟨_, j, last, leaf, own, .step there offer member advanced visits, placed, offered,
        noted⟩

/-- Nothing is noted from a node whose leaf fails. -/
theorem not_notes {i : Nat} {node : Node} (there : c.tree.nodes[i]? = some node)
    {state : CompressionState} {halt : Halt SchcError PanicSite}
    (failed : c.leafOf packet direction node state = .error halt) (note : Note) :
    ¬ c.Notes packet direction i state note := by
  rintro ⟨path, j, last, leaf, own, visits, placed, offered, -⟩
  cases visits with
  | here =>
    rw [there] at placed
    cases placed
    rw [failed] at offered
    cases offered
  | step there' offered =>
    rw [there] at there'
    cases there'
    rw [failed] at offered
    cases offered

/- One call. -/

theorem visitLeaf_notes {node : Node} {state : CompressionState} (before : TraversalContext)
    {candidate : Option Candidate}
    (offer : c.leafOf packet direction node state = .ok candidate) :
    ∃ after, c.visitLeaf packet direction node state before = .ok after ∧
      after.branchErrors = before.branchErrors ∧
      after.natureErrors = before.natureErrors ++ c.unsupportedAt node := by
  obtain ⟨ruleId, ruleOrder, branches⟩ := node
  cases ruleId with
  | none => exact ⟨before, rfl, rfl, by simp [unsupportedAt]⟩
  | some ruleId =>
    cases ruleOrder with
    | none => exact ⟨before, rfl, rfl, by simp [unsupportedAt]⟩
    | some ruleOrder =>
      dsimp only [leafOf, visitLeaf, unsupportedAt] at offer ⊢
      rw [offer]
      exact ⟨_, rfl, rfl, rfl⟩

theorem noted_absorb_error (before : TraversalContext) (error : SchcError) (note : Note) :
    Noted (absorb (before, fail error)).1 note ↔
      Noted before note ∨ note = .error error ∧ error ≠ .noMatchingRule := by
  have recorded : (absorb (before, fail error)).1 = before.recordBranchError error := rfl
  rw [recorded, TraversalContext.recordBranchError]
  by_cases silent : error = .noMatchingRule
  · simp [silent]
  · cases note with
    | nature nature => simp [Noted, silent]
    | error other => simp [Noted, silent]

/-- How a call of `traverse` from a node in a state ends and what it notes. -/
structure Reports (c : Compressor) (packet : List UInt8) (direction : Direction) (i : Nat)
    (state : CompressionState) (before : TraversalContext)
    (outcome : TraversalContext × Result Unit) : Prop where
  notes : ∀ note, Noted outcome.1 note ↔ Noted before note ∨ c.Notes packet direction i state note
  failed : ∀ node halt, c.tree.nodes[i]? = some node →
    c.leafOf packet direction node state = .error halt → outcome.2 = .error halt
  returned : ∀ node candidate, c.tree.nodes[i]? = some node →
    c.leafOf packet direction node state = .ok candidate → outcome.2 = .ok ()

theorem visitBranch_notes {branch : Branch} (typed : branch.Typed) {state : CompressionState}
    (flat : FieldStore.Flat state.fields) {before : TraversalContext}
    {visit : Nat → CompressionState → TraversalContext → TraversalContext × Result Unit}
    (leads : ∃ child, c.tree.nodes[branch.next]? = some child ∧ ∀ next : CompressionState,
      FieldStore.Flat next.fields → Sound (c.leafOf packet direction child next) ∧
        Reports c packet direction branch.next next before (visit branch.next next before))
    (note : Note) :
    Noted (visitBranch packet direction visit state branch before).1 note ↔
      Noted before note ∨ c.BranchNotes packet direction branch state note := by
  obtain ⟨child, there, reports⟩ := leads
  have sound : Sound (advance packet direction branch.entry state) := by
    rw [advance_entry]
    exact within_ite (fun _ => within_ok _) fun _ => sound_traverseBranch typed state
  cases taken : advance packet direction branch.entry state with
  | error halt =>
    rw [taken] at sound
    obtain ⟨error, rfl, -⟩ := sound halt rfl
    have outcome : visitBranch packet direction visit state branch before =
        absorb (before, fail error) := by
      rw [visitBranch, taken]
      rfl
    rw [outcome, noted_absorb_error]
    simp [BranchNotes, BranchFails, taken, fail, and_comm]
  | ok passed =>
    cases passed with
    | none =>
      have outcome : visitBranch packet direction visit state branch before = (before, .ok ()) := by
        rw [visitBranch, taken]
        rfl
      rw [outcome]
      simp [BranchNotes, BranchFails, taken, fail]
    | some next =>
      have outcome : visitBranch packet direction visit state branch before =
          absorb (visit branch.next next before) := by
        rw [visitBranch, taken]
      obtain ⟨sound', report⟩ := reports next (flat_of_advance flat taken)
      have own : c.BranchNotes packet direction branch state note ↔
          (∃ error, note = .error error ∧ error ≠ .noMatchingRule ∧
            c.leafOf packet direction child next = fail error) ∨
          c.Notes packet direction branch.next next note := by
        simp [BranchNotes, BranchFails, taken, fail, there]
      rw [outcome, own]
      cases offer : c.leafOf packet direction child next with
      | error halt =>
        rw [offer] at sound'
        obtain ⟨error, rfl, -⟩ := sound' halt rfl
        have nothing := not_notes there offer note
        have ended : visit branch.next next before =
            ((visit branch.next next before).1, fail error) :=
          Prod.ext rfl (report.failed child _ there offer)
        rw [ended, noted_absorb_error, report.notes note]
        simp [nothing, fail, and_comm]
      | ok candidate =>
        have ended : visit branch.next next before = ((visit branch.next next before).1, .ok ()) :=
          Prod.ext rfl (report.returned child _ there offer)
        rw [ended]
        simpa [absorb, fail] using report.notes note

/-- A loop notes what its branches do. -/
theorem traverseBranches_notes {state : CompressionState}
    {visit : Nat → CompressionState → TraversalContext → TraversalContext × Result Unit}
    {branches : List Branch}
    (absorbs : ∀ branch ∈ branches, Absorbs packet direction visit state branch)
    (each : ∀ branch ∈ branches, ∀ before, Clean before → ∀ note,
      Noted (visitBranch packet direction visit state branch before).1 note ↔
        Noted before note ∨ c.BranchNotes packet direction branch state note)
    {before : TraversalContext} (clean : Clean before) (note : Note) :
    Noted (traverseBranches packet direction visit state branches before).1 note ↔
      Noted before note ∨ ∃ branch ∈ branches, c.BranchNotes packet direction branch state note := by
  induction branches generalizing before with
  | nil => simp [traverseBranches]
  | cons first rest later =>
    obtain ⟨kept, absorbed⟩ := absorbs first List.mem_cons_self before clean
    rw [traverseBranches_step absorbed,
      later (fun branch member => absorbs branch (List.mem_cons_of_mem _ member))
        (fun branch member => each branch (List.mem_cons_of_mem _ member)) kept,
      each first List.mem_cons_self before clean note, List.exists_mem_cons_iff, or_assoc]

/-- From a node of the tree a traversal notes what the nodes visited from there do. -/
theorem traverse_reports (valid : ∀ rule ∈ c.context.rules.rules, rule.Valid)
    {steps height depth i : Nat} {members : List (Nat × Rule)} {state : CompressionState}
    {before : TraversalContext} (built : Built c.tree.nodes height depth i members)
    (listed : ∀ m ∈ members, m.2 ∈ c.context.rules.rules)
    (enough : c.tree.nodes.length < i + steps) (flat : FieldStore.Flat state.fields)
    (clean : Clean before) :
    Reports c packet direction i state before
      (c.traverse packet direction steps i state before) := by
  induction steps generalizing height depth i members state before with
  | zero =>
    cases height with
    | zero => exact absurd built id
    | succ height =>
      obtain ⟨branches, groups, there, -, -⟩ := built
      have inside := (List.getElem?_eq_some_iff.mp there).1
      omega
  | succ steps ih =>
    cases height with
    | zero => exact absurd built id
    | succ height =>
      obtain ⟨branches, groups, there, grouped, linked⟩ := built
      have fit : ∀ rule ∈ c.context.rules.rules, rule.id.Fits :=
        fun rule member => (valid rule member).id
      cases offer : c.leafOf packet direction (leafNode members depth branches) state with
      | error halt =>
        have stops : c.traverse packet direction (steps + 1) i state before =
            (before, .error halt) := by
          rw [traverse]
          simp only [there]
          rw [visitLeaf_error offer]
        rw [stops]
        constructor
        · intro note
          simp [not_notes there offer note]
        · intro node halt' there' failed
          rw [there] at there'
          cases there'
          rw [offer] at failed
          cases failed
          rfl
        · intro node candidate there' offered
          rw [there] at there'
          cases there'
          rw [offer] at offered
          cases offered
      | ok candidate =>
        obtain ⟨after, visited, errors, natures⟩ := visitLeaf_notes before offer
        have goes : c.traverse packet direction (steps + 1) i state before =
            traverseBranches packet direction (c.traverse packet direction steps) state branches
              after := by
          rw [traverse]
          simp only [there, visited]
          rfl
        have clean' : Clean after := by
          intro e member
          rw [errors] at member
          exact clean e member
        have absorbs : ∀ branch ∈ branches, Absorbs packet direction
            (c.traverse packet direction steps) state branch := by
          intro branch member before clean
          obtain ⟨typed, further, below, built, inside⟩ :=
            below_branch grouped linked valid listed member
          exact visitBranch_finishes typed flat clean fun next flat =>
            traverse_finishes valid built inside (by omega) flat clean
        have each : ∀ branch ∈ branches, ∀ before, Clean before → ∀ note,
            Noted (visitBranch packet direction (c.traverse packet direction steps) state branch
              before).1 note ↔
              Noted before note ∨ c.BranchNotes packet direction branch state note := by
          intro branch member before clean note
          obtain ⟨typed, further, below, built, inside⟩ :=
            below_branch grouped linked valid listed member
          refine visitBranch_notes typed flat ?_ note
          cases height with
          | zero => exact absurd built id
          | succ height =>
            have built' := built
            obtain ⟨branches', groups', there', -, -⟩ := built'
            refine ⟨_, there', fun next flat => ⟨sound_leafOf fit inside branches' flat, ?_⟩⟩
            exact ih built inside (by omega) flat clean
        rw [goes]
        constructor
        · intro note
          rw [traverseBranches_notes absorbs each clean' note, notes_iff there offer note]
          have here : Noted after note ↔ Noted before note ∨
              ∃ nature, note = .nature nature ∧
                nature ∈ c.unsupportedAt (leafNode members depth branches) := by
            cases note with
            | nature nature => simp [Noted, natures]
            | error error => simp [Noted, errors]
          rw [here, or_assoc]
          rfl
        · intro node halt there' failed
          rw [there] at there'
          cases there'
          rw [offer] at failed
          cases failed
        · intro node candidate' there' offered
          exact (traverseBranches_finishes absorbs clean').2


/- Where the runs of rules lead. -/

theorem runEntries_append {a b : List FieldRule} {state last : CompressionState}
    (ran : runEntries packet direction a state = .ok (some last)) :
    runEntries packet direction (a ++ b) state = runEntries packet direction b last := by
  induction a generalizing state with
  | nil =>
    cases ran
    rfl
  | cons entry a ih =>
    obtain ⟨next, advanced, rest⟩ := runEntries_cons.mp ran
    rw [List.cons_append, runEntries, advanced, ok_bind]
    exact ih rest

theorem runEntries_append_iff {a b : List FieldRule} {state last : CompressionState} :
    runEntries packet direction (a ++ b) state = .ok (some last) ↔
      ∃ middle, runEntries packet direction a state = .ok (some middle) ∧
        runEntries packet direction b middle = .ok (some last) := by
  induction a generalizing state with
  | nil => simp [runEntries]
  | cons entry a ih =>
    simp only [List.cons_append, runEntries_cons, ih]
    constructor
    · rintro ⟨next, advanced, middle, ran, rest⟩
      exact ⟨middle, ⟨next, advanced, ran⟩, rest⟩
    · rintro ⟨middle, ⟨next, advanced, ran⟩, rest⟩
      exact ⟨next, advanced, middle, ran, rest⟩

/-- A run that fails does so at one of its entries. -/
theorem runEntries_fail {entries : List FieldRule} {state : CompressionState} {error : SchcError}
    (failed : runEntries packet direction entries state = fail error) :
    ∃ before entry after last, entries = before ++ entry :: after ∧
      runEntries packet direction before state = .ok (some last) ∧
      advance packet direction entry last = fail error := by
  induction entries generalizing state with
  | nil => cases failed
  | cons entry entries ih =>
    rw [runEntries] at failed
    cases advanced : advance packet direction entry state with
    | error halt =>
      rw [advanced, error_bind] at failed
      exact ⟨[], entry, entries, state, rfl, rfl, advanced.trans failed⟩
    | ok passed =>
      rw [advanced, ok_bind] at failed
      cases passed with
      | none => cases failed
      | some next =>
        obtain ⟨before, here, after, last, split, ran, stuck⟩ := ih failed
        exact ⟨entry :: before, here, after, last, by rw [split]; rfl,
          runEntries_cons.mpr ⟨next, advanced, ran⟩, stuck⟩

theorem Visits.snoc {i j : Nat} {state last next : CompressionState} {path : List FieldRule}
    {node : Node} {candidate : Option Candidate} {branch : Branch}
    (visits : c.Visits packet direction i state path j last) (there : c.tree.nodes[j]? = some node)
    (offer : c.leafOf packet direction node last = .ok candidate) (member : branch ∈ node.branches)
    (advanced : advance packet direction branch.entry last = .ok (some next)) :
    c.Visits packet direction i state (path ++ [branch.entry]) branch.next next := by
  induction visits with
  | here => exact .step there offer member advanced .here
  | step first offered inside passed _ ih => exact .step first offered inside passed (ih there offer advanced)

/-- A node where a rule goes on has a branch with the rule's next entry. -/
theorem branch_of_rule {height j : Nat} {members : List (Nat × Rule)} {done : List FieldRule}
    (built : Built c.tree.nodes height done.length j members)
    (here : AtNode c.context.rules.rules members done) {m : Nat × Rule} (member : m ∈ members)
    (longer : done.length < m.2.fields.length) :
    ∃ branches branch height' below,
      c.tree.nodes[j]? = some (leafNode members done.length branches) ∧ branch ∈ branches ∧
      (m.2.lent c.context.rules.rules)[done.length]? = some branch.entry ∧
      Built c.tree.nodes height' (done ++ [branch.entry]).length branch.next below ∧
      AtNode c.context.rules.rules below (done ++ [branch.entry]) ∧ m ∈ below := by
  cases height with
  | zero => exact absurd built id
  | succ height =>
    obtain ⟨branches, groups, there, grouped, linked⟩ := built
    obtain ⟨group, inside, chosen⟩ := AtNode.branch_of_member grouped member longer
    obtain ⟨branch, taken, same, -, below⟩ := partner_left linked inside
    have entry : branch.entry = (group.branch branch.next).entry := congrArg Branch.entry same
    have mine := (here.entry grouped (mem_sortGroups.mp inside) branch.next chosen).2
    have step := here.step grouped (mem_sortGroups.mp inside) branch.next
    rw [← entry] at mine step
    exact ⟨branches, branch, height, group.members, there, taken, mine, by simpa using below, step,
      chosen⟩

/-- As far as the entries of a rule run, the traversal arrives. -/
theorem visits_of_prefix (fit : ∀ rule ∈ c.context.rules.rules, rule.id.Fits) {height : Nat}
    (built : Built c.tree.nodes height 0 0 (orderedRules c.context.rules.rules)) {m : Nat × Rule}
    (member : m ∈ orderedRules c.context.rules.rules) {n : Nat} (inside : n ≤ m.2.fields.length)
    {last : CompressionState}
    (ran : runEntries packet direction ((m.2.lent c.context.rules.rules).take n) .initial =
      .ok (some last)) :
    ∃ j height' members, c.Visits packet direction 0 .initial
        ((m.2.lent c.context.rules.rules).take n) j last ∧
      Built c.tree.nodes height' ((m.2.lent c.context.rules.rules).take n).length j members ∧
      AtNode c.context.rules.rules members ((m.2.lent c.context.rules.rules).take n) ∧
      m ∈ members := by
  induction n generalizing last with
  | zero =>
    cases ran
    exact ⟨0, height, orderedRules c.context.rules.rules, .here, built, AtNode.root _, member⟩
  | succ n ih =>
    have bound : n < (m.2.lent c.context.rules.rules).length := by
      rw [Rule.length_lent]
      omega
    have split : (m.2.lent c.context.rules.rules).take (n + 1) =
        (m.2.lent c.context.rules.rules).take n ++ [(m.2.lent c.context.rules.rules)[n]] :=
      (List.take_append_getElem bound).symm
    have length : ((m.2.lent c.context.rules.rules).take n).length = n := by
      rw [List.length_take]
      omega
    rw [split, runEntries_append_iff] at ran
    obtain ⟨middle, before, step⟩ := ran
    obtain ⟨next, advanced, ended⟩ := runEntries_cons.mp step
    cases ended
    obtain ⟨j, height', members, visits, built', here, member'⟩ := ih (by omega) before
    obtain ⟨branches, branch, height'', below, there, taken, mine, built'', here', chosen⟩ :=
      branch_of_rule built' here member' (by omega)
    rw [length, List.getElem?_eq_getElem bound, Option.some.injEq] at mine
    obtain ⟨candidate, offer⟩ :=
      leafOf_inner packet direction fit here member' (by omega) branches middle
    rw [split, mine]
    rw [mine] at advanced
    exact ⟨branch.next, height'', below, visits.snoc there offer taken advanced, built'', here',
      chosen⟩

/-- Where a rule has run as far as one of its entries, a branch with that entry is visited. -/
theorem branch_of_run (fit : ∀ rule ∈ c.context.rules.rules, rule.id.Fits) {height : Nat}
    (built : Built c.tree.nodes height 0 0 (orderedRules c.context.rules.rules)) {m : Nat × Rule}
    (member : m ∈ orderedRules c.context.rules.rules) {before after : List FieldRule}
    {entry : FieldRule} (split : m.2.lent c.context.rules.rules = before ++ entry :: after)
    {last : CompressionState}
    (ran : runEntries packet direction before .initial = .ok (some last)) :
    ∃ j node candidate branch height' below, c.Visits packet direction 0 .initial before j last ∧
      c.tree.nodes[j]? = some node ∧ c.leafOf packet direction node last = .ok candidate ∧
      branch ∈ node.branches ∧ branch.entry = entry ∧
      Built c.tree.nodes height' (before ++ [entry]).length branch.next below ∧
      AtNode c.context.rules.rules below (before ++ [entry]) ∧ m ∈ below := by
  have start : (m.2.lent c.context.rules.rules).take before.length = before := by
    rw [split, List.take_left]
  have longer : before.length < m.2.fields.length := by
    rw [← Rule.length_lent c.context.rules.rules m.2, split, List.length_append, List.length_cons]
    omega
  obtain ⟨j, height', members, visits, built', here, member'⟩ :=
    visits_of_prefix fit built member (Nat.le_of_lt longer) (by rw [start]; exact ran)
  rw [start] at visits built' here
  obtain ⟨branches, branch, height'', below, there, taken, mine, built'', here', chosen⟩ :=
    branch_of_rule built' here member' longer
  have same : branch.entry = entry := by
    rw [split, List.getElem?_append_right (Nat.le_refl _), Nat.sub_self] at mine
    exact (Option.some.inj mine).symm
  obtain ⟨candidate, offer⟩ :=
    leafOf_inner packet direction fit here member' longer branches last
  rw [same] at built'' here'
  exact ⟨j, _, candidate, branch, height'', below, visits, there, offer, taken, same, built'', here',
    chosen⟩

/-- The leaf at the end of a rule that stands there is the rule's own. -/
theorem leafOf_stands {height j k : Nat} {rule : Rule} {members : List (Nat × Rule)}
    (stands : Stands c.context.rules.rules k rule)
    (built : Built c.tree.nodes height (rule.lent c.context.rules.rules).length j members)
    (here : AtNode c.context.rules.rules members (rule.lent c.context.rules.rules))
    (member : (k, rule) ∈ members) :
    ∃ node, c.tree.nodes[j]? = some node ∧ node.ruleId = some rule.id ∧ node.ruleOrder = some k := by
  cases height with
  | zero => exact absurd built id
  | succ height =>
    obtain ⟨branches, groups, there, -, -⟩ := built
    rw [Rule.length_lent] at there
    obtain ⟨kept, leaf⟩ := leafAt_isSome member rfl
    obtain ⟨inside, ended, least⟩ := leafAt_some leaf
    have placed := mem_orderedRules.mp (here.company kept inside).1
    have together : kept ∈ cohort c.context.rules.rules rule rule.fields.length := by
      have company := (here.company (k, rule) member).2
      rw [Rule.length_lent] at company
      exact company ▸ inside
    have same := labels_of_agrees (mem_cohort.mp together).2 ended.symm
    have order : kept.1 = k :=
      Nat.le_antisymm (least (k, rule) member rfl) (stands.first kept.1 kept.2 placed same.symm)
    have itself : kept.2 = rule := by
      rw [order, stands.placed] at placed
      exact (Option.some.inj placed).symm
    exact ⟨_, there, by simp [leafNode, leaf, itself], by simp [leafNode, leaf, order]⟩

/-- A rule that runs to its end and stands there is visited at its leaf. -/
theorem visits_of_stands (fit : ∀ rule ∈ c.context.rules.rules, rule.id.Fits) {height k : Nat}
    (built : Built c.tree.nodes height 0 0 (orderedRules c.context.rules.rules)) {rule : Rule}
    (stands : Stands c.context.rules.rules k rule) {last : CompressionState}
    (ran : runEntries packet direction (rule.lent c.context.rules.rules) .initial =
      .ok (some last)) :
    ∃ j node, c.Visits packet direction 0 .initial (rule.lent c.context.rules.rules) j last ∧
      c.tree.nodes[j]? = some node ∧ node.ruleId = some rule.id ∧ node.ruleOrder = some k := by
  have member : (k, rule) ∈ orderedRules c.context.rules.rules :=
    mem_orderedRules.mpr stands.placed
  have whole : (rule.lent c.context.rules.rules).take rule.fields.length =
      rule.lent c.context.rules.rules := List.take_of_length_le (by rw [Rule.length_lent])
  obtain ⟨j, height', members, visits, built', here, member'⟩ :=
    visits_of_prefix fit built member (Nat.le_refl _) (by rw [whole]; exact ran)
  rw [whole] at visits built' here
  obtain ⟨node, there, named, ordered⟩ := leafOf_stands stands built' here member'
  exact ⟨j, node, visits, there, named, ordered⟩

/- The notes of rules. -/

/-- A fragmentation rule of the context runs to its end, where it stands. -/
def Splits (c : Compressor) (packet : List UInt8) (direction : Direction) : Prop :=
  ∃ k rule state, Stands c.context.rules.rules k rule ∧ rule.nature = .fragmentation ∧
    runEntries packet direction (rule.lent c.context.rules.rules) .initial = .ok (some state)

/-- A rule of the context fails on the packet, at one of its entries or where it stands. -/
def RuleFails (c : Compressor) (packet : List UInt8) (direction : Direction) (error : SchcError) :
    Prop :=
  error ≠ .noMatchingRule ∧ ∃ k rule, c.context.rules.rules[k]? = some rule ∧
    (runEntries packet direction (rule.lent c.context.rules.rules) .initial = fail error ∨
      Stands c.context.rules.rules k rule ∧ ∃ state,
        runEntries packet direction (rule.lent c.context.rules.rules) .initial = .ok (some state) ∧
        leafCandidate packet direction (some rule) k rule.id state = fail error)

theorem leafNatureErrors_fragmentation {rule : Rule} {nature : RuleNature} :
    nature ∈ leafNatureErrors (some rule) ↔
      nature = .fragmentation ∧ rule.nature = .fragmentation := by
  cases own : rule.nature <;> simp [leafNatureErrors, own]

theorem notes_nature_iff (fit : ∀ rule ∈ c.context.rules.rules, rule.id.Fits) {height : Nat}
    (built : Built c.tree.nodes height 0 0 (orderedRules c.context.rules.rules))
    (nature : RuleNature) :
    c.Notes packet direction 0 .initial (.nature nature) ↔
      nature = .fragmentation ∧ c.Splits packet direction := by
  constructor
  · rintro ⟨path, j, last, node, candidate, visits, there, offer, noted⟩
    simp only [NotesAt, unsupportedAt] at noted
    split at noted
    · rename_i ruleId k named ordered
      obtain ⟨rule, stands, -, -, ran⟩ := visits.at_leaf built there ordered
      rw [stands.placed, leafNatureErrors_fragmentation] at noted
      exact ⟨noted.1, k, rule, last, stands, noted.2, ran⟩
    · cases noted
  · rintro ⟨rfl, k, rule, state, stands, nature, ran⟩
    obtain ⟨j, node, visits, there, named, ordered⟩ := visits_of_stands fit built stands ran
    refine ⟨_, j, state, node, none, visits, there, ?_, ?_⟩
    · simp [leafOf, named, ordered, stands.placed, leafCandidate, nature]
    · simp [NotesAt, unsupportedAt, named, ordered, stands.placed, leafNatureErrors_fragmentation,
        nature]

theorem notes_error_iff (fit : ∀ rule ∈ c.context.rules.rules, rule.id.Fits) {height : Nat}
    (built : Built c.tree.nodes height 0 0 (orderedRules c.context.rules.rules))
    (error : SchcError) :
    c.Notes packet direction 0 .initial (.error error) ↔ c.RuleFails packet direction error := by
  constructor
  · rintro ⟨path, j, last, node, candidate, visits, there, offer, branch, member, real, fails⟩
    refine ⟨real, ?_⟩
    rcases fails with stuck | ⟨next, child, advanced, there', failed⟩
    · obtain ⟨height', members, built', here, ran⟩ :=
        visits.at_node (show Built c.tree.nodes height [].length 0 _ from built) (AtNode.root _)
      cases height' with
      | zero => exact absurd built' id
      | succ height' =>
        obtain ⟨branches, groups, there', grouped, linked⟩ := built'
        rw [there'] at there
        cases there
        obtain ⟨group, inside, same, -, below⟩ := partner_right linked member
        obtain ⟨m, field, head, -, -⟩ := grouped.first group (mem_sortGroups.mp inside)
        have chosen := List.mem_of_mem_head? head
        have entry : branch.entry = (group.branch branch.next).entry := congrArg Branch.entry same
        have step := here.step grouped (mem_sortGroups.mp inside) branch.next
        rw [← entry, List.nil_append] at step
        obtain ⟨listed, -⟩ := step.company m chosen
        have route := (step.route m chosen).2
        refine ⟨m.1, m.2, mem_orderedRules.mp listed, .inl ?_⟩
        rw [← List.take_append_drop (path ++ [branch.entry]).length
          (m.2.lent c.context.rules.rules), ← route, List.append_assoc, runEntries_append ran,
          List.singleton_append, runEntries, stuck]
        rfl
    · have visits' := visits.snoc there offer member advanced
      have leaf := failed
      unfold leafOf at leaf
      split at leaf
      · rename_i ruleId k named ordered
        obtain ⟨rule, stands, same, -, ran⟩ := visits'.at_leaf built there' ordered
        rw [same] at named
        cases named
        rw [stands.placed] at leaf
        exact ⟨k, rule, stands.placed, .inr ⟨stands, next, ran, leaf⟩⟩
      · cases leaf
  · rintro ⟨real, k, rule, placed, stuck | ⟨stands, state, ran, failed⟩⟩
    · obtain ⟨before, entry, after, last, split, ran, stuck⟩ := runEntries_fail stuck
      obtain ⟨j, node, candidate, branch, -, -, visits, there, offer, taken, same, -, -, -⟩ :=
        branch_of_run fit built (mem_orderedRules.mpr placed : (k, rule) ∈ _) split ran
      rw [← same] at stuck
      exact ⟨before, j, last, node, candidate, visits, there, offer, branch, taken, real, .inl stuck⟩
    · -- the leaf is noted by the node before it, which every rule that can fail at its leaf has
      have filled : rule.lent c.context.rules.rules ≠ [] := by
        intro none
        have empty : rule.fields = [] := by
          rw [← List.length_eq_zero_iff, ← Rule.length_lent c.context.rules.rules rule, none]
          rfl
        obtain ⟨candidate, made⟩ := leafCandidate_empty (fit rule (List.mem_of_getElem? placed)) empty
          packet direction k state
        rw [made] at failed
        cases failed
      have split := (List.dropLast_append_getLast filled).symm
      generalize (rule.lent c.context.rules.rules).dropLast = before at split
      generalize (rule.lent c.context.rules.rules).getLast filled = entry at split
      rw [split, runEntries_append_iff] at ran
      obtain ⟨last, ran, step⟩ := ran
      obtain ⟨next, advanced, ended⟩ := runEntries_cons.mp step
      cases ended
      obtain ⟨j, node, candidate, branch, height', below, visits, there, offer, taken, same, built',
        here, member⟩ := branch_of_run fit built (mem_orderedRules.mpr placed : (k, rule) ∈ _) split ran
      rw [← split] at built' here
      obtain ⟨child, there', named, ordered⟩ := leafOf_stands stands built' here member
      have leaf : c.leafOf packet direction child state = fail error := by
        rw [← failed]
        simp [leafOf, named, ordered, stands.placed]
      rw [← same] at advanced
      exact ⟨before, j, last, node, candidate, visits, there, offer, branch, taken, real,
        .inr ⟨state, child, advanced, there', leaf⟩⟩

/- The verdict. -/

/-- What compression reports of a packet that no rule of the context carries: that it cannot
    fragment exactly when a fragmentation rule runs to its end where it stands, otherwise an error
    that a rule met, and no matching rule exactly when neither is there. -/
structure FailsAsDocumented (c : Compressor) (packet : List UInt8) (direction : Direction) :
    Prop where
  fragmentation : c.compress direction packet = fail (.unsupportedRuleNature "fragmentation") ↔
    c.Splits packet direction
  failed : ¬ c.Splits packet direction → (∃ error, c.RuleFails packet direction error) →
    ∃ error, c.RuleFails packet direction error ∧ c.compress direction packet = fail error
  unmatched : c.compress direction packet = fail .noMatchingRule ↔
    ¬ c.Splits packet direction ∧ ∀ error, ¬ c.RuleFails packet direction error

variable (packet direction) in
/-- The traversal that `compress` runs notes what the rules do. -/
theorem run_notes {ctx : RuleContext} (valid : ctx.Valid) (made : new ctx = .ok c) (note : Note) :
    Noted (c.traverse packet direction (c.tree.nodes.length + 1) 0 .initial ⟨[], [], []⟩).1 note ↔
      (note = .nature .fragmentation ∧ c.Splits packet direction) ∨
        ∃ error, note = .error error ∧ c.RuleFails packet direction error := by
  obtain ⟨same, built⟩ := new_built made
  subst same
  have fit : ∀ rule ∈ c.context.rules.rules, rule.id.Fits :=
    fun rule member => (valid.rules rule member).id
  have reports : Reports c packet direction 0 .initial ⟨[], [], []⟩
      (c.traverse packet direction (c.tree.nodes.length + 1) 0 .initial ⟨[], [], []⟩) := by
    refine traverse_reports valid.rules built ?_ (by omega) ?_ ?_
    · intro m member
      exact List.mem_of_getElem? (mem_orderedRules.mp member)
    · intro entry member
      cases member
    · intro e member
      cases member
  rw [reports.notes note]
  cases note with
  | nature nature =>
    rw [notes_nature_iff fit built]
    simp [Noted]
  | error error =>
    rw [notes_error_iff fit built]
    simp [Noted]

/-- No rule fails over its own or another rule's nature. -/
theorem RuleFails.known {ctx : RuleContext} (valid : ctx.Valid) (made : new ctx = .ok c)
    {error : SchcError} (fails : c.RuleFails packet direction error) : ¬ error.Foreign :=
  (run_finishes valid made packet direction).clean error
    ((run_notes packet direction valid made (.error error)).mpr (.inr ⟨error, rfl, fails⟩))

/-- Without candidates the verdict is read off the notes. -/
theorem fails_of_nothing {ctx : RuleContext} (valid : ctx.Valid) (made : new ctx = .ok c)
    {p : Ipv6Packet} (parsed : Ipv6Packet.parse packet = .ok p)
    (nothing : ∀ k datagram, ¬ c.Offered packet direction k datagram) :
    c.FailsAsDocumented packet direction := by
  have fit : ∀ rule ∈ c.context.rules.rules, rule.id.Fits := by
    rw [(new_built made).1]
    exact fun rule member => (valid.rules rule member).id
  obtain ⟨traversal, ended⟩ : ∃ traversal, c.traverse packet direction (c.tree.nodes.length + 1) 0
      .initial ⟨[], [], []⟩ = (traversal, .ok ()) :=
    ⟨_, Prod.ext rfl (run_returns valid made packet direction)⟩
  have empty : traversal.candidates = [] := by
    rw [List.eq_nil_iff_forall_not_mem]
    intro candidate member
    obtain ⟨k, rule, state, own⟩ := (mem_candidates_iff valid made candidate).mp
      (by rw [ended]; exact member)
    have order := own.order fit
    rw [order] at own
    exact nothing k candidate.datagram ⟨rule, state, own⟩
  have notes := run_notes packet direction valid made
  rw [ended] at notes
  have natures : ∀ nature, nature ∈ traversal.natureErrors ↔
      nature = .fragmentation ∧ c.Splits packet direction := by
    intro nature
    have own := notes (.nature nature)
    simpa [Noted] using own
  have errors : ∀ error, error ∈ traversal.branchErrors ↔ c.RuleFails packet direction error := by
    intro error
    have own := notes (.error error)
    simpa [Noted] using own
  have verdict : c.compress direction packet = selectDatagram traversal := by
    rw [compress, parsed]
    simp only [ended]
  have best : bestCandidate traversal.candidates = none := by
    rw [bestCandidate, empty, List.argmin_nil]
  have whole : ¬ c.Splits packet direction → traversal.natureErrors = [] := by
    intro never
    rw [List.eq_nil_iff_forall_not_mem]
    exact fun nature member => never ((natures nature).mp member).2
  have splitting : c.Splits packet direction →
      c.compress direction packet = fail (.unsupportedRuleNature "fragmentation") := by
    intro splits
    cases first : traversal.natureErrors with
    | nil =>
      have member := (natures .fragmentation).mpr ⟨rfl, splits⟩
      rw [first] at member
      cases member
    | cons nature rest =>
      have member : nature ∈ traversal.natureErrors := by
        rw [first]
        exact List.mem_cons_self
      obtain ⟨rfl, -⟩ := (natures nature).mp member
      simp only [verdict, selectDatagram, best, first]
      rfl
  have failing : ¬ c.Splits packet direction → (∃ error, c.RuleFails packet direction error) →
      ∃ error, c.RuleFails packet direction error ∧ c.compress direction packet = fail error := by
    rintro never ⟨error, fails⟩
    cases first : traversal.branchErrors with
    | nil =>
      have member := (errors error).mpr fails
      rw [first] at member
      cases member
    | cons error rest =>
      have member : error ∈ traversal.branchErrors := by
        rw [first]
        exact List.mem_cons_self
      refine ⟨error, (errors error).mp member, ?_⟩
      simp only [verdict, selectDatagram, best, whole never, first]
  have unmatched : ¬ c.Splits packet direction → (∀ error, ¬ c.RuleFails packet direction error) →
      c.compress direction packet = fail .noMatchingRule := by
    intro never clean
    cases first : traversal.branchErrors with
    | nil => simp only [verdict, selectDatagram, best, whole never, first]
    | cons error rest =>
      have member : error ∈ traversal.branchErrors := by
        rw [first]
        exact List.mem_cons_self
      exact absurd ((errors error).mp member) (clean error)
  refine ⟨⟨?_, splitting⟩, failing, ⟨?_, ?_⟩⟩
  · intro reported
    by_contra never
    by_cases failed : ∃ error, c.RuleFails packet direction error
    · obtain ⟨error, fails, other⟩ := failing never failed
      rw [reported] at other
      cases other
      exact fails.known valid made (.nature _)
    · rw [unmatched never (not_exists.mp failed)] at reported
      cases reported
  · intro reported
    have never : ¬ c.Splits packet direction := by
      intro splits
      rw [splitting splits] at reported
      cases reported
    refine ⟨never, fun error fails => ?_⟩
    obtain ⟨met, real, other⟩ := failing never ⟨error, fails⟩
    rw [reported] at other
    cases other
    exact real.1 rfl
  · rintro ⟨never, clean⟩
    exact unmatched never clean

end Compressor

/-- Compression of an IPv6 packet fails exactly when no rule offers a datagram, and then reports
    what the rules' own runs come to. -/
theorem compress_fails_iff {ctx : RuleContext} (loaded : ctx.Loaded) {c : Compressor}
    (made : Compressor.new ctx = .ok c) (direction : Direction) (p : Ipv6Packet) :
    ((∃ error, c.compress direction p.bytes = fail error) ↔
      ∀ k datagram, ¬ c.Offered p.bytes direction k datagram) ∧
    ((∀ k datagram, ¬ c.Offered p.bytes direction k datagram) →
      c.FailsAsDocumented p.bytes direction) := by
  have parsed := Ipv6Packet.parse_bytes p
  refine ⟨⟨?_, ?_⟩, Compressor.fails_of_nothing loaded.valid made parsed⟩
  · rintro ⟨error, failed⟩ k datagram offered
    obtain ⟨k, best, least⟩ := exists_leastOffer CompressedDatagram.bitLen offered
    rw [(Compressor.compress_least loaded.valid made parsed).1 k best least] at failed
    cases failed
  · exact (Compressor.compress_least loaded.valid made parsed).2

theorem compress_fails_at_split_first :
    ∃ full, Compressor.new splitFirstContext = .ok full ∧
      full.compress .up bareHeader.bytes = fail (.unsupportedRuleNature "fragmentation") := by
  obtain ⟨full, made⟩ := Compressor.new_total splitFirstContext
  have same : full.context.rules.rules = [splitRule, wrapRule] := by
    rw [(Compressor.new_built made).1]
    rfl
  obtain ⟨fails, verdict⟩ := compress_fails_iff splitFirstContext_loaded made .up bareHeader
  refine ⟨full, made, (verdict ?_).fragmentation.mpr ⟨0, splitRule, .initial,
    ⟨by rw [same]; rfl, ?_⟩, rfl, rfl⟩⟩
  · rintro k datagram ⟨rule, state, stands, -, offer⟩
    have placed := stands.placed
    rw [same] at placed
    match k, placed with
    | 0, placed =>
      cases placed
      cases offer
    | 1, placed =>
      cases placed
      have first := stands.first 0 splitRule (by rw [same]; rfl) rfl
      omega
  · intro k' other _ _
    omega

/- A rule that carries every packet. -/

namespace Compressor

theorem emptyNoCompressionFrom_first {packet : List UInt8} {rules : List Rule} {k : Nat} {rule : Rule}
    (placed : rules[k]? = some rule) (nature : rule.nature = .noCompression)
    (empty : rule.fields = [])
    (first : ∀ j other, rules[j]? = some other → other.fields = [] → k ≤ j) (order : Nat) :
    emptyNoCompressionFrom packet order rules =
      noCompressionCandidate (order + k) rule.id packet >>= fun candidate => .ok (some candidate) := by
  induction rules generalizing k order with
  | nil => cases placed
  | cons head rules ih =>
    cases k with
    | zero =>
      cases placed
      simp [emptyNoCompressionFrom, nature, empty]
    | succ k =>
      have longer : head.fields ≠ [] := by
        intro none
        have earlier := first 0 head rfl none
        omega
      have later := ih placed (fun j other there none => by
        have below := first (j + 1) other there none
        omega) (order + 1)
      rw [emptyNoCompressionFrom, if_neg (by simp [longer]), later]
      congr 2
      omega

end Compressor

/-- With a rule without entries before any other such rule, and not a fragmentation rule, every
    IPv6 packet is compressed, and with a no-compression rule every byte string, to no more bits
    than the rule's identifier and the bytes themselves. -/
theorem fallback_carries_everything {ctx : RuleContext} (loaded : ctx.Loaded) {c : Compressor}
    (made : Compressor.new ctx = .ok c) {k : Nat} {rule : Rule}
    (stands : Compressor.Stands ctx.rules.rules k rule) (empty : rule.fields = [])
    (carries : rule.nature ≠ .fragmentation) (direction : Direction) (packet : List UInt8)
    (fits : rule.nature = .noCompression ∨ ∃ p, Ipv6Packet.parse packet = .ok p) :
    ∃ datagram, c.compress direction packet = .ok datagram ∧
      datagram.bitLen ≤ rule.id.bitLen + 8 * packet.length := by
  obtain ⟨same, built⟩ := Compressor.new_built made
  subst same
  have fit := (loaded.valid.rules rule (List.mem_of_getElem? stands.placed)).id
  obtain ⟨w, written, bits⟩ := noCompressionCandidate_ok fit k packet
  have length : (w.datagram rule.id).bitLen = rule.id.bitLen + 8 * packet.length := by
    have counted := congrArg List.length bits
    rw [BitWriter.length_bits, List.length_append, RuleId.length_bits, BitList.length_ofBytes] at counted
    exact counted
  cases parsed : Ipv6Packet.parse packet with
  | error halt =>
    obtain ⟨error, rfl⟩ : ∃ error, halt = .fail error := by
      cases halt with
      | fail error => exact ⟨error, rfl⟩
      | panic site => exact absurd parsed (Ipv6Packet.safe_parse packet site)
    have nature : rule.nature = .noCompression := by
      rcases fits with nature | ⟨p, other⟩
      · exact nature
      · rw [parsed] at other
        cases other
    have first : ∀ j other, c.context.rules.rules[j]? = some other → other.fields = [] → k ≤ j := by
      intro j other there none
      exact stands.first j other there (by rw [none, empty])
    refine ⟨_, ?_, length.le⟩
    simp only [Compressor.compress, parsed, Compressor.emptyNoCompressionCandidate,
      Compressor.emptyNoCompressionFrom_first stands.placed nature empty first 0, Nat.zero_add,
      written, ok_bind]
  | ok p =>
    have offered : c.Offered packet direction k (w.datagram rule.id) := by
      refine ⟨rule, .initial, stands, ?_, ?_⟩
      · have none : rule.lent c.context.rules.rules = [] := by
          rw [← List.length_eq_zero_iff, Rule.length_lent, empty, List.length_nil]
        rw [none]
        rfl
      · apply leafCandidate_iff.mpr
        refine .inl ⟨?_, written⟩
        cases nature : rule.nature with
        | noCompression => exact .inl rfl
        | compression => exact .inr ⟨empty, .inl rfl⟩
        | management => exact .inr ⟨empty, .inr rfl⟩
        | fragmentation => exact absurd nature carries
    obtain ⟨k', best, least⟩ := exists_leastOffer CompressedDatagram.bitLen offered
    refine ⟨best, (Compressor.compress_least loaded.valid made parsed).1 k' best least, ?_⟩
    rw [← length]
    rcases Prod.Lex.toLex_le_toLex.mp (least.least k _ offered) with less | ⟨even, -⟩
    · exact less.le
    · exact even.le

theorem fallback_carries_garbage :
    ∃ full datagram, Compressor.new wrapFirstContext = .ok full ∧
      full.compress .up [1, 2, 3] = .ok datagram ∧ datagram.bitLen ≤ 8 + 8 * 3 := by
  obtain ⟨full, made⟩ := Compressor.new_total wrapFirstContext
  have stands : Compressor.Stands wrapFirstContext.rules.rules 0 wrapRule :=
    ⟨rfl, fun k' _ _ _ => Nat.zero_le k'⟩
  obtain ⟨datagram, done, small⟩ := fallback_carries_everything (.json _ _ wrapFirstContext_made) made
    stands rfl (by decide) .up [1, 2, 3] (.inl rfl)
  exact ⟨full, datagram, made, done, small⟩

end SchcCore
