import SchcCore.Compress.Engine
import SchcCore.Rule.Valid
import SchcCore.Tree.Lent

/- What a traversal visits. A rule is processed by running its entries, under the indices of
   the shared tree, from the initial state; the traversal arrives where such a run arrives,
   and its candidates are those of the leaves it visits. -/
namespace SchcCore
open Outcome BitList FieldStore

/- Datagrams. -/

/-- The meaningful bits of a datagram. -/
def CompressedDatagram.bits (datagram : CompressedDatagram) : List Bool :=
  (ofBytes datagram.bytes).take datagram.bitLen

/-- The datagram of a writer. -/
def BitWriter.datagram (w : BitWriter) (id : RuleId) : CompressedDatagram := ⟨w.toVec, w.bitLen, id⟩

@[simp] theorem bits_datagram (w : BitWriter) (id : RuleId) : (w.datagram id).bits = w.bits := by
  simp [CompressedDatagram.bits, BitWriter.datagram, BitWriter.toVec_eq, BitWriter.bits]

theorem bitLen_datagram_le (w : BitWriter) (id : RuleId) :
    (w.datagram id).bitLen ≤ (w.datagram id).bytes.length * 8 := by
  have size := w.size
  simp only [BitWriter.datagram, BitWriter.toVec_eq]
  omega

theorem writeBytes_ok (w : BitWriter) (bytes : List UInt8) :
    ∃ w', writeBytes w bytes = .ok w' ∧ w'.bits = w.bits ++ ofBytes bytes := by
  induction bytes generalizing w with
  | nil => exact ⟨w, rfl, by simp⟩
  | cons byte bytes ih =>
    have one : w.writeBits byte.toNat 8 = .ok (w.writeShifts byte.toNat 8) :=
      w.writeBits_ok (by decide) (by decide) byte.toNat_lt
    obtain ⟨w', rest, wrote⟩ := ih (w.writeShifts byte.toNat 8)
    refine ⟨w', ?_, ?_⟩
    · rw [writeBytes, one, ok_bind, rest]
    · rw [wrote, BitWriter.writeShifts_bits, ofBytes_cons, List.append_assoc]
      rfl

theorem appendBits_ok (output input : BitWriter) :
    ∃ w, appendBits output input = .ok w ∧ w.bits = output.bits ++ input.bits := by
  have size := input.size
  have enough : input.bitLen ≤ (BitReader.new input.toVec).remaining := by
    simp only [BitReader.remaining, BitReader.new, BitWriter.toVec_eq]
    omega
  obtain ⟨w, ran, wrote⟩ := BitReader.copyTo_run input.bitLen output _ enough
  refine ⟨w, ?_, ?_⟩
  · rw [appendBits, ran]
    rfl
  · rw [wrote, BitReader.unread_new, BitWriter.toVec_eq]
    rfl

theorem compressedCandidate_ok {id : RuleId} (fits : id.Fits) (ruleOrder : Nat)
    (residue : BitWriter) (suffix : List UInt8) :
    ∃ w : BitWriter, compressedCandidate ruleOrder id residue suffix =
        .ok ⟨ruleOrder, w.datagram id⟩ ∧
      w.bits = id.bits ++ (residue.bits ++ ofBytes suffix) := by
  obtain ⟨w₁, second, wrote₁⟩ := appendBits_ok (BitWriter.new.writeShifts id.value id.bitLen) residue
  obtain ⟨w₂, third, wrote₂⟩ := writeBytes_ok w₁ suffix
  refine ⟨w₂, ?_, ?_⟩
  · rw [compressedCandidate, BitWriter.writeBits_ok _ fits.positive fits.narrow fits.value, ok_bind,
      second, ok_bind, third]
    rfl
  · rw [wrote₂, wrote₁, BitWriter.writeShifts_bits, BitWriter.bits_new, List.nil_append,
      List.append_assoc]
    rfl

theorem noCompressionCandidate_ok {id : RuleId} (fits : id.Fits) (ruleOrder : Nat)
    (packet : List UInt8) :
    ∃ w : BitWriter, noCompressionCandidate ruleOrder id packet = .ok ⟨ruleOrder, w.datagram id⟩ ∧
      w.bits = id.bits ++ ofBytes packet := by
  obtain ⟨w, second, wrote⟩ := writeBytes_ok (BitWriter.new.writeShifts id.value id.bitLen) packet
  refine ⟨w, ?_, ?_⟩
  · rw [noCompressionCandidate, BitWriter.writeBits_ok _ fits.positive fits.narrow fits.value,
      ok_bind, second]
    rfl
  · rw [wrote, BitWriter.writeShifts_bits, BitWriter.bits_new, List.nil_append]
    rfl

/- Running entries. -/

def FieldRule.branch (field : FieldRule) : Branch :=
  ⟨⟨field.field, field.length, field.fieldPosition, field.entryIndex⟩, field.direction,
    field.target, field.matching, field.action, 0⟩

/-- One entry: skipped in the other direction, otherwise extracted and matched. -/
def advance (packet : List UInt8) (direction : Direction) (field : FieldRule)
    (state : CompressionState) : Result (Option CompressionState) :=
  if ¬ field.direction.accepts direction then .ok (some state)
  else traverseBranch packet direction field.branch state

/- Where a branch leads plays no part in taking it. -/

theorem searchCoapOption_next (number : Nat) (bitLen : Option Nat) (branch : Branch) (next : Nat)
    (ordinal : Nat) (options : List CoapOption) :
    searchCoapOption number bitLen { branch with next } ordinal options =
      searchCoapOption number bitLen branch ordinal options := by
  induction options generalizing ordinal with
  | nil => rfl
  | cons option options ih =>
    simp only [searchCoapOption, ih]
    rfl

theorem matchEntry_next (packet : List UInt8) (direction : Direction) (branch : Branch)
    (next : Nat) (bitLen : Option Nat) (scope : PacketScope) (state : CompressionState) :
    matchEntry packet direction { branch with next } bitLen scope state =
      matchEntry packet direction branch bitLen scope state := by
  simp only [matchEntry, extractMatchingCoapOption, searchCoapOption_next]
  rfl

theorem traverseBranch_next (packet : List UInt8) (direction : Direction) (branch : Branch)
    (next : Nat) (state : CompressionState) :
    traverseBranch packet direction { branch with next } state =
      traverseBranch packet direction branch state := by
  simp only [traverseBranch, matchEntry_next]
  rfl

theorem advance_entry (packet : List UInt8) (direction : Direction) (branch : Branch)
    (state : CompressionState) :
    advance packet direction branch.entry state =
      if ¬ branch.direction.accepts direction then .ok (some state)
      else traverseBranch packet direction branch state := by
  rw [← traverseBranch_next packet direction branch 0]
  rfl

def runEntries (packet : List UInt8) (direction : Direction) :
    List FieldRule → CompressionState → Result (Option CompressionState)
  | [], state => .ok (some state)
  | field :: fields, state => do
      let next ← advance packet direction field state
      match next with
      | none => .ok none
      | some next => runEntries packet direction fields next

theorem runEntries_cons {packet : List UInt8} {direction : Direction} {field : FieldRule}
    {fields : List FieldRule} {state last : CompressionState} :
    runEntries packet direction (field :: fields) state = .ok (some last) ↔
      ∃ next, advance packet direction field state = .ok (some next) ∧
        runEntries packet direction fields next = .ok (some last) := by
  rw [runEntries, bind_eq_ok]
  constructor
  · rintro ⟨next, first, rest⟩
    cases next with
    | none => simp at rest
    | some next => exact ⟨next, first, rest⟩
  · rintro ⟨next, first, rest⟩
    exact ⟨some next, first, rest⟩

namespace Compressor
variable (c : Compressor) (packet : List UInt8) (direction : Direction)

def leafOf (node : Node) (state : CompressionState) : Result (Option Candidate) :=
  match node.ruleId, node.ruleOrder with
  | some ruleId, some ruleOrder =>
      leafCandidate packet direction c.context.rules.rules[ruleOrder]? ruleOrder ruleId state
  | _, _ => .ok none

/-- From node `i` in `state`, the traversal takes branches with the entries of the list and
    arrives at node `j`. -/
inductive Visits : Nat → CompressionState → List FieldRule → Nat → CompressionState → Prop
  | here {i state} : Visits i state [] i state
  | step {i state node candidate branch next path j last} : c.tree.nodes[i]? = some node →
      c.leafOf packet direction node state = .ok candidate → branch ∈ node.branches →
      advance packet direction branch.entry state = .ok (some next) →
      Visits branch.next next path j last → Visits i state (branch.entry :: path) j last

/-- A candidate of a leaf visited from node `i` in `state`. -/
def Offers (i : Nat) (state : CompressionState) (candidate : Candidate) : Prop :=
  ∃ path j last node, c.Visits packet direction i state path j last ∧
    c.tree.nodes[j]? = some node ∧ c.leafOf packet direction node last = .ok (some candidate)

variable {c packet direction}

theorem visitLeaf_ok {node : Node} {state : CompressionState} (traversal : TraversalContext)
    {candidate : Option Candidate} (offer : c.leafOf packet direction node state = .ok candidate) :
    ∃ errors, c.visitLeaf packet direction node state traversal = .ok { traversal with
      candidates := traversal.candidates ++ candidate.toList, natureErrors := errors } := by
  rw [leafOf] at offer
  rw [visitLeaf]
  match node.ruleId, node.ruleOrder, offer with
  | some ruleId, some ruleOrder, offer =>
    dsimp only at offer ⊢
    rw [offer]
    exact ⟨_, rfl⟩
  | none, _, offer =>
    cases offer
    exact ⟨traversal.natureErrors, by simp⟩
  | some _, none, offer =>
    cases offer
    exact ⟨traversal.natureErrors, by simp⟩

theorem visitLeaf_error {node : Node} {state : CompressionState} {traversal : TraversalContext}
    {halt : Halt SchcError PanicSite} (failed : c.leafOf packet direction node state = .error halt) :
    c.visitLeaf packet direction node state traversal = .error halt := by
  rw [leafOf] at failed
  rw [visitLeaf]
  match node.ruleId, node.ruleOrder, failed with
  | some ruleId, some ruleOrder, failed =>
    dsimp only at failed ⊢
    rw [failed]
    rfl
  | none, _, failed => cases failed
  | some _, none, failed => cases failed

/-- The recursive call of one branch, with its outcome absorbed. -/
def visitBranch (packet : List UInt8) (direction : Direction)
    (visit : Nat → CompressionState → TraversalContext → TraversalContext × Result Unit)
    (state : CompressionState) (branch : Branch) (traversal : TraversalContext) :
    TraversalContext × Result Unit :=
  absorb (match advance packet direction branch.entry state with
    | .error halt => (traversal, .error halt)
    | .ok none => (traversal, .ok ())
    | .ok (some next) => visit branch.next next traversal)

theorem traverseBranches_cons
    (visit : Nat → CompressionState → TraversalContext → TraversalContext × Result Unit)
    (state : CompressionState) (branch : Branch) (branches : List Branch)
    (traversal : TraversalContext) :
    traverseBranches packet direction visit state (branch :: branches) traversal =
      match visitBranch packet direction visit state branch traversal with
      | (traversal, .error halt) => (traversal, .error halt)
      | (traversal, .ok ()) =>
          traverseBranches packet direction visit state branches traversal := by
  rw [traverseBranches, visitBranch, advance_entry]
  cases branch.direction.accepts direction <;> rfl

/-- A loop depends on the recursive call only where its branches lead from its state. -/
theorem traverseBranches_congr
    {visit visit' : Nat → CompressionState → TraversalContext → TraversalContext × Result Unit}
    {state : CompressionState} {branches : List Branch}
    (same : ∀ branch ∈ branches, ∀ next,
      advance packet direction branch.entry state = .ok (some next) →
      visit branch.next next = visit' branch.next next) (traversal : TraversalContext) :
    traverseBranches packet direction visit state branches traversal =
      traverseBranches packet direction visit' state branches traversal := by
  induction branches generalizing traversal with
  | nil => rfl
  | cons branch branches ih =>
    have rest : ∀ after, traverseBranches packet direction visit state branches after =
        traverseBranches packet direction visit' state branches after := by
      intro after
      exact ih (fun b later => same b (List.mem_cons_of_mem _ later)) after
    have here : visitBranch packet direction visit state branch traversal =
        visitBranch packet direction visit' state branch traversal := by
      unfold visitBranch
      cases taken : advance packet direction branch.entry state with
      | error halt => rfl
      | ok moved =>
        cases moved with
        | none => rfl
        | some next =>
          dsimp only
          rw [same branch List.mem_cons_self next taken]
    rw [traverseBranches_cons, traverseBranches_cons, here]
    simp only [rest]

@[simp] theorem candidates_absorb (outcome : TraversalContext × Result Unit) :
    (absorb outcome).1.candidates = outcome.1.candidates := by
  obtain ⟨traversal, verdict⟩ := outcome
  match verdict with
  | .ok () => rfl
  | .error (.panic site) => rfl
  | .error (.fail error) =>
    simp only [absorb, TraversalContext.recordBranchError]
    split <;> rfl

/-- Whatever the traversal from a node adds is offered by a leaf it visits from there. -/
theorem traverse_sound (steps i : Nat) (state : CompressionState) (traversal : TraversalContext)
    (candidate : Candidate)
    (found : candidate ∈ (c.traverse packet direction steps i state traversal).1.candidates) :
    candidate ∈ traversal.candidates ∨ c.Offers packet direction i state candidate := by
  induction steps generalizing i state traversal with
  | zero => exact .inl found
  | succ steps ih =>
    rw [traverse] at found
    cases there : c.tree.nodes[i]? with
    | none => simp only [there] at found; exact .inl found
    | some node =>
      simp only [there] at found
      cases offer : c.leafOf packet direction node state with
      | error halt => rw [visitLeaf_error offer] at found; exact .inl found
      | ok own =>
        obtain ⟨errors, visited⟩ := visitLeaf_ok traversal offer
        rw [visited] at found
        have loop : ∀ branches (before : TraversalContext), (∀ b ∈ branches, b ∈ node.branches) →
            candidate ∈ (traverseBranches packet direction (c.traverse packet direction steps)
              state branches before).1.candidates →
            candidate ∈ before.candidates ∨ c.Offers packet direction i state candidate := by
          intro branches
          induction branches with
          | nil => exact fun before _ found => .inl found
          | cons branch branches rest =>
            intro before inside found
            rw [traverseBranches_cons] at found
            have after : candidate ∈ (visitBranch packet direction
                (c.traverse packet direction steps) state branch before).1.candidates ∨
                c.Offers packet direction i state candidate := by
              split at found
              · rename_i traversal halt outcome
                rw [outcome]
                exact .inl found
              · rename_i traversal outcome
                rw [outcome]
                exact rest traversal (fun b later => inside b (List.mem_cons_of_mem _ later)) found
            rcases after with added | offered
            · rw [visitBranch, candidates_absorb] at added
              split at added
              · exact .inl added
              · exact .inl added
              · rename_i next advanced
                rcases ih _ _ _ added with old | ⟨path, j, last, leaf, visits, placed, offered⟩
                · exact .inl old
                · exact .inr ⟨_, j, last, leaf,
                    .step there offer (inside branch List.mem_cons_self) advanced visits, placed,
                    offered⟩
            · exact .inr offered
        rcases loop node.branches _ (fun _ member => member) found with here | offered
        · rcases List.mem_append.mp here with old | new
          · exact .inl old
          · rw [Option.mem_toList] at new
            exact .inr ⟨[], i, state, node, .here, there, new ▸ offer⟩
        · exact .inr offered

/- Visits along the entries of a rule. -/

theorem new_built {ctx : RuleContext} (made : new ctx = .ok c) : c.context = ctx ∧
    Built c.tree.nodes (longestRule (orderedRules ctx.rules.rules) + 1) 0 0
      (orderedRules ctx.rules.rules) := by
  obtain ⟨tree, done, built⟩ := build_total ctx.rules
  rw [new, done] at made
  cases made
  exact ⟨rfl, built⟩

/-- Building a compressor never fails. -/
theorem new_total (ctx : RuleContext) : ∃ c, new ctx = .ok c := by
  obtain ⟨tree, done, -⟩ := build_total ctx.rules
  exact ⟨⟨ctx, tree⟩, by rw [new, done]; rfl⟩

theorem Visits.at_node {height i : Nat} {members : List (Nat × Rule)} {done path : List FieldRule}
    {state last : CompressionState} {j : Nat}
    (visits : c.Visits packet direction i state path j last)
    (built : Built c.tree.nodes height done.length i members)
    (here : AtNode c.context.rules.rules members done) :
    ∃ height' members', Built c.tree.nodes height' (done ++ path).length j members' ∧
      AtNode c.context.rules.rules members' (done ++ path) ∧
      runEntries packet direction path state = .ok (some last) := by
  induction visits generalizing height members done with
  | here => exact ⟨height, members, by simpa using built, by simpa using here, rfl⟩
  | @step i state node candidate branch next path j last there _ member advanced _ ih =>
    cases height with
    | zero => exact absurd built id
    | succ height =>
      obtain ⟨branches, groups, there', grouped, linked⟩ := built
      rw [there'] at there
      cases there
      obtain ⟨group, inside, same, -, below⟩ := partner_right linked member
      have entry : branch.entry = (group.branch branch.next).entry := congrArg Branch.entry same
      have step := here.step grouped (mem_sortGroups.mp inside) branch.next
      rw [← entry] at step
      obtain ⟨height', members', built', at', ran⟩ := ih (by simpa using below) step
      refine ⟨height', members', by simpa using built', by simpa using at', ?_⟩
      exact runEntries_cons.mpr ⟨next, advanced, ran⟩

/-- A rule without entries does not fail. -/
theorem leafCandidate_empty {rule : Rule} (fits : rule.id.Fits) (empty : rule.fields = [])
    (packet : List UInt8) (direction : Direction) (k : Nat) (state : CompressionState) :
    ∃ candidate, leafCandidate packet direction (some rule) k rule.id state = .ok candidate := by
  obtain ⟨w, written, -⟩ := noCompressionCandidate_ok fits k packet
  simp only [leafCandidate, Option.map_some, Option.getD_some, Option.any_some, empty,
    List.isEmpty_nil, ↓reduceIte, written, ok_bind]
  split <;> exact ⟨_, rfl⟩

/-- A node with a member that goes on ends no rule, unless it is the root. -/
theorem leafOf_inner (packet : List UInt8) (direction : Direction)
    (fit : ∀ rule ∈ c.context.rules.rules, rule.id.Fits) {members : List (Nat × Rule)}
    {done : List FieldRule} (here : AtNode c.context.rules.rules members done) {m : Nat × Rule}
    (member : m ∈ members) (longer : done.length < m.2.fields.length) (branches : List Branch)
    (state : CompressionState) :
    ∃ candidate, c.leafOf packet direction (leafNode members done.length branches) state =
      .ok candidate := by
  cases leaf : leafAt members done.length with
  | none => exact ⟨none, by simp [leafOf, leafNode, leaf]⟩
  | some ended =>
    obtain ⟨inside, length, -⟩ := leafAt_some leaf
    have placed := mem_orderedRules.mp (here.company ended inside).1
    have empty : ended.2.fields = [] := by
      by_contra some
      have together : m ∈ cohort c.context.rules.rules ended.2 done.length :=
        (here.company ended inside).2 ▸ member
      have same := length_eq_of_agrees some (length ▸ (mem_cohort.mp together).2)
      omega
    have fits := fit ended.2 (List.mem_of_getElem? placed)
    simp only [leafOf, leafNode, leaf, Option.map_some, placed]
    exact leafCandidate_empty fits empty packet direction ended.1 state

/-- Where the entries of a member run to, the traversal arrives. -/
theorem visits_of_run (fit : ∀ rule ∈ c.context.rules.rules, rule.id.Fits) {n height i : Nat} {members : List (Nat × Rule)}
    {done : List FieldRule} {state last : CompressionState}
    (built : Built c.tree.nodes height done.length i members)
    (here : AtNode c.context.rules.rules members done) {m : Nat × Rule} (member : m ∈ members)
    (enough : done.length + n = m.2.fields.length)
    (ran : runEntries packet direction ((m.2.lent c.context.rules.rules).drop done.length) state =
      .ok (some last)) :
    ∃ j height' members', c.Visits packet direction i state
        ((m.2.lent c.context.rules.rules).drop done.length) j last ∧
      Built c.tree.nodes height' m.2.fields.length j members' ∧
      AtNode c.context.rules.rules members' (m.2.lent c.context.rules.rules) ∧ m ∈ members' := by
  induction n generalizing height i members done state with
  | zero =>
    have ended : (m.2.lent c.context.rules.rules).drop done.length = [] := by
      rw [List.drop_eq_nil_iff, Rule.length_lent]
      omega
    have whole : done = m.2.lent c.context.rules.rules := by
      rw [(here.route m member).2, List.take_of_length_le (by rw [Rule.length_lent]; omega)]
    rw [ended] at ran ⊢
    cases ran
    refine ⟨i, height, members, .here, ?_, whole ▸ here, member⟩
    rwa [← enough]
  | succ n ih =>
    cases height with
    | zero => exact absurd built id
    | succ height =>
      obtain ⟨branches, groups, there, grouped, linked⟩ := built
      have longer : done.length < m.2.fields.length := by omega
      obtain ⟨group, inside, chosen⟩ := AtNode.branch_of_member grouped member longer
      obtain ⟨branch, taken, same, -, below⟩ := partner_left linked inside
      have entry : branch.entry = (group.branch branch.next).entry := congrArg Branch.entry same
      have mine := (here.entry grouped (mem_sortGroups.mp inside) branch.next chosen).2
      rw [← entry] at mine
      obtain ⟨bound, mine⟩ := List.getElem?_eq_some_iff.mp mine
      have step := here.step grouped (mem_sortGroups.mp inside) branch.next
      rw [← entry] at step
      have split : (m.2.lent c.context.rules.rules).drop done.length =
          branch.entry :: (m.2.lent c.context.rules.rules).drop (done ++ [branch.entry]).length := by
        rw [List.drop_eq_getElem_cons bound, mine]
        simp
      rw [split, runEntries_cons] at ran
      obtain ⟨next, advanced, rest⟩ := ran
      obtain ⟨candidate, offer⟩ := leafOf_inner packet direction fit here member longer branches
        state
      obtain ⟨j, height', members', visits, built', at', member'⟩ :=
        ih (by simpa using below) step chosen (by simp; omega) rest
      refine ⟨j, height', members', ?_, built', at', member'⟩
      rw [split]
      exact .step there offer taken advanced visits

/-- Rule `k` of the list is the one kept at the end of its entries: the first that has them. -/
structure Stands (rules : List Rule) (k : Nat) (rule : Rule) : Prop where
  placed : rules[k]? = some rule
  first : ∀ k' other, rules[k']? = some other →
    other.fields.map FieldRule.label = rule.fields.map FieldRule.label → k ≤ k'

/-- A candidate that rule `k` of the context makes by running its own entries. -/
structure OwnCandidate (c : Compressor) (packet : List UInt8) (direction : Direction) (k : Nat)
    (rule : Rule) (state : CompressionState) (candidate : Candidate) : Prop where
  stands : Stands c.context.rules.rules k rule
  ran : runEntries packet direction (rule.lent c.context.rules.rules) .initial = .ok (some state)
  made : leafCandidate packet direction (some rule) k rule.id state = .ok (some candidate)

/-- A leaf stands where the entries of the rule kept there end. -/
theorem Visits.at_leaf {height : Nat}
    (built : Built c.tree.nodes height 0 0 (orderedRules c.context.rules.rules))
    {path : List FieldRule} {j : Nat} {last : CompressionState} {node : Node} {k : Nat}
    (visits : c.Visits packet direction 0 .initial path j last)
    (there : c.tree.nodes[j]? = some node) (leaf : node.ruleOrder = some k) :
    ∃ rule, Stands c.context.rules.rules k rule ∧ node.ruleId = some rule.id ∧
      path = rule.lent c.context.rules.rules ∧
      runEntries packet direction (rule.lent c.context.rules.rules) .initial = .ok (some last) := by
  obtain ⟨height', members, built', here, ran⟩ :=
    visits.at_node (show Built c.tree.nodes height [].length 0 _ from built) (AtNode.root _)
  cases height' with
  | zero => exact absurd built' id
  | succ height' =>
    obtain ⟨branches, groups, there', -, -⟩ := built'
    rw [there'] at there
    cases there
    simp only [leafNode, Option.map_eq_some_iff] at leaf
    obtain ⟨m, leaf, rfl⟩ := leaf
    obtain ⟨inside, ended, least⟩ := leafAt_some leaf
    have placed := mem_orderedRules.mp (here.company m inside).1
    have route := (here.route m inside).2
    rw [← ended, List.take_of_length_le (by simp)] at route
    simp only [List.nil_append] at route ended here
    have named : (leafNode members ([] ++ path).length branches).ruleId = some m.2.id := by
      rw [leafNode, leaf]
      rfl
    refine ⟨m.2, ⟨placed, ?_⟩, named, route, route ▸ ran⟩
    intro k' other there'' same
    have lengths : other.fields.length = m.2.fields.length := by
      simpa using congrArg List.length same
    have member : (k', other) ∈ members := by
      rw [(here.company m inside).2]
      exact mem_cohort.mpr ⟨mem_orderedRules.mpr there'', agrees_of_labels same.symm _⟩
    exact least (k', other) member (by simpa using lengths.trans ended)

/-- The leaves that the traversal visits are the ends of the runs of the rules kept there. -/
theorem offers_iff (fit : ∀ rule ∈ c.context.rules.rules, rule.id.Fits) {height : Nat}
    (built : Built c.tree.nodes height 0 0 (orderedRules c.context.rules.rules))
    (candidate : Candidate) :
    c.Offers packet direction 0 .initial candidate ↔
      ∃ k rule state, OwnCandidate c packet direction k rule state candidate := by
  constructor
  · rintro ⟨path, j, last, node, visits, there, offer⟩
    unfold leafOf at offer
    split at offer
    · rename_i ruleId k named ordered
      obtain ⟨rule, stands, same, -, ran⟩ := visits.at_leaf built there ordered
      rw [same] at named
      cases named
      rw [stands.placed] at offer
      exact ⟨k, rule, last, stands, ran, offer⟩
    · simp at offer
  · rintro ⟨k, rule, state, ⟨placed, first⟩, ran, made⟩
    have member : (k, rule) ∈ orderedRules c.context.rules.rules := mem_orderedRules.mpr placed
    obtain ⟨j, height', members, visits, built', here, member'⟩ :=
      visits_of_run fit (show Built c.tree.nodes height [].length 0 _ from built) (AtNode.root _)
        member (Nat.zero_add rule.fields.length) (by simpa using ran)
    cases height' with
    | zero => exact absurd built' id
    | succ height' =>
      obtain ⟨branches, groups, there, -, -⟩ := built'
      obtain ⟨kept, leaf⟩ := leafAt_isSome member' rfl
      obtain ⟨inside, ended, least⟩ := leafAt_some leaf
      have placed' := mem_orderedRules.mp (here.company kept inside).1
      have together : kept ∈ cohort c.context.rules.rules rule rule.fields.length := by
        have company := (here.company (k, rule) member').2
        rw [Rule.length_lent] at company
        exact company ▸ inside
      have same := labels_of_agrees (mem_cohort.mp together).2 ended.symm
      have order : kept.1 = k :=
        Nat.le_antisymm (least (k, rule) member' rfl) (first kept.1 kept.2 placed' same.symm)
      have itself : kept.2 = rule := by
        rw [order, placed] at placed'
        exact (Option.some.inj placed').symm
      refine ⟨_, j, state, _, visits, there, ?_⟩
      simp only [leafOf, leafNode, leaf, Option.map_some, order, itself, placed, made]

end Compressor

/- What a candidate carries. -/

/-- A leaf that offers nothing without a suffix offers its residue with one. -/
theorem residue_offer_iff {packet : List UInt8} {direction : Direction} {k : Nat} {id : RuleId}
    {state : CompressionState} {candidate : Candidate}
    {offer : Option (List UInt8) → Result (Option Candidate)} (nothing : offer none = .ok none)
    (carried : ∀ suffix, offer (some suffix) =
      compressedCandidate k id state.residue suffix >>= fun made => .ok (some made)) :
    (leafSuffix packet direction state >>= offer) = .ok (some candidate) ↔
      ∃ suffix, leafSuffix packet direction state = .ok (some suffix) ∧
        compressedCandidate k id state.residue suffix = .ok candidate := by
  rw [bind_eq_ok]
  constructor
  · rintro ⟨suffix, found, made⟩
    cases suffix with
    | none =>
      rw [nothing] at made
      cases made
    | some suffix =>
      rw [carried, bind_eq_ok] at made
      obtain ⟨own, written, same⟩ := made
      cases same
      exact ⟨suffix, found, written⟩
  · rintro ⟨suffix, found, written⟩
    refine ⟨some suffix, found, ?_⟩
    rw [carried, written]
    rfl

/-- A leaf sends the packet whole, or its residue and a suffix. -/
theorem leafCandidate_iff {packet : List UInt8} {direction : Direction} {rule : Rule} {k : Nat}
    {id : RuleId} {state : CompressionState} {candidate : Candidate} :
    leafCandidate packet direction (some rule) k id state = .ok (some candidate) ↔
      ((rule.nature = .noCompression ∨
          (rule.fields = [] ∧ (rule.nature = .compression ∨ rule.nature = .management))) ∧
        noCompressionCandidate k id packet = .ok candidate) ∨
      ((rule.nature = .compression ∨ rule.nature = .management) ∧ rule.fields ≠ [] ∧
        ∃ suffix, leafSuffix packet direction state = .ok (some suffix) ∧
          compressedCandidate k id state.residue suffix = .ok candidate) := by
  have plain : (noCompressionCandidate k id packet >>= fun candidate =>
        Except.ok (some candidate)) = Except.ok (some candidate) ↔
      noCompressionCandidate k id packet = .ok candidate := by
    simp [bind_eq_ok]
  unfold leafCandidate
  by_cases empty : rule.fields = []
  · cases nature : rule.nature <;> simp [nature, empty, plain]
  · cases nature : rule.nature
    · simp only [Option.map_some, nature, Option.getD_some, Option.any_some, List.isEmpty_iff,
        empty, ↓reduceIte, reduceCtorEq, or_false, and_true, or_self, false_and, ne_eq,
        not_false_eq_true, true_and, false_or]
      exact residue_offer_iff rfl fun _ => rfl
    · simp [nature, empty, plain]
    · simp [nature]
    · simp only [Option.map_some, nature, Option.getD_some, Option.any_some, List.isEmpty_iff,
        empty, ↓reduceIte, reduceCtorEq, or_true, and_true, or_self, false_and, ne_eq,
        not_false_eq_true, true_and, false_or]
      exact residue_offer_iff rfl fun _ => rfl

/-- Either the packet itself or the residue and a suffix follow the rule identifier. -/
inductive Carries (packet : List UInt8) (direction : Direction) (rule : Rule)
    (state : CompressionState) : List Bool → Prop
  | whole : rule.nature = .noCompression ∨
        (rule.fields = [] ∧ (rule.nature = .compression ∨ rule.nature = .management)) →
      Carries packet direction rule state (ofBytes packet)
  | residue {suffix} : rule.nature = .compression ∨ rule.nature = .management →
      rule.fields ≠ [] → leafSuffix packet direction state = .ok (some suffix) →
      Carries packet direction rule state (state.residue.bits ++ ofBytes suffix)

theorem leafCandidate_carries {packet : List UInt8} {direction : Direction} {rule : Rule}
    (fits : rule.id.Fits) {k : Nat} {state : CompressionState} {candidate : Candidate}
    (made : leafCandidate packet direction (some rule) k rule.id state = .ok (some candidate)) :
    ∃ w : BitWriter, candidate = ⟨k, w.datagram rule.id⟩ ∧
      ∃ body, w.bits = rule.id.bits ++ body ∧ Carries packet direction rule state body := by
  rcases leafCandidate_iff.mp made with ⟨whole, made⟩ | ⟨codes, filled, suffix, found, made⟩
  · obtain ⟨w, written, bits⟩ := noCompressionCandidate_ok fits k packet
    rw [written] at made
    cases made
    exact ⟨w, rfl, _, bits, .whole whole⟩
  · obtain ⟨w, written, bits⟩ := compressedCandidate_ok fits k state.residue suffix
    rw [written] at made
    cases made
    exact ⟨w, rfl, _, bits, .residue codes filled found⟩

namespace Compressor
variable {c : Compressor} {packet : List UInt8} {direction : Direction}

theorem emptyNoCompressionFrom_some {k : Nat} {rules : List Rule} {candidate : Candidate}
    (found : emptyNoCompressionFrom packet k rules = .ok (some candidate)) :
    ∃ i rule, rules[i]? = some rule ∧ rule.nature = .noCompression ∧ rule.fields = [] ∧
      noCompressionCandidate (k + i) rule.id packet = .ok candidate := by
  induction rules generalizing k with
  | nil => simp [emptyNoCompressionFrom] at found
  | cons rule rules ih =>
    rw [emptyNoCompressionFrom] at found
    split at found
    · rename_i plain
      rw [bind_eq_ok] at found
      obtain ⟨made, written, same⟩ := found
      cases same
      exact ⟨0, rule, rfl, plain.1, List.isEmpty_iff.mp plain.2, written⟩
    · obtain ⟨i, other, placed, rest⟩ := ih found
      refine ⟨i + 1, other, placed, rest.1, rest.2.1, ?_⟩
      rw [← Nat.add_assoc, Nat.add_right_comm]
      exact rest.2.2

theorem bestCandidate_mem {candidates : List Candidate} {best : Candidate}
    (found : bestCandidate candidates = some best) : best ∈ candidates :=
  List.argmin_mem found

/-- A datagram is a rule's own candidate, or the fallback for bytes that are not IPv6. -/
theorem compress_ok (fit : ∀ rule ∈ c.context.rules.rules, rule.id.Fits) {height : Nat}
    (built : Built c.tree.nodes height 0 0 (orderedRules c.context.rules.rules))
    {datagram : CompressedDatagram} (done : c.compress direction packet = .ok datagram) :
    (∃ k rule state, (∃ p, Ipv6Packet.parse packet = .ok p) ∧
        OwnCandidate c packet direction k rule state ⟨k, datagram⟩) ∨
      (∃ k rule, c.context.rules.rules[k]? = some rule ∧ (∃ e, Ipv6Packet.parse packet = fail e) ∧
        rule.nature = .noCompression ∧ rule.fields = [] ∧
        noCompressionCandidate k rule.id packet = .ok ⟨k, datagram⟩) := by
  unfold compress at done
  split at done
  · simp at done
  · rename_i error unparsed
    rw [bind_eq_ok] at done
    obtain ⟨found, scanned, done⟩ := done
    cases found with
    | none => simp at done
    | some candidate =>
      cases done
      obtain ⟨k, rule, placed, nature, empty, written⟩ := emptyNoCompressionFrom_some scanned
      obtain ⟨w, written', -⟩ := noCompressionCandidate_ok
        (fit rule (List.mem_of_getElem? placed)) (0 + k) packet
      rw [written'] at written
      cases written
      rw [Nat.zero_add] at written'
      exact .inr ⟨k, rule, placed, ⟨error, unparsed⟩, nature, empty, written'⟩
  · rename_i p parsed
    split at done
    · simp at done
    · rename_i traversal ended
      unfold selectDatagram at done
      split at done
      · rename_i best chosen
        cases done
        have member := bestCandidate_mem chosen
        rw [show traversal = (c.traverse packet direction (c.tree.nodes.length + 1) 0 .initial
          ⟨[], [], []⟩).1 by rw [ended]] at member
        rcases traverse_sound _ _ _ _ _ member with before | offered
        · simp at before
        · obtain ⟨k, rule, state, own⟩ := (offers_iff fit built best).mp offered
          have fits := fit rule (List.mem_of_getElem? own.stands.placed)
          obtain ⟨w, shape, -⟩ := leafCandidate_carries fits own.made
          refine .inl ⟨k, rule, state, ⟨p, parsed⟩, ?_⟩
          rw [shape] at own ⊢
          exact own
      · split at done
        · simp at done
        · split at done <;> simp at done

end Compressor
end SchcCore
