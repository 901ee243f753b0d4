import SchcCore.Compress.Step

/- Sharing branches between rules. In the tree of a rule set a rule runs its entries under the
   indices lent to it, in a tree of its own under its own indices; the two runs are the same
   when the indices are. -/
namespace SchcCore
open Outcome FieldStore

/- The node where a rule ends. -/

/-- The context with one of its rules alone. -/
def RuleContext.only (ctx : RuleContext) (rule : Rule) : RuleContext :=
  ⟨{ ctx.rules with rules := [rule] }⟩

theorem lentIndex_eq {rules : List Rule} {a b : Rule}
    (same : a.fields.map FieldRule.label = b.fields.map FieldRule.label) (k : Nat) :
    lentIndex rules a k = lentIndex rules b k := by
  rw [lentIndex, lentIndex, agrees_eq (agrees_of_labels same (k + 1))]

/-- Rules with the same entries up to their indices run the same entries. -/
theorem Rule.lent_eq {rules : List Rule} {a b : Rule}
    (same : a.fields.map FieldRule.label = b.fields.map FieldRule.label) :
    a.lent rules = b.lent rules := by
  apply List.ext_getElem?
  intro k
  have label : (a.fields[k]?).map FieldRule.label = (b.fields[k]?).map FieldRule.label := by
    rw [← List.getElem?_map, same, List.getElem?_map]
  have relabel : ∀ fields : Option FieldRule,
      fields.map (fun field => { field with entryIndex := lentIndex rules b k }) =
        (fields.map FieldRule.label).map
          (fun field => { field with entryIndex := lentIndex rules b k }) := by
    intro fields
    cases fields <;> rfl
  rw [Rule.getElem?_lent, Rule.getElem?_lent, lentIndex_eq same, relabel, label, ← relabel]

namespace Compressor
variable {c : Compressor} {packet : List UInt8} {direction : Direction}

/-- The traversal arrives in this state at the node where the entries of a rule end. -/
def ReachesEnd (c : Compressor) (packet : List UInt8) (direction : Direction) (rule : Rule)
    (state : CompressionState) : Prop :=
  ∃ path j node k, c.Visits packet direction 0 .initial path j state ∧
    c.tree.nodes[j]? = some node ∧ node.ruleOrder = some k ∧
    path.map FieldRule.label = rule.fields.map FieldRule.label

/-- It arrives there when the entries that it lends to the rule run through. -/
theorem reachesEnd_iff (fit : ∀ rule ∈ c.context.rules.rules, rule.id.Fits) {height : Nat}
    (built : Built c.tree.nodes height 0 0 (orderedRules c.context.rules.rules)) {rule : Rule}
    (member : rule ∈ c.context.rules.rules) (state : CompressionState) :
    c.ReachesEnd packet direction rule state ↔
      runEntries packet direction (rule.lent c.context.rules.rules) .initial = .ok (some state) := by
  constructor
  · rintro ⟨path, j, node, k, visits, there, leaf, labels⟩
    obtain ⟨kept, -, -, same, ran⟩ := visits.at_leaf built there leaf
    rw [same, Rule.map_label_lent] at labels
    rwa [← Rule.lent_eq labels]
  · intro ran
    obtain ⟨k, placed⟩ := List.getElem?_of_mem member
    have listed : (k, rule) ∈ orderedRules c.context.rules.rules := mem_orderedRules.mpr placed
    obtain ⟨j, height', members, visits, built', here, inside⟩ :=
      visits_of_run fit (show Built c.tree.nodes height [].length 0 _ from built) (AtNode.root _)
        listed (Nat.zero_add rule.fields.length) (by simpa using ran)
    cases height' with
    | zero => exact absurd built' id
    | succ height' =>
      obtain ⟨branches, groups, there, -, -⟩ := built'
      obtain ⟨kept, leaf⟩ := leafAt_isSome inside rfl
      have ended : (leafNode members rule.fields.length branches).ruleOrder = some kept.1 := by
        rw [leafNode, leaf]
        rfl
      exact ⟨_, j, _, kept.1, visits, there, ended, Rule.map_label_lent _ _⟩

end Compressor

/- Runs that differ in the indices only. -/

/-- Whether an entry, run in a direction, stores a field. -/
def FieldRule.stores (direction : Direction) (entry : FieldRule) : Bool :=
  entry.direction.accepts direction && entry.field ≠ .syntheticCoapMarker

theorem advance_silent {packet : List UInt8} {direction : Direction} {entry : FieldRule}
    (silent : entry.stores direction = false) (state : CompressionState) :
    advance packet direction entry state = .ok (some state) := by
  unfold advance
  split
  · rfl
  · rename_i active
    have marker : entry.field = .syntheticCoapMarker := by
      simpa [FieldRule.stores, by simpa using active] using silent
    exact if_pos marker

theorem advance_stores {packet : List UInt8} {direction : Direction} {entry : FieldRule}
    (visible : entry.stores direction) {state next : CompressionState}
    (advanced : advance packet direction entry state = .ok (some next)) :
    ∃ value, next.fields = state.fields.insert
      ⟨entry.field, entry.fieldPosition, entry.entryIndex, next.scope⟩ value := by
  simp only [FieldRule.stores, Bool.and_eq_true, decide_eq_true_eq] at visible
  rw [advance, if_neg (by simpa using visible.1)] at advanced
  rcases traverseBranch_some.mp advanced with ⟨marker, -⟩ | ⟨-, bitLen, value, matched, taken⟩
  · exact absurd marker visible.2
  · exact ⟨value, taken.fields⟩

/-- Two lists of entries, the same but for indices under which nothing is stored. -/
def SameRun (direction : Direction) : List FieldRule → List FieldRule → Prop :=
  List.Forall₂ (fun a b => a.label = b.label ∧
    (b.stores direction → a.entryIndex = b.entryIndex))

theorem FieldRule.eq_of_label {a b : FieldRule} (label : a.label = b.label)
    (index : a.entryIndex = b.entryIndex) : a = b := by
  cases a
  cases b
  simp only [FieldRule.label, FieldRule.mk.injEq] at label index ⊢
  simp [label, index]

theorem stores_of_label {direction : Direction} {a b : FieldRule} (label : a.label = b.label) :
    a.stores direction = b.stores direction := by
  change a.label.stores direction = b.label.stores direction
  rw [label]

theorem runEntries_same {packet : List UInt8} {direction : Direction} {as bs : List FieldRule}
    (same : SameRun direction as bs) (state : CompressionState) :
    runEntries packet direction as state = runEntries packet direction bs state := by
  induction same generalizing state with
  | nil => rfl
  | @cons a b as bs here _ ih =>
    have step : advance packet direction a state = advance packet direction b state := by
      cases visible : b.stores direction with
      | true => rw [FieldRule.eq_of_label here.1 (here.2 visible)]
      | false =>
        rw [advance_silent ((stores_of_label here.1).trans visible), advance_silent visible]
    simp only [runEntries, step]
    congr 1
    funext next
    cases next with
    | none => rfl
    | some next => exact ih next

/-- A run stores its entries' fields under their keys, in order. -/
theorem fields_of_run {packet : List UInt8} {direction : Direction} {entries : List FieldRule}
    {state last : CompressionState}
    (ran : runEntries packet direction entries state = .ok (some last)) :
    last.fields.map (fun stored => (stored.1.field, stored.1.fieldPosition, stored.1.entryIndex)) =
      state.fields.map (fun stored =>
        (stored.1.field, stored.1.fieldPosition, stored.1.entryIndex)) ++
        (entries.filter (FieldRule.stores direction)).map
          (fun entry => (entry.field, entry.fieldPosition, entry.entryIndex)) := by
  induction entries generalizing state with
  | nil =>
    cases ran
    simp
  | cons entry entries ih =>
    obtain ⟨next, advanced, rest⟩ := runEntries_cons.mp ran
    rw [ih rest]
    cases visible : entry.stores direction with
    | true =>
      obtain ⟨value, stored⟩ := advance_stores visible advanced
      rw [stored, FieldStore.insert, List.map_append, List.filter_cons_of_pos visible]
      simp
    | false =>
      rw [advance_silent visible] at advanced
      cases advanced
      rw [List.filter_cons_of_neg (by simp [visible])]

/-- Where two lists that differ in their indices only store under the same indices, they are
    the same run. -/
theorem sameRun_of_indices {direction : Direction} {as bs : List FieldRule}
    (labels : as.map FieldRule.label = bs.map FieldRule.label)
    (indices : (as.filter (FieldRule.stores direction)).map FieldRule.entryIndex =
      (bs.filter (FieldRule.stores direction)).map FieldRule.entryIndex) :
    SameRun direction as bs := by
  induction as generalizing bs with
  | nil =>
    cases bs with
    | nil => exact .nil
    | cons => simp at labels
  | cons a as ih =>
    cases bs with
    | nil => simp at labels
    | cons b bs =>
      simp only [List.map_cons, List.cons.injEq] at labels
      cases visible : b.stores direction with
      | true =>
        have both := (stores_of_label labels.1).trans visible
        rw [List.filter_cons_of_pos both, List.filter_cons_of_pos visible, List.map_cons,
          List.map_cons, List.cons.injEq] at indices
        exact .cons ⟨labels.1, fun _ => indices.1⟩ (ih labels.2 indices.2)
      | false =>
        have neither := (stores_of_label labels.1).trans visible
        rw [List.filter_cons_of_neg (by simp [neither]),
          List.filter_cons_of_neg (by simp [visible])] at indices
        refine .cons ⟨labels.1, fun stored => ?_⟩ (ih labels.2 indices)
        rw [visible] at stored
        cases stored

/- When sharing leaves a rule alone. -/

/-- Every entry that stores a field in a direction has the index that the first rule agreeing
    up to there gives it. -/
def Rule.NumberedAlike (rules : List Rule) (direction : Direction) (rule : Rule) : Prop :=
  ∀ k entry, rule.fields[k]? = some entry → entry.stores direction →
    lentIndex rules rule k = entry.entryIndex

theorem sameRun_lent_iff {rules : List Rule} {direction : Direction} {rule : Rule} :
    SameRun direction (rule.lent rules) rule.fields ↔ rule.NumberedAlike rules direction := by
  rw [SameRun, List.forall₂_iff_get]
  constructor
  · rintro ⟨-, each⟩ k entry placed visible
    obtain ⟨inside, here⟩ := List.getElem?_eq_some_iff.mp placed
    have pair := (each k (by simpa using inside) inside).2
    simp only [List.get_eq_getElem, here] at pair
    simpa [Rule.lent] using pair visible
  · intro alike
    refine ⟨by simp, fun k inside there => ?_⟩
    simp only [List.get_eq_getElem]
    constructor
    · simp [Rule.lent, FieldRule.label]
    · intro visible
      simpa [Rule.lent] using alike k _ (List.getElem?_eq_getElem there) visible

/-- Entries numbered by their place are numbered alike. -/
theorem numberedAlike_of_places {rules : List Rule} {rule : Rule}
    (places : ∀ other ∈ rules, ∀ k (h : k < other.fields.length), other.fields[k].entryIndex = k)
    (member : rule ∈ rules) (direction : Direction) : rule.NumberedAlike rules direction := by
  intro k entry placed _
  obtain ⟨inside, here⟩ := List.getElem?_eq_some_iff.mp placed
  have own := places rule member k inside
  rw [here] at own
  obtain ⟨first, found⟩ : ∃ first, rules.find? (agrees (k + 1) rule) = some first := by
    rw [← Option.isSome_iff_exists, List.find?_isSome]
    exact ⟨rule, member, agrees_self _ _⟩
  have together := agrees_iff.mp (List.find?_some found) k (Nat.lt_succ_self k)
  rw [entryClass_of_field placed] at together
  have longer := length_of_entryClass together.symm
  have lent := places first (List.mem_of_find?_eq_some found) k longer
  simp [lentIndex, found, List.getElem?_eq_getElem longer, lent, own]

/-- In a context loaded from JSON sharing never disturbs a rule. -/
theorem fromJson_numberedAlike {file : RuleFile} {registry : SidRegistry} {ctx : RuleContext}
    (loaded : RuleContext.fromJson file registry = .ok ctx) {rule : Rule}
    (member : rule ∈ ctx.rules.rules) (direction : Direction) :
    rule.NumberedAlike ctx.rules.rules direction :=
  numberedAlike_of_places (fun _ inside => fromJson_rule loaded inside) member direction

/-- Shared with the other rules, a rule is processed as it is alone: the traversal arrives where
    it ends for the same packets, with the same residue and the same fields, whose keys are those
    of the rule's own entries. -/
structure Undisturbed (full alone : Compressor) (packet : List UInt8) (direction : Direction)
    (rule : Rule) : Prop where
  reached : (∃ state, full.ReachesEnd packet direction rule state) ↔
    ∃ state, alone.ReachesEnd packet direction rule state
  same : ∀ shared own, full.ReachesEnd packet direction rule shared →
    alone.ReachesEnd packet direction rule own →
      shared.residue.bits = own.residue.bits ∧ shared.fields = own.fields
  keys : ∀ shared, full.ReachesEnd packet direction rule shared → ∀ stored ∈ shared.fields,
    ∃ entry ∈ rule.fields, stored.1.field = entry.field ∧
      stored.1.fieldPosition = entry.fieldPosition ∧ stored.1.entryIndex = entry.entryIndex

/-- The entries of a rule, under either numbering, run through for a packet. -/
def Rule.RunsThrough (rules : List Rule) (packet : List UInt8) (direction : Direction)
    (rule : Rule) : Prop :=
  ∃ state, runEntries packet direction rule.fields .initial = .ok (some state) ∨
    runEntries packet direction (rule.lent rules) .initial = .ok (some state)

theorem reachesEnd_shared {ctx : RuleContext} (loaded : ctx.Loaded) {rule : Rule}
    (member : rule ∈ ctx.rules.rules) {full : Compressor} (made : Compressor.new ctx = .ok full)
    (packet : List UInt8) (direction : Direction) (state : CompressionState) :
    full.ReachesEnd packet direction rule state ↔
      runEntries packet direction (rule.lent ctx.rules.rules) .initial = .ok (some state) := by
  obtain ⟨context, built⟩ := Compressor.new_built made
  have fit : ∀ rule ∈ ctx.rules.rules, rule.id.Fits := fun rule member =>
    (loaded.valid.rules rule member).id
  rw [← context] at fit built member ⊢
  exact Compressor.reachesEnd_iff fit built member state

theorem reachesEnd_alone {ctx : RuleContext} (loaded : ctx.Loaded) {rule : Rule}
    (member : rule ∈ ctx.rules.rules) {alone : Compressor}
    (made : Compressor.new (ctx.only rule) = .ok alone) (packet : List UInt8)
    (direction : Direction) (state : CompressionState) :
    alone.ReachesEnd packet direction rule state ↔
      runEntries packet direction rule.fields .initial = .ok (some state) := by
  obtain ⟨context, built⟩ := Compressor.new_built made
  have only : alone.context.rules.rules = [rule] := by
    rw [context]
    rfl
  have fit : ∀ r ∈ alone.context.rules.rules, r.id.Fits := by
    rw [only]
    intro r inside
    rw [List.mem_singleton.mp inside]
    exact (loaded.valid.rules rule member).id
  have inside : rule ∈ alone.context.rules.rules := by
    rw [only]
    exact List.mem_singleton_self rule
  rw [← context] at built
  have reaches : alone.ReachesEnd packet direction rule state ↔ _ :=
    Compressor.reachesEnd_iff fit built inside state
  rwa [only, Rule.lent_alone] at reaches

/-- Sharing leaves the processing of a rule alone exactly for the rules numbered like the first
    ones that share their branches, and for packets that the rule does not fit at all. -/
theorem sharing_undisturbed_iff {ctx : RuleContext} (loaded : ctx.Loaded) {rule : Rule}
    (member : rule ∈ ctx.rules.rules) {full alone : Compressor}
    (shared : Compressor.new ctx = .ok full) (single : Compressor.new (ctx.only rule) = .ok alone)
    (direction : Direction) (packet : List UInt8) :
    Undisturbed full alone packet direction rule ↔
      rule.NumberedAlike ctx.rules.rules direction ∨
        ¬ rule.RunsThrough ctx.rules.rules packet direction := by
  have inFull := reachesEnd_shared loaded member shared packet direction
  have inAlone := reachesEnd_alone loaded member single packet direction
  constructor
  · intro undisturbed
    by_cases through : rule.RunsThrough ctx.rules.rules packet direction
    · left
      have both : (∃ state, full.ReachesEnd packet direction rule state) ∧
          ∃ state, alone.ReachesEnd packet direction rule state := by
        obtain ⟨state, own | lent⟩ := through
        · have here : ∃ state, alone.ReachesEnd packet direction rule state :=
            ⟨state, (inAlone state).mpr own⟩
          exact ⟨undisturbed.reached.mpr here, here⟩
        · have here : ∃ state, full.ReachesEnd packet direction rule state :=
            ⟨state, (inFull state).mpr lent⟩
          exact ⟨here, undisturbed.reached.mp here⟩
      obtain ⟨⟨a, lent⟩, ⟨b, own⟩⟩ := both
      have fields := (undisturbed.same a b lent own).2
      have keysA := fields_of_run ((inFull a).mp lent)
      have keysB := fields_of_run ((inAlone b).mp own)
      rw [fields, keysB] at keysA
      have indices := congrArg (List.map (fun key => key.2.2)) (List.append_cancel_left keysA)
      simp only [List.map_map] at indices
      exact sameRun_lent_iff.mp (sameRun_of_indices (Rule.map_label_lent _ _) indices.symm)
    · exact .inr through
  · rintro (alike | off)
    · have runs : runEntries packet direction _ .initial = runEntries packet direction _ .initial :=
        runEntries_same (sameRun_lent_iff.mpr alike) .initial
      refine ⟨?_, ?_, ?_⟩
      · simp only [inFull, inAlone, runs]
      · intro a b lent own
        rw [inFull, runs] at lent
        rw [inAlone, lent] at own
        cases own
        exact ⟨rfl, rfl⟩
      · intro a lent stored inside
        rw [inFull, runs] at lent
        have keys := fields_of_run lent
        have listed := List.mem_map_of_mem (f := fun stored : FieldKey × FieldValue =>
          (stored.1.field, stored.1.fieldPosition, stored.1.entryIndex)) inside
        rw [keys] at listed
        simp only [CompressionState.initial, List.map_nil, List.nil_append, List.mem_map,
          Prod.mk.injEq] at listed
        obtain ⟨entry, kept, field, position, index⟩ := listed
        exact ⟨entry, List.mem_of_mem_filter kept, field.symm, position.symm, index.symm⟩
    · refine ⟨?_, ?_, ?_⟩
      · constructor
        · rintro ⟨state, lent⟩
          exact absurd ⟨state, .inr ((inFull state).mp lent)⟩ off
        · rintro ⟨state, own⟩
          exact absurd ⟨state, .inl ((inAlone state).mp own)⟩ off
      · intro a b lent _
        exact absurd ⟨a, .inr ((inFull a).mp lent)⟩ off
      · intro a lent
        exact absurd ⟨a, .inr ((inFull a).mp lent)⟩ off

/- A rule numbered with a gap, behind one without. -/

def cborMap (entries : List (Int × CborValue)) : CborValue :=
  .map (entries.map (fun entry => (.integer entry.1, entry.2)))

/-- An entry at position 1, in both directions, ignored and sent. -/
def sentEntry (index sid : Int) (length : CborValue) (parameter : Int) : CborValue :=
  cborMap [(1, .integer index), (2, .integer sid), (5, length), (6, .integer parameter),
    (7, .integer 3), (8, .integer 1), (12, .integer 4), (16, .integer 5)]

/-- The hop limit, then the device prefix: of 64 bits, or as long as the hop limit says. -/
def gapRules : List CborValue :=
  [cborMap [(1, .integer 8), (2, .integer 1), (23, .array
      [sentEntry 0 1 (.integer 8) 0, sentEntry 1 2 (.integer 64) 0])],
    cborMap [(1, .integer 8), (2, .integer 2), (23, .array
      [sentEntry 3 1 (.integer 8) 0, sentEntry 4 2 (.tag 45 (.integer 6)) 3])]]

def gapRoot : CborValue := cborMap [(2574, cborMap [(23, .array gapRules)])]

def gapRegistry : SidRegistry :=
  .ofItems [⟨1, "fid-ipv6-hoplimit"⟩, ⟨2, "fid-ipv6-devprefix"⟩, ⟨3, "di-bidirectional"⟩,
    ⟨4, "mo-ignore"⟩, ⟨5, "cda-value-sent"⟩, ⟨6, "fl-length-bits"⟩]

def plainRule : Rule :=
  ⟨⟨1, 8⟩,
    [⟨.ipv6 (.known .ipv6HopLimit), .fixedBits 8, 1, .bidirectional, .none, .ignore, .valueSent, 0⟩,
      ⟨.ipv6 (.known .ipv6DevPrefix), .fixedBits 64, 1, .bidirectional, .none, .ignore, .valueSent,
        1⟩],
    .compression⟩

def gapRule : Rule :=
  ⟨⟨2, 8⟩,
    [⟨.ipv6 (.known .ipv6HopLimit), .fixedBits 8, 1, .bidirectional, .none, .ignore, .valueSent, 3⟩,
      ⟨.ipv6 (.known .ipv6DevPrefix), .fromPreviousField 3 .bits, 1, .bidirectional, .none, .ignore,
        .valueSent, 4⟩],
    .compression⟩

def gapContext : RuleContext := ⟨⟨[plainRule, gapRule], gapRegistry⟩⟩

theorem gapContext_loaded : gapContext.Loaded := by
  refine .cbor gapRoot gapRegistry ?_
  have rules : mapIndexed (loadCborRule gapRegistry) 0 gapRules = .ok [plainRule, gapRule] := by
    decide +kernel
  change (mapIndexed (loadCborRule gapRegistry) 0 gapRules >>= fun rules =>
    validateRuleIdPrefixes rules >>= fun _ =>
      Except.ok (RuleContext.mk ⟨rules, gapRegistry⟩)) = Except.ok gapContext
  rw [rules]
  rfl

/-- An IPv6 header with hop limit 64. -/
def farPacket : List UInt8 := [0x60, 0, 0, 0, 0, 0, 59, 64] ++ List.replicate 32 0

theorem join_eq_some {α : Type} {outcome : Result (Option α)} {a : α} :
    outcome.toOption.join = some a ↔ outcome = .ok (some a) := by
  cases outcome <;> simp [Except.toOption]

theorem sharing_undisturbed_iff_at_plain_rule :
    ∃ full alone, Compressor.new gapContext = .ok full ∧
      Compressor.new (gapContext.only plainRule) = .ok alone ∧
      Undisturbed full alone farPacket .up plainRule := by
  obtain ⟨full, shared⟩ := Compressor.new_total gapContext
  obtain ⟨alone, single⟩ := Compressor.new_total (gapContext.only plainRule)
  refine ⟨full, alone, shared, single, ?_⟩
  refine (sharing_undisturbed_iff gapContext_loaded List.mem_cons_self shared single .up
    farPacket).mpr (.inl ?_)
  intro k entry placed _
  match k with
  | 0 =>
    cases placed
    decide +kernel
  | 1 =>
    cases placed
    decide +kernel
  | k + 2 => cases placed

/-- The hop limit is stored under the index of the first rule, so the length of the device
    prefix refers to nothing and the second rule fails. -/
theorem gap_rule_disturbed :
    ∃ full alone, gapContext.Loaded ∧ gapRule ∈ gapContext.rules.rules ∧
      Compressor.new gapContext = .ok full ∧
      Compressor.new (gapContext.only gapRule) = .ok alone ∧
      ¬ Undisturbed full alone farPacket .up gapRule := by
  obtain ⟨full, shared⟩ := Compressor.new_total gapContext
  obtain ⟨alone, single⟩ := Compressor.new_total (gapContext.only gapRule)
  have member : gapRule ∈ gapContext.rules.rules := List.mem_cons_of_mem _ List.mem_cons_self
  refine ⟨full, alone, gapContext_loaded, member, shared, single, ?_⟩
  intro undisturbed
  have through : (runEntries farPacket .up gapRule.fields .initial).toOption.join.isSome := by
    decide +kernel
  have stuck : (runEntries farPacket .up (gapRule.lent gapContext.rules.rules)
      .initial).toOption.join = none := by decide +kernel
  obtain ⟨own, ran⟩ := Option.isSome_iff_exists.mp through
  obtain ⟨state, lent⟩ := undisturbed.reached.mpr
    ⟨own, (reachesEnd_alone gapContext_loaded member single farPacket .up own).mpr (join_eq_some.mp ran)⟩
  rw [(reachesEnd_shared gapContext_loaded member shared farPacket .up state).mp lent] at stuck
  cases stuck

end SchcCore
