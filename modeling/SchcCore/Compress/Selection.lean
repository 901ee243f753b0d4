import SchcCore.Compress.Safety
import SchcCore.Compress.Sharing
import SchcCore.Lib.Least

/- What compression selects. The traversal collects the candidates of all the rules that stand at
   the ends of their entries and no others, whatever fails on the way; the datagram is the least
   of them. -/
namespace SchcCore
open Outcome FieldStore Least

namespace Compressor
variable {c : Compressor} {packet : List UInt8} {direction : Direction}

/- Nothing collected is lost. -/

theorem traverseBranches_keeps
    {visit : Nat → CompressionState → TraversalContext → TraversalContext × Result Unit}
    (keeps : ∀ i state (before : TraversalContext),
      before.candidates ⊆ (visit i state before).1.candidates)
    (state : CompressionState) (branches : List Branch) (before : TraversalContext) :
    before.candidates ⊆
      (traverseBranches packet direction visit state branches before).1.candidates := by
  induction branches generalizing before with
  | nil => exact List.Subset.refl _
  | cons branch branches later =>
    have here : before.candidates ⊆
        (visitBranch packet direction visit state branch before).1.candidates := by
      rw [visitBranch, candidates_absorb]
      split
      · exact List.Subset.refl _
      · exact List.Subset.refl _
      · exact keeps _ _ _
    rw [traverseBranches_cons]
    split
    · rename_i after halt outcome
      rwa [outcome] at here
    · rename_i after outcome
      rw [outcome] at here
      exact fun x member => later after (here member)

theorem traverse_keeps (steps i : Nat) (state : CompressionState) (before : TraversalContext) :
    before.candidates ⊆ (c.traverse packet direction steps i state before).1.candidates := by
  induction steps generalizing i state before with
  | zero => exact List.Subset.refl _
  | succ steps ih =>
    cases there : c.tree.nodes[i]? with
    | none =>
      rw [traverse]
      simp only [there]
      exact List.Subset.refl _
    | some node =>
      cases offer : c.leafOf packet direction node state with
      | error halt =>
        rw [traverse]
        simp only [there]
        rw [visitLeaf_error offer]
        exact List.Subset.refl _
      | ok candidate =>
        obtain ⟨errors, goes⟩ := traverse_node there offer steps before
        rw [goes]
        intro x member
        exact traverseBranches_keeps ih state node.branches _ (List.mem_append_left _ member)

/-- A loop whose calls are absorbed comes to every branch. -/
theorem traverseBranches_reaches
    {visit : Nat → CompressionState → TraversalContext → TraversalContext × Result Unit}
    {state : CompressionState} {branches : List Branch}
    (absorbs : ∀ branch ∈ branches, Absorbs packet direction visit state branch)
    (keeps : ∀ i state (before : TraversalContext),
      before.candidates ⊆ (visit i state before).1.candidates)
    {branch : Branch} (member : branch ∈ branches) {candidate : Candidate}
    (found : ∀ before, Clean before →
      candidate ∈ (visitBranch packet direction visit state branch before).1.candidates)
    {before : TraversalContext} (clean : Clean before) :
    candidate ∈ (traverseBranches packet direction visit state branches before).1.candidates := by
  induction branches generalizing before with
  | nil => cases member
  | cons first rest later =>
    obtain ⟨kept, absorbed⟩ := absorbs first List.mem_cons_self before clean
    rw [traverseBranches_step absorbed]
    rcases List.mem_cons.mp member with rfl | inside
    · exact traverseBranches_keeps keeps state rest _ (found before clean)
    · exact later (fun b further => absorbs b (List.mem_cons_of_mem _ further)) inside kept

/-- Whatever a leaf visited from a node offers, the traversal from there collects. -/
theorem traverse_complete (valid : ∀ rule ∈ c.context.rules.rules, rule.Valid)
    {steps height depth i : Nat} {members : List (Nat × Rule)} {state : CompressionState}
    {before : TraversalContext} (built : Built c.tree.nodes height depth i members)
    (listed : ∀ m ∈ members, m.2 ∈ c.context.rules.rules)
    (enough : c.tree.nodes.length < i + steps) (flat : FieldStore.Flat state.fields)
    (clean : Clean before) {candidate : Candidate}
    (offers : c.Offers packet direction i state candidate) :
    candidate ∈ (c.traverse packet direction steps i state before).1.candidates := by
  induction steps generalizing height depth i members state before with
  | zero =>
    cases height with
    | zero => exact absurd built id
    | succ height =>
      obtain ⟨branches, groups, there, -, -⟩ := built
      have inside := (List.getElem?_eq_some_iff.mp there).1
      omega
  | succ steps ih =>
    cases height with
    | zero => exact absurd built id
    | succ height =>
      obtain ⟨branches, groups, there, grouped, linked⟩ := built
      have absorbs : ∀ branch ∈ branches, Absorbs packet direction
          (c.traverse packet direction steps) state branch := by
        intro branch member before clean
        obtain ⟨typed, further, below, built, inside⟩ :=
          below_branch grouped linked valid listed member
        exact visitBranch_finishes typed flat clean fun next flat =>
          traverse_finishes valid built inside (by omega) flat clean
      obtain ⟨path, j, last, leaf, visits, placed, offer⟩ := offers
      cases visits with
      | here =>
        rw [there] at placed
        cases placed
        obtain ⟨errors, goes⟩ := traverse_node there offer steps before
        rw [goes]
        exact traverseBranches_keeps (traverse_keeps steps) state branches _ (by simp)
      | @step _ _ _ own branch next path _ _ there' offered member advanced rest =>
        rw [there] at there'
        cases there'
        obtain ⟨errors, goes⟩ := traverse_node there offered steps before
        rw [goes]
        refine traverseBranches_reaches absorbs (traverse_keeps steps) member ?_ clean
        intro before clean
        obtain ⟨typed, further, below, built, inside⟩ :=
          below_branch grouped linked valid listed member
        rw [visitBranch, candidates_absorb, advanced]
        exact ih built inside (by omega) (flat_of_advance flat advanced) clean
          ⟨path, j, last, leaf, rest, placed, offer⟩

/-- The traversal collects exactly the candidates that rules make of themselves. -/
theorem mem_candidates_iff {ctx : RuleContext} (valid : ctx.Valid) (made : new ctx = .ok c)
    (candidate : Candidate) :
    candidate ∈ (c.traverse packet direction (c.tree.nodes.length + 1) 0 .initial
        ⟨[], [], []⟩).1.candidates ↔
      ∃ k rule state, OwnCandidate c packet direction k rule state candidate := by
  obtain ⟨same, built⟩ := new_built made
  subst same
  have fit : ∀ rule ∈ c.context.rules.rules, rule.id.Fits :=
    fun rule member => (valid.rules rule member).id
  rw [← offers_iff fit built]
  constructor
  · intro found
    rcases traverse_sound _ _ _ _ _ found with before | offered
    · cases before
    · exact offered
  · intro offers
    refine traverse_complete valid.rules built ?_ (by omega) ?_ ?_ offers
    · intro m member
      exact List.mem_of_getElem? (mem_orderedRules.mp member)
    · intro entry member
      cases member
    · intro e member
      cases member

/- The verdict. -/

/-- Rule `k` makes a candidate of the packet, and this is its datagram. -/
def Offered (c : Compressor) (packet : List UInt8) (direction : Direction) (k : Nat)
    (datagram : CompressedDatagram) : Prop :=
  ∃ rule state, OwnCandidate c packet direction k rule state ⟨k, datagram⟩

theorem OwnCandidate.order (fit : ∀ rule ∈ c.context.rules.rules, rule.id.Fits) {k : Nat}
    {rule : Rule} {state : CompressionState} {candidate : Candidate}
    (own : OwnCandidate c packet direction k rule state candidate) :
    candidate = ⟨k, candidate.datagram⟩ := by
  obtain ⟨w, shape, -⟩ :=
    leafCandidate_carries (fit rule (List.mem_of_getElem? own.stands.placed)) own.made
  rw [shape]

theorem Offered.unique {k : Nat} {a b : CompressedDatagram}
    (first : c.Offered packet direction k a) (second : c.Offered packet direction k b) : a = b := by
  obtain ⟨rule, state, ⟨placed, -⟩, ran, made⟩ := first
  obtain ⟨rule', state', ⟨placed', -⟩, ran', made'⟩ := second
  rw [placed] at placed'
  cases placed'
  rw [ran] at ran'
  cases ran'
  rw [made] at made'
  cases made'
  rfl

/-- The leaf of the root does not fail. -/
theorem leafOf_root (fit : ∀ rule ∈ c.context.rules.rules, rule.id.Fits) (branches : List Branch)
    (state : CompressionState) :
    ∃ candidate, c.leafOf packet direction
      (leafNode (orderedRules c.context.rules.rules) 0 branches) state = .ok candidate := by
  cases leaf : leafAt (orderedRules c.context.rules.rules) 0 with
  | none => exact ⟨none, by simp [leafOf, leafNode, leaf]⟩
  | some ended =>
    obtain ⟨inside, length, -⟩ := leafAt_some leaf
    have placed := mem_orderedRules.mp inside
    have empty : ended.2.fields = [] := List.length_eq_zero_iff.mp length
    simp only [leafOf, leafNode, leaf, Option.map_some, placed]
    exact leafCandidate_empty (fit ended.2 (List.mem_of_getElem? placed)) empty packet direction
      ended.1 state

/-- The traversal that `compress` runs returns. -/
theorem run_returns {ctx : RuleContext} (valid : ctx.Valid) (made : new ctx = .ok c)
    (packet : List UInt8) (direction : Direction) :
    (c.traverse packet direction (c.tree.nodes.length + 1) 0 .initial ⟨[], [], []⟩).2 = .ok () := by
  obtain ⟨same, built⟩ := new_built made
  subst same
  have listed : ∀ m ∈ orderedRules c.context.rules.rules, m.2 ∈ c.context.rules.rules :=
    fun m member => List.mem_of_getElem? (mem_orderedRules.mp member)
  have flat : FieldStore.Flat CompressionState.initial.fields := by
    intro entry member
    cases member
  obtain ⟨branches, groups, there, grouped, linked⟩ := built
  obtain ⟨candidate, offer⟩ : ∃ candidate, c.leafOf packet direction
      (leafNode (orderedRules c.context.rules.rules) 0 branches) .initial = .ok candidate :=
    leafOf_root (fun rule member => (valid.rules rule member).id) branches .initial
  obtain ⟨errors, goes⟩ := traverse_node there offer c.tree.nodes.length ⟨[], [], []⟩
  have absorbs : ∀ branch ∈ branches, Absorbs packet direction
      (c.traverse packet direction c.tree.nodes.length) .initial branch := by
    intro branch member before clean
    obtain ⟨typed, further, below, built, inside⟩ :=
      below_branch grouped linked valid.rules listed member
    exact visitBranch_finishes typed flat clean fun next flat =>
      traverse_finishes valid.rules built inside (by omega) flat clean
  have clean : Clean { (⟨[], [], []⟩ : TraversalContext) with
      candidates := [] ++ candidate.toList
      natureErrors := errors } := by
    intro e member
    cases member
  rw [goes]
  exact (traverseBranches_finishes absorbs clean).2

/-- Compression returns the least of the rules' candidates, and fails when there is none. -/
theorem compress_least {ctx : RuleContext} (valid : ctx.Valid) (made : new ctx = .ok c)
    {p : Ipv6Packet} (parsed : Ipv6Packet.parse packet = .ok p) :
    (∀ k datagram, LeastOffer CompressedDatagram.bitLen (c.Offered packet direction) k datagram →
      c.compress direction packet = .ok datagram) ∧
    ((∀ k datagram, ¬ c.Offered packet direction k datagram) →
      ∃ error, c.compress direction packet = fail error) := by
  have fit : ∀ rule ∈ c.context.rules.rules, rule.id.Fits := by
    rw [(new_built made).1]
    exact fun rule member => (valid.rules rule member).id
  have returns := run_returns valid made packet direction
  obtain ⟨traversal, ended⟩ : ∃ traversal, c.traverse packet direction (c.tree.nodes.length + 1) 0
      .initial ⟨[], [], []⟩ = (traversal, .ok ()) := ⟨_, Prod.ext rfl returns⟩
  have collected : ∀ candidate, candidate ∈ traversal.candidates ↔
      ∃ k rule state, OwnCandidate c packet direction k rule state candidate := by
    intro candidate
    rw [← mem_candidates_iff valid made, ended]
  have verdict : c.compress direction packet = selectDatagram traversal := by
    rw [compress, parsed]
    simp only [ended]
  have holds : ∀ k datagram, c.Offered packet direction k datagram ↔
      ∃ x ∈ traversal.candidates, x.ruleOrder = k ∧ x.datagram = datagram := by
    intro k datagram
    constructor
    · rintro ⟨rule, state, own⟩
      exact ⟨_, (collected _).mpr ⟨k, rule, state, own⟩, rfl, rfl⟩
    · rintro ⟨x, member, rfl, rfl⟩
      obtain ⟨k, rule, state, own⟩ := (collected x).mp member
      have order := own.order fit
      rw [order] at own ⊢
      exact ⟨rule, state, own⟩
  rw [verdict]
  constructor
  · intro k datagram least
    cases found : bestCandidate traversal.candidates with
    | none =>
      obtain ⟨x, member, -⟩ := (holds k datagram).mp least.offered
      rw [bestCandidate, List.argmin_eq_none] at found
      rw [found] at member
      cases member
    | some best =>
      have same : datagram = best.datagram :=
        least.unique (fun _ _ _ one other => one.unique other) (leastOffer_of_argmin holds found)
      rw [selectDatagram, found, same]
  · intro none
    have empty : bestCandidate traversal.candidates = .none := by
      rw [bestCandidate, List.argmin_eq_none, List.eq_nil_iff_forall_not_mem]
      exact fun x member => none _ _ ((holds _ _).mpr ⟨x, member, rfl, rfl⟩)
    rw [selectDatagram, empty]
    simp only
    split
    · exact ⟨_, rfl⟩
    · split
      · exact ⟨_, rfl⟩
      · exact ⟨_, rfl⟩

/-- A datagram returned is a least one. -/
theorem leastOffer_of_compress {ctx : RuleContext} (valid : ctx.Valid) (made : new ctx = .ok c)
    {p : Ipv6Packet} (parsed : Ipv6Packet.parse packet = .ok p) {datagram : CompressedDatagram}
    (done : c.compress direction packet = .ok datagram) :
    ∃ k, LeastOffer CompressedDatagram.bitLen (c.Offered packet direction) k datagram := by
  obtain ⟨found, missing⟩ : (∀ k datagram, LeastOffer CompressedDatagram.bitLen
      (c.Offered packet direction) k datagram → c.compress direction packet = .ok datagram) ∧ _ :=
    compress_least valid made parsed
  by_cases some : ∃ k datagram, c.Offered packet direction k datagram
  · obtain ⟨k, datagram', offered⟩ := some
    obtain ⟨k, best, least⟩ := exists_leastOffer CompressedDatagram.bitLen offered
    have same := found k best least
    rw [done] at same
    cases same
    exact ⟨k, least⟩
  · obtain ⟨error, failed⟩ := missing fun k datagram offered => some ⟨k, datagram, offered⟩
    rw [done] at failed
    cases failed

end Compressor

/- Selection against the rules alone. -/

theorem RuleContext.Valid.only {ctx : RuleContext} (valid : ctx.Valid) {rule : Rule}
    (member : rule ∈ ctx.rules.rules) : (ctx.only rule).Valid := by
  constructor
  · intro other inside
    obtain rfl : other = rule := List.mem_singleton.mp inside
    exact valid.rules other member
  · exact List.pairwise_singleton _ _

theorem noCompressionCandidate_order {id : RuleId} {packet : List UInt8} {k : Nat}
    {candidate : Candidate} (made : noCompressionCandidate k id packet = .ok candidate) (j : Nat) :
    noCompressionCandidate j id packet = .ok ⟨j, candidate.datagram⟩ := by
  simp only [noCompressionCandidate, bind_eq_ok] at made ⊢
  obtain ⟨writer, first, whole, second, made⟩ := made
  cases made
  exact ⟨writer, first, whole, second, rfl⟩

theorem compressedCandidate_order {id : RuleId} {residue : BitWriter} {suffix : List UInt8}
    {k : Nat} {candidate : Candidate}
    (made : compressedCandidate k id residue suffix = .ok candidate) (j : Nat) :
    compressedCandidate j id residue suffix = .ok ⟨j, candidate.datagram⟩ := by
  simp only [compressedCandidate, bind_eq_ok] at made ⊢
  obtain ⟨writer, first, carried, second, whole, third, made⟩ := made
  cases made
  exact ⟨writer, first, carried, second, whole, third, rfl⟩

/-- The place of a rule in the list shows in its candidate only. -/
theorem leafCandidate_order {packet : List UInt8} {direction : Direction} {rule : Rule}
    {id : RuleId} {state : CompressionState} {k : Nat} {candidate : Candidate}
    (made : leafCandidate packet direction (some rule) k id state = .ok (some candidate))
    (j : Nat) :
    leafCandidate packet direction (some rule) j id state = .ok (some ⟨j, candidate.datagram⟩) := by
  rw [leafCandidate_iff] at made ⊢
  rcases made with ⟨whole, made⟩ | ⟨codes, filled, suffix, found, made⟩
  · exact .inl ⟨whole, noCompressionCandidate_order made j⟩
  · exact .inr ⟨codes, filled, suffix, found, compressedCandidate_order made j⟩

/-- Rule `k` of a context compresses the packet on its own, into this datagram. -/
def CompressesAlone (ctx : RuleContext) (packet : List UInt8) (direction : Direction) (k : Nat)
    (datagram : CompressedDatagram) : Prop :=
  ∃ rule alone, ctx.rules.rules[k]? = some rule ∧ Compressor.new (ctx.only rule) = .ok alone ∧
    alone.compress direction packet = .ok datagram

theorem compressesAlone_iff {ctx : RuleContext} (valid : ctx.Valid) {packet : List UInt8}
    {direction : Direction} {p : Ipv6Packet} (parsed : Ipv6Packet.parse packet = .ok p) {k : Nat}
    {datagram : CompressedDatagram} :
    CompressesAlone ctx packet direction k datagram ↔
      ∃ rule state, ctx.rules.rules[k]? = some rule ∧
        runEntries packet direction rule.fields .initial = .ok (some state) ∧
        leafCandidate packet direction (some rule) k rule.id state = .ok (some ⟨k, datagram⟩) := by
  constructor
  · rintro ⟨rule, alone, placed, made, done⟩
    have validAlone := valid.only (List.mem_of_getElem? placed)
    obtain ⟨j, least⟩ := Compressor.leastOffer_of_compress validAlone made parsed done
    obtain ⟨rule', state, ⟨placed', -⟩, ran, candidate⟩ := least.offered
    rw [(Compressor.new_built made).1] at placed' ran
    have only : j = 0 ∧ rule' = rule := by
      cases j with
      | zero => exact ⟨rfl, (Option.some.inj placed').symm⟩
      | succ j => cases placed'
    obtain ⟨rfl, rfl⟩ := only
    refine ⟨rule', state, placed, ?_, leafCandidate_order candidate k⟩
    rwa [RuleContext.only, Rule.lent_alone] at ran
  · rintro ⟨rule, state, placed, ran, candidate⟩
    have validAlone := valid.only (List.mem_of_getElem? placed)
    obtain ⟨alone, made⟩ := Compressor.new_total (ctx.only rule)
    refine ⟨rule, alone, placed, made, ?_⟩
    have rules : alone.context.rules.rules = [rule] := by
      rw [(Compressor.new_built made).1]
      rfl
    have offered : alone.Offered packet direction 0 datagram := by
      refine ⟨rule, state, ⟨by rw [rules]; rfl, fun k' other _ _ => Nat.zero_le k'⟩, ?_, ?_⟩
      · rwa [rules, Rule.lent_alone]
      · exact leafCandidate_order candidate 0
    obtain ⟨j, best, least⟩ := exists_leastOffer CompressedDatagram.bitLen offered
    have first : j = 0 := by
      obtain ⟨rule', state', ⟨placed', -⟩, -, -⟩ := least.offered
      rw [rules] at placed'
      cases j with
      | zero => rfl
      | succ j => cases placed'
    subst first
    have same := least.offered.unique offered
    subst same
    exact (Compressor.compress_least validAlone made parsed).1 0 best least

/-- Compression takes the best of the rules that compress the packet on their own, and fails
    when no rule does. -/
structure SelectsBest (ctx : RuleContext) (full : Compressor) (packet : List UInt8)
    (direction : Direction) : Prop where
  best : (∃ k datagram, CompressesAlone ctx packet direction k datagram) →
    ∃ k datagram, LeastOffer CompressedDatagram.bitLen (CompressesAlone ctx packet direction) k
      datagram ∧ full.compress direction packet = .ok datagram
  none : (¬ ∃ k datagram, CompressesAlone ctx packet direction k datagram) →
    ∃ error, full.compress direction packet = fail error

/-- With the shared branches numbered alike, the traversal loses just the rules that an earlier
    rule with the same entries stands before. -/
theorem offered_iff {ctx : RuleContext} (valid : ctx.Valid) {full : Compressor}
    (made : Compressor.new ctx = .ok full) {packet : List UInt8} {direction : Direction}
    {p : Ipv6Packet} (parsed : Ipv6Packet.parse packet = .ok p)
    (numbered : ∀ rule ∈ ctx.rules.rules, rule.NumberedAlike ctx.rules.rules direction ∨
      ¬ rule.RunsThrough ctx.rules.rules packet direction) {k : Nat}
    {datagram : CompressedDatagram} :
    full.Offered packet direction k datagram ↔
      CompressesAlone ctx packet direction k datagram ∧
        ∃ rule, Compressor.Stands ctx.rules.rules k rule := by
  rw [compressesAlone_iff valid parsed]
  have context := (Compressor.new_built made).1
  constructor
  · rintro ⟨rule, state, stands, ran, candidate⟩
    rw [context] at stands ran
    have member := List.mem_of_getElem? stands.placed
    rcases numbered rule member with alike | off
    · rw [runEntries_same (sameRun_lent_iff.mpr alike)] at ran
      exact ⟨⟨rule, state, stands.placed, ran, candidate⟩, rule, stands⟩
    · exact absurd ⟨state, .inr ran⟩ off
  · rintro ⟨⟨rule, state, placed, ran, candidate⟩, rule', stands⟩
    have same := stands.placed
    rw [placed] at same
    cases same
    have member := List.mem_of_getElem? placed
    rcases numbered rule member with alike | off
    · refine ⟨rule, state, context ▸ stands, ?_, candidate⟩
      rwa [context, runEntries_same (sameRun_lent_iff.mpr alike)]
    · exact absurd ⟨state, .inl ran⟩ off

theorem CompressesAlone.ruleId {ctx : RuleContext} (valid : ctx.Valid) {packet : List UInt8}
    {direction : Direction} {p : Ipv6Packet} (parsed : Ipv6Packet.parse packet = .ok p) {k : Nat}
    {datagram : CompressedDatagram} (alone : CompressesAlone ctx packet direction k datagram) :
    ∃ rule, ctx.rules.rules[k]? = some rule ∧ datagram.ruleId = rule.id := by
  obtain ⟨rule, state, placed, -, candidate⟩ := (compressesAlone_iff valid parsed).mp alone
  obtain ⟨w, shape, -⟩ := leafCandidate_carries
    (valid.rules rule (List.mem_of_getElem? placed)).id candidate
  cases shape
  exact ⟨rule, placed, rfl⟩

/-- No two rules of a context have one identifier. -/
theorem RuleContext.Valid.ruleId_unique {ctx : RuleContext} (valid : ctx.Valid) {j k : Nat}
    {a b : Rule} (placedA : ctx.rules.rules[j]? = some a) (placedB : ctx.rules.rules[k]? = some b)
    (same : a.id = b.id) : j = k := by
  obtain ⟨insideA, hereA⟩ := List.getElem?_eq_some_iff.mp placedA
  obtain ⟨insideB, hereB⟩ := List.getElem?_eq_some_iff.mp placedB
  have long : (ctx.rules.rules.map fun rule => rule.id.bits).length = ctx.rules.rules.length :=
    List.length_map _
  have startsA : ∀ inside, (ctx.rules.rules.map fun rule => rule.id.bits).get ⟨j, inside⟩ <+:
      a.id.bits := by
    intro inside
    rw [List.get_eq_getElem, List.getElem_map, hereA]
  have startsB : ∀ inside, (ctx.rules.rules.map fun rule => rule.id.bits).get ⟨k, inside⟩ <+:
      a.id.bits := by
    intro inside
    rw [List.get_eq_getElem, List.getElem_map, hereB, same]
  exact PrefixCode.index_unique valid.prefixFree (long ▸ insideA) (long ▸ insideB) (startsA _)
    (startsB _)

/-- Selection is the best over the whole rule set exactly when the best of the rules that
    compress the packet on their own is not preceded by a rule with the same entries. -/
theorem rule_selection_optimal_iff {ctx : RuleContext} (loaded : ctx.Loaded) {full : Compressor}
    (made : Compressor.new ctx = .ok full) {packet : List UInt8} {p : Ipv6Packet}
    (parsed : Ipv6Packet.parse packet = .ok p) (direction : Direction)
    (numbered : ∀ rule ∈ ctx.rules.rules, rule.NumberedAlike ctx.rules.rules direction ∨
      ¬ rule.RunsThrough ctx.rules.rules packet direction) :
    SelectsBest ctx full packet direction ↔
      ∀ k datagram, LeastOffer CompressedDatagram.bitLen (CompressesAlone ctx packet direction) k
        datagram → ∃ rule, Compressor.Stands ctx.rules.rules k rule := by
  have valid := loaded.valid
  have offered : ∀ k datagram, full.Offered packet direction k datagram ↔
      CompressesAlone ctx packet direction k datagram ∧ ∃ rule, Compressor.Stands ctx.rules.rules k rule :=
    fun k datagram => offered_iff valid made parsed numbered
  constructor
  · intro selects k datagram least
    obtain ⟨k', chosen, least', done⟩ := selects.best ⟨k, datagram, least.offered⟩
    obtain rfl := least.position_unique least'
    obtain ⟨j, own⟩ := Compressor.leastOffer_of_compress valid made parsed done
    obtain ⟨alone, stands⟩ := (offered j chosen).mp own.offered
    obtain ⟨a, placedA, idA⟩ := alone.ruleId valid parsed
    obtain ⟨b, placedB, idB⟩ := least'.offered.ruleId valid parsed
    obtain rfl := valid.ruleId_unique placedA placedB (idA.symm.trans idB)
    exact stands
  · intro stands
    constructor
    · rintro ⟨k, datagram, alone⟩
      obtain ⟨k, best, least⟩ := exists_leastOffer CompressedDatagram.bitLen alone
      refine ⟨k, best, least, ?_⟩
      refine (Compressor.compress_least valid made parsed).1 k best ?_
      exact least.anti (fun k a own => ((offered k a).mp own).1)
        ((offered k best).mpr ⟨least.offered, stands k best least⟩)
    · intro none
      refine (Compressor.compress_least valid made parsed).2 fun k datagram own => ?_
      exact none ⟨k, datagram, ((offered k datagram).mp own).1⟩

/- Two rules without entries. A fragmentation rule carries no packet; the no-compression rule
   carries every one. -/

def splitRule : Rule := ⟨⟨1, 8⟩, [], .fragmentation⟩

def wrapRule : Rule := ⟨⟨2, 8⟩, [], .noCompression⟩

def wrapFirstContext : RuleContext := ⟨⟨[wrapRule, splitRule], .empty⟩⟩

def splitFirstContext : RuleContext := ⟨⟨[splitRule, wrapRule], .empty⟩⟩

theorem wrapFirstContext_made : RuleContext.fromJson
    ⟨[⟨2, 8, some "no-compression", []⟩, ⟨1, 8, some "fragmentation", []⟩]⟩ .empty =
      .ok wrapFirstContext := rfl

theorem splitFirstContext_loaded : splitFirstContext.Loaded :=
  .json ⟨[⟨1, 8, some "fragmentation", []⟩, ⟨2, 8, some "no-compression", []⟩]⟩ .empty rfl

/-- An IPv6 header without payload. -/
def bareHeader : Ipv6Packet where
  bytes := [0x60, 0, 0, 0, 0, 0, 59, 64] ++ List.replicate 32 0
  header := by decide
  version := by decide
  declared := by decide

theorem rule_selection_optimal_iff_at_wrap_first :
    ∃ full, Compressor.new wrapFirstContext = .ok full ∧
      SelectsBest wrapFirstContext full bareHeader.bytes .up := by
  obtain ⟨full, made⟩ := Compressor.new_total wrapFirstContext
  refine ⟨full, made, (rule_selection_optimal_iff (.json _ _ wrapFirstContext_made) made
    (Ipv6Packet.parse_bytes bareHeader) .up ?_).mpr ?_⟩
  · intro rule member
    exact .inl (fromJson_numberedAlike wrapFirstContext_made member .up)
  · rintro k datagram ⟨⟨rule, alone, placed, single, done⟩, -⟩
    match k with
    | 0 => exact ⟨wrapRule, rfl, fun k' _ _ _ => Nat.zero_le k'⟩
    | 1 =>
      cases placed
      have fails : (Compressor.new (wrapFirstContext.only splitRule) >>= fun alone =>
          alone.compress .up bareHeader.bytes) =
            fail (.unsupportedRuleNature "fragmentation") := by decide +kernel
      rw [single, ok_bind, done] at fails
      cases fails
    | k + 2 => cases placed

/-- Behind the fragmentation rule the no-compression rule is no fallback. -/
theorem wrap_rule_hidden :
    ∃ full, splitFirstContext.Loaded ∧ Compressor.new splitFirstContext = .ok full ∧
      ¬ SelectsBest splitFirstContext full bareHeader.bytes .up := by
  obtain ⟨full, made⟩ := Compressor.new_total splitFirstContext
  obtain ⟨alone, single⟩ := Compressor.new_total (splitFirstContext.only wrapRule)
  refine ⟨full, splitFirstContext_loaded, made, fun selects => ?_⟩
  have fails : (Compressor.new splitFirstContext >>= fun full =>
      full.compress .up bareHeader.bytes) = fail (.unsupportedRuleNature "fragmentation") := by
    decide +kernel
  have wraps : (Compressor.new (splitFirstContext.only wrapRule) >>= fun alone =>
      alone.compress .up bareHeader.bytes).toOption.isSome := by
    decide +kernel
  rw [made, ok_bind] at fails
  rw [single, ok_bind] at wraps
  obtain ⟨datagram, found⟩ := Option.isSome_iff_exists.mp wraps
  have done : alone.compress .up bareHeader.bytes = .ok datagram := by
    cases verdict : alone.compress .up bareHeader.bytes with
    | ok own =>
      rw [verdict] at found
      cases found
      rfl
    | error halt =>
      rw [verdict] at found
      cases found
  obtain ⟨k, best, -, chosen⟩ :=
    selects.best ⟨1, datagram, wrapRule, alone, rfl, single, done⟩
  rw [fails] at chosen
  cases chosen

end SchcCore
