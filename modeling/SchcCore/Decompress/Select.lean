import SchcCore.Compress.Traverse
import SchcCore.Decompress.Engine
import SchcCore.Lib.PrefixCode

/- Selecting the rule that a datagram starts with. Accepted identifiers form a prefix-free
   code, so the first-match scan finds the one identifier that starts the datagram, in
   whatever order the rules are listed. -/
namespace SchcCore
open Outcome BitList PrefixCode

/-- The bits of a byte string that a bit length declares meaningful. -/
def meaningfulBits (bytes : List UInt8) (bitLen : Nat) : List Bool := (ofBytes bytes).take bitLen

/-- The reader over the meaningful bits that has passed the first `position` of them. -/
def readerAt (bytes : List UInt8) (bitLen : Nat) (inside : bitLen ≤ bytes.length * 8)
    (position : Nat) : BitReader := ⟨bytes, position, bitLen, inside⟩

variable {bytes : List UInt8} {bitLen : Nat}

theorem withBitLen_eq (inside : bitLen ≤ bytes.length * 8) :
    BitReader.withBitLen bytes bitLen = .ok (readerAt bytes bitLen inside 0) := by
  have within : ¬ bitLen > bytes.length * 8 := by omega
  simp [BitReader.withBitLen, within, readerAt]

@[simp] theorem unread_readerAt (inside : bitLen ≤ bytes.length * 8) (position : Nat) :
    (readerAt bytes bitLen inside position).unread = (meaningfulBits bytes bitLen).drop position :=
  rfl

@[simp] theorem skip_readerAt (inside : bitLen ≤ bytes.length * 8) (position n : Nat) :
    (readerAt bytes bitLen inside position).skip n = readerAt bytes bitLen inside (position + n) :=
  rfl

@[simp] theorem remaining_readerAt (inside : bitLen ≤ bytes.length * 8) (position : Nat) :
    (readerAt bytes bitLen inside position).remaining = bitLen - position := rfl

@[simp] theorem length_meaningfulBits (inside : bitLen ≤ bytes.length * 8) :
    (meaningfulBits bytes bitLen).length = bitLen := by
  simp only [meaningfulBits, List.length_take, length_ofBytes]
  omega

/-- Comparing the leading number with the value of an identifier compares their bits. -/
theorem RuleId.starts_iff {id : RuleId} (fits : id.Fits) {bits : List Bool}
    (enough : id.bitLen ≤ bits.length) :
    toNat (bits.take id.bitLen) = id.value ↔ id.bits <+: bits := by
  have length : (bits.take id.bitLen).length = id.bitLen := by simpa using enough
  rw [List.prefix_iff_eq_take, id.length_bits]
  constructor
  · intro same
    apply toNat_injective
    · simpa using enough
    · rw [same, RuleId.bits, toNat_ofNat fits.value]
  · intro same
    rw [← same, RuleId.bits, toNat_ofNat fits.value]

/-- The scan returns the first rule whose identifier starts the meaningful bits. -/
theorem selectRule_eq {rules : List Rule} (fit : ∀ rule ∈ rules, rule.id.Fits)
    (inside : bitLen ≤ bytes.length * 8) :
    selectRule bytes bitLen rules =
      match rules.find? (fun rule => rule.id.bits <+: meaningfulBits bytes bitLen) with
      | some rule => .ok (rule, readerAt bytes bitLen inside rule.id.bitLen)
      | none => fail .noMatchingRule := by
  induction rules with
  | nil => rfl
  | cons rule rules ih =>
    have rest := ih fun other member => fit other (List.mem_cons_of_mem _ member)
    have fits := fit rule List.mem_cons_self
    have length := length_meaningfulBits inside
    rw [selectRule, withBitLen_eq inside, ok_bind, remaining_readerAt, Nat.sub_zero]
    by_cases short : bitLen < rule.id.bitLen
    · have misses : ¬ rule.id.bits <+: meaningfulBits bytes bitLen := by
        intro starts
        have := starts.length_le
        rw [length, rule.id.length_bits] at this
        omega
      simp only [short, ↓reduceIte, rest, List.find?_cons, misses, decide_false]
    · have width : ¬ (rule.id.bitLen = 0 ∨ rule.id.bitLen > 64) := by
        have := fits.positive
        have := fits.narrow
        omega
      have long : rule.id.bitLen ≤ (meaningfulBits bytes bitLen).length := by omega
      have same := rule.id.starts_iff fits long
      simp only [short, ↓reduceIte, BitReader.readBits_run, width, remaining_readerAt,
        Nat.sub_zero, ok_bind, unread_readerAt, List.drop_zero, skip_readerAt,
        Nat.zero_add, rest, List.find?_cons]
      by_cases starts : rule.id.bits <+: meaningfulBits bytes bitLen
      · simp only [same.mpr starts, ↓reduceIte, starts, decide_true]
      · simp only [mt same.mp starts, ↓reduceIte, starts, decide_false]

/-- A bit length beyond the byte string is rejected at the first rule. -/
theorem selectRule_beyond {rules : List Rule} (some : rules ≠ []) (beyond : bitLen > bytes.length * 8) :
    selectRule bytes bitLen rules = fail (.bitOutOfBounds 0 bitLen (bytes.length * 8)) := by
  cases rules with
  | nil => exact absurd rfl some
  | cons rule rules =>
    rw [selectRule, BitReader.withBitLen, dif_pos beyond]
    rfl

theorem find?_of_free {rules : List Rule}
    (free : PrefixFree (rules.map (fun rule => rule.id.bits))) {rule : Rule} (member : rule ∈ rules)
    (starts : rule.id.bits <+: meaningfulBits bytes bitLen) :
    rules.find? (fun rule => rule.id.bits <+: meaningfulBits bytes bitLen) = some rule := by
  cases found : rules.find? (fun rule => rule.id.bits <+: meaningfulBits bytes bitLen) with
  | none => exact absurd starts (by simpa using List.find?_eq_none.mp found rule member)
  | some other =>
    have starts' : other.id.bits <+: meaningfulBits bytes bitLen := by
      simpa using List.find?_some found
    exact congrArg some
      (word_unique free (List.mem_of_find?_eq_some found) member starts' starts)

theorem selectRule_of_starts {rules : List Rule} (fit : ∀ rule ∈ rules, rule.id.Fits)
    (free : PrefixFree (rules.map (fun rule => rule.id.bits))) {rule : Rule} (member : rule ∈ rules)
    (inside : bitLen ≤ bytes.length * 8) (starts : rule.id.bits <+: meaningfulBits bytes bitLen) :
    selectRule bytes bitLen rules = .ok (rule, readerAt bytes bitLen inside rule.id.bitLen) := by
  rw [selectRule_eq fit inside, find?_of_free free member starts]

/-- What the scan does on a byte string, for a list of rules in any order. -/
structure SelectsUniquely (rules : List Rule) (bytes : List UInt8) (bitLen : Nat) : Prop where
  unique : ∀ a ∈ rules, ∀ b ∈ rules, a.id.bits <+: meaningfulBits bytes bitLen →
    b.id.bits <+: meaningfulBits bytes bitLen → a = b
  selected : ∀ inside : bitLen ≤ bytes.length * 8, ∀ rule ∈ rules,
    rule.id.bits <+: meaningfulBits bytes bitLen →
    selectRule bytes bitLen rules = .ok (rule, readerAt bytes bitLen inside rule.id.bitLen)
  unmatched : bitLen ≤ bytes.length * 8 →
    (∀ rule ∈ rules, ¬ rule.id.bits <+: meaningfulBits bytes bitLen) →
    selectRule bytes bitLen rules = fail .noMatchingRule
  beyond : bitLen > bytes.length * 8 → selectRule bytes bitLen rules =
    if rules = [] then fail .noMatchingRule
    else fail (.bitOutOfBounds 0 bitLen (bytes.length * 8))

theorem selectsUniquely {rules : List Rule} (fit : ∀ rule ∈ rules, rule.id.Fits)
    (free : PrefixFree (rules.map (fun rule => rule.id.bits))) (bytes : List UInt8)
    (bitLen : Nat) : SelectsUniquely rules bytes bitLen where
  unique _ ha _ hb startsA startsB := word_unique free ha hb startsA startsB
  selected inside _ member starts := selectRule_of_starts fit free member inside starts
  unmatched inside misses := by
    rw [selectRule_eq fit inside, List.find?_eq_none.mpr fun rule member => by
      simpa using misses rule member]
  beyond past := by
    by_cases empty : rules = []
    · subst empty
      rfl
    · rw [selectRule_beyond empty past, if_neg empty]

/-- The head of a datagram is the identifier of the rule that compress selected. -/
theorem Compressor.selects {c : Compressor} {ctx : RuleContext} (made : Compressor.new ctx = .ok c)
    (fit : ∀ rule ∈ ctx.rules.rules, rule.id.Fits) {direction : Direction} {packet : List UInt8}
    {datagram : CompressedDatagram} (done : c.compress direction packet = .ok datagram) :
    ∃ rule ∈ ctx.rules.rules, rule.id = datagram.ruleId ∧
      datagram.bitLen ≤ datagram.bytes.length * 8 ∧
      rule.id.bits <+: meaningfulBits datagram.bytes datagram.bitLen := by
  obtain ⟨rfl, built⟩ := new_built made
  rcases compress_ok fit built done with ⟨k, rule, state, -, own⟩ | ⟨k, rule, placed, -, -, -, written⟩
  · have member := List.mem_of_getElem? own.stands.placed
    obtain ⟨w, shape, body, bits, -⟩ := leafCandidate_carries (fit rule member) own.made
    cases shape
    refine ⟨rule, member, rfl, bitLen_datagram_le w rule.id, ?_⟩
    have spelled : meaningfulBits (w.datagram rule.id).bytes (w.datagram rule.id).bitLen = w.bits :=
      bits_datagram w rule.id
    rw [spelled, bits]
    exact List.prefix_append _ _
  · have member := List.mem_of_getElem? placed
    obtain ⟨w, written', bits⟩ := noCompressionCandidate_ok (fit rule member) k packet
    rw [written'] at written
    cases written
    refine ⟨rule, member, rfl, bitLen_datagram_le w rule.id, ?_⟩
    have spelled : meaningfulBits (w.datagram rule.id).bytes (w.datagram rule.id).bitLen = w.bits :=
      bits_datagram w rule.id
    rw [spelled, bits]
    exact List.prefix_append _ _

/-- Validation accepts exactly the prefix-free lists; for those, every datagram selects at
    most one rule, whatever the order of the list, and a compressed one its own rule. -/
theorem rule_ids_uniquely_decodable (rules : List Rule) (fit : ∀ rule ∈ rules, rule.id.Fits) :
    (validateRuleIdPrefixes rules = .ok () ↔
      ∀ i j (hi : i < rules.length) (hj : j < rules.length), i ≠ j →
        ¬ (rules[i]).id.bits <+: (rules[j]).id.bits) ∧
    (validateRuleIdPrefixes rules = .ok () →
      (∀ bytes bitLen others, rules.Perm others → SelectsUniquely others bytes bitLen ∧
        (∀ rule, rule ∈ rules ↔ rule ∈ others)) ∧
      (∀ ctx c direction packet datagram, ctx.rules.rules = rules → Compressor.new ctx = .ok c →
        c.compress direction packet = .ok datagram →
        ∃ rule ∈ rules, rule.id = datagram.ruleId ∧
          ∃ inside : datagram.bitLen ≤ datagram.bytes.length * 8,
            selectRule datagram.bytes datagram.bitLen rules =
              .ok (rule, readerAt datagram.bytes datagram.bitLen inside rule.id.bitLen))) := by
  refine ⟨?_, ?_⟩
  · rw [validateRuleIdPrefixes_eq_ok fit, PrefixFree, List.pairwise_map,
      List.pairwise_iff_getElem]
    constructor
    · intro apart i j hi hj differ
      rcases Nat.lt_or_gt_of_ne differ with before | after
      · exact (apart i j hi hj before).1
      · exact (apart j i hj hi after).2
    · intro apart i j hi hj before
      exact ⟨apart i j hi hj (by omega), apart j i hj hi (by omega)⟩
  · intro accepted
    have free := (validateRuleIdPrefixes_eq_ok fit).mp accepted
    refine ⟨?_, ?_⟩
    · intro bytes bitLen others same
      refine ⟨selectsUniquely ?_ (free.perm (same.map _)) bytes bitLen, fun rule => same.mem_iff⟩
      exact fun rule member => fit rule (same.mem_iff.mpr member)
    · intro ctx c direction packet datagram own made done
      subst own
      obtain ⟨rule, member, named, inside, starts⟩ := Compressor.selects made fit done
      exact ⟨rule, member, named, inside, selectRule_of_starts fit free member inside starts⟩

theorem rule_ids_uniquely_decodable_at_pair :
    validateRuleIdPrefixes [⟨⟨0, 1⟩, [], .noCompression⟩, ⟨⟨2, 2⟩, [], .noCompression⟩] = .ok () ∧
      SelectsUniquely [⟨⟨0, 1⟩, [], .noCompression⟩, ⟨⟨2, 2⟩, [], .noCompression⟩] [0x80] 8 := by
  have accepted : validateRuleIdPrefixes
      [⟨⟨0, 1⟩, [], .noCompression⟩, ⟨⟨2, 2⟩, [], .noCompression⟩] = .ok () := rfl
  have fit : ∀ rule ∈ [(⟨⟨0, 1⟩, [], .noCompression⟩ : Rule), ⟨⟨2, 2⟩, [], .noCompression⟩],
      rule.id.Fits := by
    intro rule member
    simp only [List.mem_cons, List.not_mem_nil, or_false] at member
    rcases member with rfl | rfl
    · exact ⟨by decide, by decide, by decide⟩
    · exact ⟨by decide, by decide, by decide⟩
  exact ⟨accepted, (((rule_ids_uniquely_decodable _ fit).2 accepted).1 [0x80] 8 _ (List.Perm.refl _)).1⟩

/-- One rule, one byte and nine bits: the scan answers with neither the rule nor its absence. -/
theorem selectRule_nine_bits_of_one_byte :
    validateRuleIdPrefixes [⟨⟨0, 1⟩, [], .noCompression⟩] = .ok () ∧
      selectRule [0] 9 [⟨⟨0, 1⟩, [], .noCompression⟩] = fail (.bitOutOfBounds 0 9 8) ∧
      selectRule [0] 9 [⟨⟨0, 1⟩, [], .noCompression⟩] ≠ fail .noMatchingRule := by
  have rejected : selectRule [0] 9 [⟨⟨0, 1⟩, [], .noCompression⟩] =
      fail (.bitOutOfBounds 0 9 8) := rfl
  refine ⟨rfl, rejected, ?_⟩
  rw [rejected]
  intro same
  cases same

end SchcCore
