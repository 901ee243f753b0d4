import SchcCore.Decompress.Framing

/- Decoding byte-padded datagrams. Every permissible bit length is tried; at most one of them
   frames the datagram, so the trial either finds the exact decoding or there is none. -/
namespace SchcCore
open Outcome BitList FieldStore

/-- A bit length that pads a byte string by less than a byte of zero bits. -/
def Permissible (compressed : List UInt8) (bitLen : Nat) : Prop :=
  bitLen ≤ compressed.length * 8 ∧ compressed.length * 8 ≤ bitLen + 7 ∧
    ∀ bit ∈ (ofBytes compressed).drop bitLen, bit = false

theorem zeroPaddingBits_iff (bytes : List UInt8) (bitLen : Nat) :
    zeroPaddingBits bytes bitLen ↔ ∀ bit ∈ (ofBytes bytes).drop bitLen, bit = false := by
  have clear : ∀ i, (inside : i < (ofBytes bytes).length) →
      ((Bytes.byteAt bytes (i / 8) >>> UInt8.ofNat (7 - i % 8)) &&& 1 = 0 ↔
        (ofBytes bytes)[i] = false) := by
    intro i inside
    have byte : i / 8 < bytes.length := by
      rw [length_ofBytes] at inside
      omega
    have here : Bytes.byteAt bytes (i / 8) = bytes[i / 8] := by
      rw [Bytes.byteAt, List.getD_eq_getElem _ _ byte]
    rw [getElem_ofBytes _ _ inside byte, here, BitReader.bit_of_byte]
    cases (bytes[i / 8]).toNat.testBit (7 - i % 8) <;> simp
  simp only [zeroPaddingBits, List.all_eq_true, decide_eq_true_eq, List.mem_iff_getElem]
  constructor
  · rintro zeros bit ⟨k, inside, rfl⟩
    rw [List.getElem_drop]
    have bound : bitLen + k < (ofBytes bytes).length := by
      rw [List.length_drop] at inside
      omega
    have count : bitLen + k < bytes.length * 8 := by
      rw [length_ofBytes] at bound
      omega
    refine (clear (bitLen + k) bound).mp (zeros ⟨bitLen + k, count⟩ ⟨k, ?_, ?_⟩)
    · rw [List.length_drop, List.length_finRange]
      omega
    · rw [List.getElem_drop, List.getElem_finRange]
      rfl
  · rintro zeros i ⟨k, inside, rfl⟩
    rw [List.length_drop, List.length_finRange] at inside
    rw [List.getElem_drop, List.getElem_finRange]
    have bound : bitLen + k < (ofBytes bytes).length := by
      rw [length_ofBytes]
      omega
    refine (clear (bitLen + k) bound).mpr (zeros _ ⟨k, ?_, ?_⟩)
    · rw [List.length_drop]
      omega
    · rw [List.getElem_drop]

namespace Decompressor
variable {d : Decompressor} {position : Position} {compressed : List UInt8}

/-- A bit length that the loop over these paddings decodes. -/
def Tried (compressed : List UInt8) (paddings : List Nat) (bitLen : Nat) : Prop :=
  ∃ paddingBits ∈ paddings, (paddingBits = 0 ∨ zeroPaddingBits compressed bitLen) ∧
    bitLen = compressed.length * 8 - paddingBits

theorem tried_iff (bitLen : Nat) :
    Tried compressed (List.range (min (compressed.length * 8) 7 + 1)) bitLen ↔
      Permissible compressed bitLen := by
  constructor
  · rintro ⟨paddingBits, member, zeros, rfl⟩
    rw [List.mem_range] at member
    refine ⟨by omega, by omega, ?_⟩
    rcases zeros with rfl | zeros
    · rw [Nat.sub_zero, List.drop_of_length_le (by simp [Nat.mul_comm])]
      simp
    · exact (zeroPaddingBits_iff _ _).mp zeros
  · rintro ⟨inside, near, zeros⟩
    refine ⟨compressed.length * 8 - bitLen, ?_, .inr ((zeroPaddingBits_iff _ _).mpr zeros), ?_⟩
    · rw [List.mem_range]
      omega
    · omega

theorem tried_cons {paddingBits : Nat} {paddings : List Nat} {bitLen : Nat} :
    Tried compressed (paddingBits :: paddings) bitLen ↔
      ((paddingBits = 0 ∨ zeroPaddingBits compressed bitLen) ∧
        bitLen = compressed.length * 8 - paddingBits) ∨ Tried compressed paddings bitLen := by
  simp [Tried]

/-- The loop collects exactly the successes among the bit lengths it tries. -/
theorem tryPaddings_ok {paddings : List Nat} {trials last : PaddingTrials}
    (done : d.tryPaddings position compressed paddings trials = .ok last) (bitLen : Nat)
    (packet : DecompressedDatagram) :
    (bitLen, packet) ∈ last.successes ↔ (bitLen, packet) ∈ trials.successes ∨
      (Tried compressed paddings bitLen ∧
        d.decompressWithBitLenDetailed position compressed bitLen = .ok packet) := by
  induction paddings generalizing trials with
  | nil =>
    cases done
    simp [Tried]
  | cons paddingBits paddings ih =>
    rw [tryPaddings] at done
    rw [tried_cons]
    split at done
    · rename_i skipped
      rw [ih done]
      constructor
      · rintro (before | ⟨later, decoded⟩)
        · exact .inl before
        · exact .inr ⟨.inr later, decoded⟩
      · rintro (before | ⟨⟨zeros, rfl⟩ | later, decoded⟩)
        · exact .inl before
        · exact absurd zeros (by simpa [skipped.1] using skipped.2)
        · exact .inr ⟨later, decoded⟩
    · rename_i tried
      have here : paddingBits = 0 ∨
          zeroPaddingBits compressed (compressed.length * 8 - paddingBits) := by
        rw [not_and_or, not_not, not_not] at tried
        exact tried
      split at done
      · rename_i found decoded
        rw [ih done, List.mem_append, List.mem_singleton]
        constructor
        · rintro ((before | same) | ⟨later, decoded⟩)
          · exact .inl before
          · cases same
            exact .inr ⟨.inl ⟨here, rfl⟩, decoded⟩
          · exact .inr ⟨.inr later, decoded⟩
        · rintro (before | ⟨⟨-, rfl⟩ | later, decoded'⟩)
          · exact .inl (.inl before)
          · rw [decoded] at decoded'
            cases decoded'
            exact .inl (.inr rfl)
          · exact .inr ⟨later, decoded'⟩
      · rename_i error decoded
        rw [ih done]
        constructor
        · rintro (before | ⟨later, decoded⟩)
          · exact .inl before
          · exact .inr ⟨.inr later, decoded⟩
        · rintro (before | ⟨⟨-, rfl⟩ | later, decoded'⟩)
          · exact .inl before
          · rw [decoded] at decoded'
            cases decoded'
          · exact .inr ⟨later, decoded'⟩
      · cases done

theorem tryPaddings_safe {paddings : List Nat} (trials : PaddingTrials)
    (safe : ∀ bitLen, Tried compressed paddings bitLen →
      Safe (d.decompressWithBitLenDetailed position compressed bitLen)) :
    ∃ last, d.tryPaddings position compressed paddings trials = .ok last := by
  induction paddings generalizing trials with
  | nil => exact ⟨trials, rfl⟩
  | cons paddingBits paddings ih =>
    have rest := fun trials => ih trials fun bitLen later => safe bitLen (tried_cons.mpr (.inr later))
    rw [tryPaddings]
    split
    · exact rest _
    · rename_i tried
      rw [not_and_or, not_not, not_not] at tried
      have here := safe _ (tried_cons.mpr (.inl ⟨tried, rfl⟩))
      split
      · exact rest _
      · exact rest _
      · rename_i site panicked
        exact absurd panicked (here site)

theorem tryPaddings_panics {paddings : List Nat} (trials : PaddingTrials) {bitLen : Nat}
    (tried : Tried compressed paddings bitLen) {site : PanicSite}
    (panicked : d.decompressWithBitLenDetailed position compressed bitLen = panicAt site) :
    ∃ site, d.tryPaddings position compressed paddings trials = panicAt site := by
  induction paddings generalizing trials with
  | nil => simp [Tried] at tried
  | cons paddingBits paddings ih =>
    rw [tryPaddings]
    rcases tried_cons.mp tried with ⟨here, rfl⟩ | later
    · have runs : ¬ (paddingBits ≠ 0 ∧
          ¬ zeroPaddingBits compressed (compressed.length * 8 - paddingBits) = true) := by
        rw [not_and_or, not_not, not_not]
        exact here
      rw [if_neg runs, panicked]
      exact ⟨site, rfl⟩
    · split
      · exact ih _ later
      · split
        · exact ih _ later
        · exact ih _ later
        · exact ⟨_, rfl⟩

/-- Equal lengths are one length. -/
theorem uniquePaddingBitLength_same {lengths : List Nat} {bitLen : Nat} (some : lengths ≠ [])
    (same : ∀ n ∈ lengths, n = bitLen) : uniquePaddingBitLength lengths = .ok bitLen := by
  have sorted : lengths.insertionSort (· ≤ ·) = List.replicate lengths.length bitLen := by
    rw [List.eq_replicate_iff]
    refine ⟨List.length_insertionSort _ _, ?_⟩
    intro n member
    exact same n ((List.mem_insertionSort _).mp member)
  have collapsed : ∀ k, (List.replicate k bitLen).destutter' (· ≠ ·) bitLen = [bitLen] := by
    intro k
    induction k with
    | zero => rfl
    | succ k ih => simpa [List.replicate_succ, List.destutter'] using ih
  obtain ⟨k, size⟩ := Nat.exists_eq_succ_of_ne_zero (mt List.length_eq_zero_iff.mp some)
  rw [uniquePaddingBitLength, sorted, size, List.replicate_succ, List.destutter, collapsed]

end Decompressor

/-- Decoding a padded byte string and decoding with the exact bit length tell the same. -/
structure AgreesWithExact (d : Decompressor) (position : Position) (compressed : List UInt8) :
    Prop where
  unique : ∀ n m a b, Permissible compressed n → Permissible compressed m →
    d.decompressWithBitLenDetailed position compressed n = .ok a →
    d.decompressWithBitLenDetailed position compressed m = .ok b → n = m
  found : ∀ n a, Permissible compressed n →
    d.decompressWithBitLenDetailed position compressed n = .ok a →
    d.decompressDetailed position compressed = .ok a
  missing : (∀ n a, Permissible compressed n →
    d.decompressWithBitLenDetailed position compressed n ≠ .ok a) →
    ∃ error, d.decompressDetailed position compressed = fail error
  unambiguous : ∀ trials lengths,
    d.tryPaddings position compressed (List.range (min (compressed.length * 8) 7 + 1))
      ⟨[], none⟩ = .ok trials →
    uniquePaddingBitLength (trials.successes.map (fun success => success.1)) ≠
      fail (.ambiguousPadding lengths)

namespace Decompressor
variable {d : Decompressor} {position : Position} {compressed : List UInt8}

theorem framed_unique (valid : d.context.Valid) {n m : Nat} (first : Permissible compressed n)
    (second : Permissible compressed m) {a b : Frame}
    (read : d.readFrame position compressed n = .ok a)
    (read' : d.readFrame position compressed m = .ok b) : n = m := by
  obtain ⟨inside, near, -⟩ := first
  obtain ⟨inside', near', -⟩ := second
  rcases Nat.le_total n m with ordered | ordered
  · exact readFrame_unique valid ordered (by omega) inside' read read'
  · exact (readFrame_unique valid ordered (by omega) inside read' read).symm

theorem framed_of_decoded {n : Nat} {a : DecompressedDatagram}
    (decoded : d.decompressWithBitLenDetailed position compressed n = .ok a) :
    ∃ frame, d.readFrame position compressed n = .ok frame := by
  rw [decompress_eq_finish, bind_eq_ok] at decoded
  obtain ⟨frame, read, -⟩ := decoded
  exact ⟨frame, read⟩

/-- Decoding at a bit length returns unless the frame read there overflows. -/
theorem safe_decompress {n : Nat} (returns : ∀ frame,
    d.readFrame position compressed n = .ok frame → frame.overflows = false) :
    Safe (d.decompressWithBitLenDetailed position compressed n) := by
  rw [decompress_eq_finish]
  exact safe_bind (safe_readFrame n) fun frame read => Frame.safe_finish (returns frame read) _

theorem decoded_unique (valid : d.context.Valid) {n m : Nat} (first : Permissible compressed n)
    (second : Permissible compressed m) {a b : DecompressedDatagram}
    (decoded : d.decompressWithBitLenDetailed position compressed n = .ok a)
    (decoded' : d.decompressWithBitLenDetailed position compressed m = .ok b) : n = m := by
  obtain ⟨_, read⟩ := framed_of_decoded decoded
  obtain ⟨_, read'⟩ := framed_of_decoded decoded'
  exact framed_unique valid first second read read'

/-- A success at one bit length is the verdict on all of them. -/
theorem decompressDetailed_found (valid : d.context.Valid) {n : Nat} (permissible : Permissible compressed n)
    {a : DecompressedDatagram}
    (decoded : d.decompressWithBitLenDetailed position compressed n = .ok a) :
    d.decompressDetailed position compressed = .ok a := by
  obtain ⟨frame, read⟩ := framed_of_decoded decoded
  have safe : ∀ m, Tried compressed (List.range (min (compressed.length * 8) 7 + 1)) m →
      Safe (d.decompressWithBitLenDetailed position compressed m) := by
    intro m candidate
    have permissible' := (tried_iff m).mp candidate
    refine safe_decompress fun other read' => ?_
    obtain rfl := framed_unique valid permissible permissible' read read'
    rw [read] at read'
    cases read'
    by_contra overflows
    rw [decompress_eq_finish, read, ok_bind,
      Frame.finish_overflows (by simpa using overflows)] at decoded
    cases decoded
  obtain ⟨last, tried⟩ := tryPaddings_safe ⟨[], none⟩ safe
  have collected := tryPaddings_ok tried
  have here : (n, a) ∈ last.successes :=
    (collected n a).mpr (.inr ⟨(tried_iff n).mpr permissible, decoded⟩)
  have only : ∀ success ∈ last.successes, success = (n, a) := by
    rintro ⟨m, b⟩ member
    rcases (collected m b).mp member with before | ⟨candidate, decoded'⟩
    · simp at before
    · obtain rfl := decoded_unique valid permissible ((tried_iff m).mp candidate) decoded decoded'
      rw [decoded] at decoded'
      cases decoded'
      rfl
  have some : last.successes ≠ [] := List.ne_nil_of_mem here
  have selected : uniquePaddingBitLength (last.successes.map (fun success => success.1)) = .ok n := by
    refine uniquePaddingBitLength_same (by simpa using some) ?_
    intro m member
    obtain ⟨success, inside, rfl⟩ := List.mem_map.mp member
    rw [only success inside]
  rw [decompressDetailed, tried, ok_bind, selectTrial, if_neg some, selected, ok_bind]
  cases search : last.successes.find? (fun success => success.1 = n) with
  | none => simpa using List.find?_eq_none.mp search (n, a) here
  | some success => rw [only success (List.mem_of_find?_eq_some search)]

theorem uniquePadding_unambiguous (valid : d.context.Valid) {trials : PaddingTrials}
    (tried : d.tryPaddings position compressed (List.range (min (compressed.length * 8) 7 + 1))
      ⟨[], none⟩ = .ok trials) (lengths : List Nat) :
    uniquePaddingBitLength (trials.successes.map (fun success => success.1)) ≠
      fail (.ambiguousPadding lengths) := by
  have collected := tryPaddings_ok tried
  cases first : trials.successes with
  | nil =>
    rw [List.map_nil]
    intro ambiguous
    cases ambiguous
  | cons success rest =>
    obtain ⟨n, a⟩ := success
    have here : (n, a) ∈ trials.successes := first ▸ List.mem_cons_self
    rw [← first]
    have selected : uniquePaddingBitLength (trials.successes.map (fun success => success.1)) =
        .ok n := by
      refine uniquePaddingBitLength_same (by simp [first]) ?_
      intro m member
      obtain ⟨⟨_, b⟩, inside, rfl⟩ := List.mem_map.mp member
      rcases (collected n a).mp here with before | ⟨candidate, decoded⟩
      · simp at before
      · rcases (collected _ b).mp inside with before | ⟨candidate', decoded'⟩
        · simp at before
        · exact decoded_unique valid ((tried_iff _).mp candidate') ((tried_iff n).mp candidate)
            decoded' decoded
    rw [selected]
    intro ambiguous
    cases ambiguous

theorem decompressDetailed_missing
    (returns : ∀ n, Permissible compressed n → ∀ frame,
      d.readFrame position compressed n = .ok frame → frame.overflows = false)
    (none : ∀ n a, Permissible compressed n →
      d.decompressWithBitLenDetailed position compressed n ≠ .ok a) :
    ∃ error, d.decompressDetailed position compressed = fail error := by
  have safe : ∀ m, Tried compressed (List.range (min (compressed.length * 8) 7 + 1)) m →
      Safe (d.decompressWithBitLenDetailed position compressed m) :=
    fun m candidate => safe_decompress (returns m ((tried_iff m).mp candidate))
  obtain ⟨last, tried⟩ := tryPaddings_safe ⟨[], .none⟩ safe
  have empty : last.successes = [] := by
    rw [List.eq_nil_iff_forall_not_mem]
    rintro ⟨m, b⟩ member
    rcases (tryPaddings_ok tried m b).mp member with before | ⟨candidate, decoded⟩
    · simp at before
    · exact none m b ((tried_iff m).mp candidate) decoded
  exact ⟨_, by rw [decompressDetailed, tried, ok_bind, selectTrial, if_pos empty]⟩

/-- Padded decoding agrees with exact decoding on a byte string exactly when no permissible
    bit length frames fields that nest ICMPv6 errors without end. -/
theorem padded_decoding_agrees_iff {ctx : RuleContext} (loaded : ctx.Loaded)
    (provider : Option ExternalValueProvider) (position : Position) (compressed : List UInt8) :
    AgreesWithExact ⟨ctx, provider⟩ position compressed ↔
      ∀ n, Permissible compressed n → ∀ frame,
        readFrame ⟨ctx, provider⟩ position compressed n = .ok frame → frame.overflows = false := by
  have valid := loaded.valid
  constructor
  · intro agrees n permissible frame read
    by_contra overflows
    have panicked : decompressWithBitLenDetailed ⟨ctx, provider⟩ position compressed n =
        panicAt .stackOverflow := by
      rw [decompress_eq_finish, read, ok_bind, Frame.finish_overflows (by simpa using overflows)]
    have none : ∀ m a, Permissible compressed m →
        decompressWithBitLenDetailed ⟨ctx, provider⟩ position compressed m ≠ .ok a := by
      intro m a permissible' decoded
      obtain ⟨_, read'⟩ := framed_of_decoded decoded
      obtain rfl := framed_unique valid permissible permissible' read read'
      rw [panicked] at decoded
      cases decoded
    obtain ⟨error, failed⟩ := agrees.missing none
    obtain ⟨site, overflowed⟩ := tryPaddings_panics ⟨[], .none⟩ ((tried_iff n).mpr permissible) panicked
    rw [decompressDetailed, overflowed] at failed
    cases failed
  · intro returns
    exact
      { unique := fun n m a b first second one other => decoded_unique valid first second one other
        found := fun n a permissible decoded => decompressDetailed_found valid permissible decoded
        missing := decompressDetailed_missing returns
        unambiguous := fun trials lengths tried => uniquePadding_unambiguous valid tried lengths }

theorem padded_decoding_agrees_at_wrapped_byte :
    AgreesWithExact ⟨wrapperContext, none⟩ .core [0x30, 0x10] := by
  refine (padded_decoding_agrees_iff wrapperContext_loaded none .core _).mpr ?_
  have each : ∀ n < 17, (match readFrame ⟨wrapperContext, none⟩ .core [0x30, 0x10] n with
      | .ok frame => frame.overflows
      | .error _ => false) = false := by decide +kernel
  intro n permissible frame read
  have inside := permissible.1
  simp only [List.length_cons, List.length_nil] at inside
  have here := each n (by omega)
  rw [read] at here
  exact here

end Decompressor

/- A rule for an ICMPv6 error that carries an ICMPv6 error: each entry has a fixed value, and
   the five of the embedded packet repeat those of the outer one. -/

def fixedJson (field : String) (bits position : Nat) (hex : String) : JsonField :=
  ⟨field, some bits, none, position, "bi", .string hex, "equal", "not-sent"⟩

def fixedEntry (field : FieldRef) (bits position entryIndex : Nat) (target : List UInt8) :
    FieldRule :=
  ⟨field, .fixedBits bits, position, .bidirectional, .bytes target, .equal, .notSent, entryIndex⟩

def nestedFile : RuleFile :=
  ⟨[⟨1, 8, none,
    [fixedJson "fid-ipv6-version" 4 1 "06", fixedJson "fid-ipv6-nextheader" 8 1 "3a",
      fixedJson "fid-icmpv6-type" 8 1 "01", fixedJson "fid-icmpv6-code" 8 1 "00",
      fixedJson "fid-unused" 32 1 "00000000", fixedJson "fid-ipv6-version" 4 2 "06",
      fixedJson "fid-ipv6-nextheader" 8 2 "3a", fixedJson "fid-icmpv6-type" 8 2 "01",
      fixedJson "fid-icmpv6-code" 8 2 "00", fixedJson "fid-unused" 32 2 "00000000"]⟩]⟩

def nestedRegistry : SidRegistry :=
  .ofItems [⟨2860, "fid-ipv6-version"⟩, ⟨2866, "fid-ipv6-nextheader"⟩, ⟨2810, "fid-icmpv6-type"⟩,
    ⟨2811, "fid-icmpv6-code"⟩, ⟨2799, "fid-unused"⟩, ⟨2880, "di-bidirectional"⟩,
    ⟨2900, "mo-equal"⟩, ⟨2920, "cda-not-sent"⟩]

def nestedRule : Rule :=
  ⟨⟨1, 8⟩,
    [fixedEntry (.ipv6 (.known .ipv6Version)) 4 1 0 [6],
      fixedEntry (.ipv6 (.known .ipv6NextHeader)) 8 1 1 [58],
      fixedEntry (.icmpv6 (.known .icmpv6Type)) 8 1 2 [1],
      fixedEntry (.icmpv6 (.known .icmpv6Code)) 8 1 3 [0],
      fixedEntry .unused 32 1 4 [0, 0, 0, 0],
      fixedEntry (.ipv6 (.known .ipv6Version)) 4 2 5 [6],
      fixedEntry (.ipv6 (.known .ipv6NextHeader)) 8 2 6 [58],
      fixedEntry (.icmpv6 (.known .icmpv6Type)) 8 2 7 [1],
      fixedEntry (.icmpv6 (.known .icmpv6Code)) 8 2 8 [0],
      fixedEntry .unused 32 2 9 [0, 0, 0, 0]], .compression⟩

def nestedContext : RuleContext := ⟨⟨[nestedRule], nestedRegistry⟩⟩

theorem nestedContext_loaded : nestedContext.Loaded := by
  have rules : mapIndexed (loadJsonRule nestedRegistry) 0 nestedFile.rules = .ok [nestedRule] := by
    decide +kernel
  refine .json nestedFile nestedRegistry ?_
  rw [RuleContext.fromJson, rules]
  rfl

/-- No bit length of the one-byte datagram decodes, and the padded decoding does not return. -/
theorem nested_datagram_overflows :
    nestedContext.Loaded ∧
      Decompressor.decompressDetailed ⟨nestedContext, none⟩ .core [1] = panicAt .stackOverflow ∧
      ¬ AgreesWithExact ⟨nestedContext, none⟩ .core [1] := by
  have exact : Decompressor.decompressWithBitLenDetailed ⟨nestedContext, none⟩ .core [1] 8 =
      panicAt .stackOverflow := by decide +kernel
  have padded : Decompressor.decompressDetailed ⟨nestedContext, none⟩ .core [1] =
      panicAt .stackOverflow := by decide +kernel
  refine ⟨nestedContext_loaded, padded, fun agrees => ?_⟩
  obtain ⟨error, failed⟩ := agrees.missing fun n a permissible decoded => by
    obtain ⟨inside, near, zeros⟩ := permissible
    have all : n = 8 := by
      by_contra shorter
      simp only [List.length_singleton] at inside
      have spelled : ofBytes [1] = List.replicate 7 false ++ [true] := by decide
      rw [spelled, List.drop_append_of_le_length (by simp; omega)] at zeros
      exact absurd (zeros true (by simp)) (by decide)
    subst all
    rw [exact] at decoded
    cases decoded
  rw [padded] at failed
  cases failed

end SchcCore
