import SchcCore.Compress.Step
import SchcCore.Compress.Traverse
import SchcCore.Decompress.Engine

/- Lengths taken from other fields, in every state that either engine reaches. A byte count
   becomes a bit count by a multiplication that no one checks. -/
namespace SchcCore
open Outcome FieldStore Stream BitList

/-- A length that another field gives: the token length or a previous entry. -/
def FieldLength.Refers (length : FieldLength) : Prop :=
  length = .tokenLength ∨ ∃ entryIndex unit, length = .fromPreviousField entryIndex unit

/-- The number such a length refers to, and what it counts. -/
def countedLength (lengths : LengthResolver) (fields : FieldStore) :
    FieldLength → Option (LengthUnit × Nat)
  | .tokenLength => lengths.tokenLength.map fun bytes => (.bytes, bytes)
  | .fromPreviousField entryIndex unit =>
      (fields.byEntryIndex entryIndex).bind fun value =>
        value.toU64.toOption.map fun count => (unit, count)
  | _ => none

/-- The bits of a count, as a number without bound. -/
def exactBits : LengthUnit × Nat → Nat
  | (.bytes, count) => 8 * count
  | (.bits, count) => count

/-- The length resolves to the exact number of bits, or fails where there is nothing to count. -/
def LengthResolver.Exact (lengths : LengthResolver) (fields : FieldStore) (length : FieldLength) : Prop :=
  match countedLength lengths fields length with
  | some counted => lengths.resolve length fields = .ok (exactBits counted)
  | none => ∃ e, lengths.resolve length fields = fail e

/-- Eight times the count is still a `usize`. -/
def Fits64 (counted : Option (LengthUnit × Nat)) : Prop :=
  ∀ count, counted = some (.bytes, count) → count < 2 ^ 61

/-- The bits of a count as `usize` computes them. -/
def wrappedBits : LengthUnit × Nat → Nat
  | (.bytes, count) => LengthResolver.bytesToBits count
  | (.bits, count) => count

theorem wrappedBits_exact_iff (counted : LengthUnit × Nat) :
    wrappedBits counted = exactBits counted ↔ Fits64 (some counted) := by
  obtain ⟨unit, count⟩ := counted
  unfold Fits64
  cases unit with
  | bytes =>
    simp only [wrappedBits, exactBits, LengthResolver.bytesToBits, Option.some.injEq, Prod.mk.injEq,
      true_and, forall_eq']
    omega
  | bits => simp [wrappedBits, exactBits]

namespace LengthResolver
variable {lengths : LengthResolver} {fields : FieldStore} {length : FieldLength}

theorem resolve_counted {counted : LengthUnit × Nat}
    (found : countedLength lengths fields length = some counted) :
    lengths.resolve length fields = .ok (wrappedBits counted) := by
  cases length with
  | tokenLength =>
    rw [countedLength, Option.map_eq_some_iff] at found
    obtain ⟨bytes, known, same⟩ := found
    rw [resolve, known, ← same]
    rfl
  | fromPreviousField entryIndex unit =>
    rw [countedLength, Option.bind_eq_some_iff] at found
    obtain ⟨value, stored, found⟩ := found
    rw [Option.map_eq_some_iff] at found
    obtain ⟨count, read, same⟩ := found
    have number : value.toU64 = .ok count := by
      cases number : value.toU64 with
      | error halt =>
        rw [number] at read
        cases read
      | ok other =>
        rw [number] at read
        cases read
        rfl
    subst same
    unfold resolve
    dsimp only
    rw [stored]
    dsimp only
    rw [number, ok_bind]
    cases unit <;> rfl
  | fixedBits bits => cases found
  | variableBytes => cases found
  | variableBits => cases found
  | functionSid sid => cases found

theorem resolve_uncounted (refers : length.Refers)
    (absent : countedLength lengths fields length = none) :
    ∃ e, lengths.resolve length fields = fail e := by
  rcases refers with rfl | ⟨entryIndex, unit, rfl⟩
  · rw [countedLength, Option.map_eq_none_iff] at absent
    rw [resolve, absent]
    exact ⟨_, rfl⟩
  · unfold resolve
    dsimp only
    cases stored : fields.byEntryIndex entryIndex with
    | none => exact ⟨_, rfl⟩
    | some value =>
      rw [countedLength, stored, Option.bind_some, Option.map_eq_none_iff] at absent
      rcases safe_cases (FieldValue.safe_toU64 value) with ⟨count, read⟩ | ⟨e, read⟩
      · rw [read] at absent
        cases absent
      · dsimp only
        rw [read]
        exact ⟨e, rfl⟩

/-- A referring length is exact unless its byte count is too large to multiply. -/
theorem exact_iff (refers : length.Refers) :
    lengths.Exact fields length ↔ Fits64 (countedLength lengths fields length) := by
  unfold Exact
  cases found : countedLength lengths fields length with
  | none =>
    constructor
    · intro _ count counted
      cases counted
    · intro _
      exact resolve_uncounted refers found
  | some counted =>
    dsimp only
    rw [resolve_counted found, Except.ok.injEq]
    exact wrappedBits_exact_iff counted

/-- A token length comes from a `u64`. -/
def Bounded (lengths : LengthResolver) : Prop := ∀ n, lengths.tokenLength = some n → n < 2 ^ 64

theorem Bounded.new : Bounded new := by
  intro n known
  cases known

theorem Bounded.setTokenLength (lengths : LengthResolver) {value : FieldValue} {n : Nat}
    (read : value.toU64 = .ok n) : (lengths.setTokenLength n).Bounded := by
  intro m known
  cases known
  exact FieldValue.toU64_lt read

/-- Whatever is counted is a `u64`. -/
theorem Bounded.counted (bounded : lengths.Bounded) {unit : LengthUnit} {count : Nat}
    (found : countedLength lengths fields length = some (unit, count)) : count < 2 ^ 64 := by
  cases length with
  | tokenLength =>
    rw [countedLength, Option.map_eq_some_iff] at found
    obtain ⟨bytes, known, same⟩ := found
    cases same
    exact bounded _ known
  | fromPreviousField entryIndex own =>
    rw [countedLength, Option.bind_eq_some_iff] at found
    obtain ⟨value, -, found⟩ := found
    rw [Option.map_eq_some_iff] at found
    obtain ⟨number, read, same⟩ := found
    cases same
    cases whole : value.toU64 with
    | error halt =>
      rw [whole] at read
      cases read
    | ok other =>
      rw [whole] at read
      cases read
      exact FieldValue.toU64_lt whole
  | fixedBits bits => cases found
  | variableBytes => cases found
  | variableBits => cases found
  | functionSid sid => cases found

end LengthResolver

/- Both engines. -/

theorem updateLengths_bounded {lengths next : LengthResolver} (bounded : lengths.Bounded)
    {field : FieldRef} {value : FieldValue} (done : updateLengths lengths field value = .ok next) :
    next.Bounded := by
  unfold updateLengths at done
  split at done
  · rw [bind_eq_ok] at done
    obtain ⟨n, read, done⟩ := done
    cases done
    exact LengthResolver.Bounded.setTokenLength lengths read
  · cases done
    exact bounded

theorem decodedLengths_bounded {lengths next : LengthResolver} (bounded : lengths.Bounded)
    {field : FieldRef} {value : FieldValue} (done : decodedLengths lengths field value = .ok next) :
    next.Bounded :=
  updateLengths_bounded bounded done

theorem advance_bounded {packet : List UInt8} {direction : Direction} {field : FieldRule}
    {state next : CompressionState} (bounded : state.lengths.Bounded)
    (done : advance packet direction field state = .ok (some next)) : next.lengths.Bounded := by
  unfold advance at done
  split at done
  · cases done
    exact bounded
  · rcases traverseBranch_some.mp done with ⟨-, rfl⟩ | ⟨-, bitLen, value, matched, taken⟩
    · exact bounded
    · exact updateLengths_bounded bounded taken.lengths

theorem runEntries_bounded {packet : List UInt8} {direction : Direction} {entries : List FieldRule}
    {state last : CompressionState} (bounded : state.lengths.Bounded)
    (ran : runEntries packet direction entries state = .ok (some last)) : last.lengths.Bounded := by
  induction entries generalizing state with
  | nil =>
    cases ran
    exact bounded
  | cons field entries ih =>
    obtain ⟨next, advanced, rest⟩ := runEntries_cons.mp ran
    exact ih (advance_bounded bounded advanced) rest

theorem decodeField_bounded {entry : FieldRule} {direction : Direction}
    {provider : Option ExternalValueProvider} {state next : DecodeState} {r r' : BitReader}
    (bounded : state.lengths.Bounded)
    (done : decodeField entry direction provider state r = .ok (next, r')) : next.lengths.Bounded := by
  unfold decodeField at done
  split at done
  · cases done
    exact bounded
  · split at done
    · cases done
      exact bounded
    · dsimp only at done
      split at done
      · cases done
      · split at done
        · cases done
        · simp only [decodeEntry, bind_run, bind_eq_ok] at done
          obtain ⟨_, -, ⟨value, _⟩, -, ⟨lengths, _⟩, known, done⟩ := done
          cases done
          obtain ⟨own, decoded, same⟩ := (bind_eq_ok _ _ _).mp known
          cases same
          exact decodedLengths_bounded bounded decoded

theorem decodeFieldList_bounded {entries : List FieldRule} {direction : Direction}
    {provider : Option ExternalValueProvider} {state last : DecodeState} {r r' : BitReader}
    (bounded : state.lengths.Bounded)
    (ran : decodeFieldList direction provider entries state r = .ok (last, r')) :
    last.lengths.Bounded := by
  induction entries generalizing state r with
  | nil =>
    cases ran
    exact bounded
  | cons entry entries ih =>
    rw [decodeFieldList, bind_run, bind_eq_ok] at ran
    obtain ⟨⟨middle, r''⟩, first, rest⟩ := ran
    exact ih (decodeField_bounded bounded first) rest

/-- What an engine holds after the entries it has gone through, in any run over a packet or
    over a residue. -/
inductive EngineHolds (direction : Direction) (entries : List FieldRule) :
    LengthResolver → FieldStore → Prop
  | compressing {packet state} : runEntries packet direction entries .initial = .ok (some state) →
      EngineHolds direction entries state.lengths state.fields
  | decompressing {provider state reader rest} :
      decodeFieldList direction provider entries .initial reader = .ok (state, rest) →
      EngineHolds direction entries state.lengths state.fields

theorem EngineHolds.bounded {direction : Direction} {entries : List FieldRule}
    {lengths : LengthResolver} {fields : FieldStore}
    (held : EngineHolds direction entries lengths fields) : lengths.Bounded := by
  cases held with
  | compressing ran => exact runEntries_bounded LengthResolver.Bounded.new ran
  | decompressing ran => exact decodeFieldList_bounded LengthResolver.Bounded.new ran

/-- In every state of either engine a length that another field gives counts a `u64` and is
    exact, except where it counts 2^61 bytes or more. -/
theorem length_resolution_exact_iff {direction : Direction} {entries : List FieldRule}
    {lengths : LengthResolver} {fields : FieldStore}
    (held : EngineHolds direction entries lengths fields) {length : FieldLength}
    (refers : length.Refers) :
    (∀ unit count, countedLength lengths fields length = some (unit, count) → count < 2 ^ 64) ∧
      (lengths.Exact fields length ↔ Fits64 (countedLength lengths fields length)) :=
  ⟨fun _ _ found => held.bounded.counted found, LengthResolver.exact_iff refers⟩

/- A rule whose second entry is as many bytes long as the first one says, in 64 bits. -/

def spanFile : RuleFile :=
  ⟨[⟨1, 8, none,
    [⟨"fid-ipv6-devprefix", some 64, none, 1, "bi", .null, "ignore", "value-sent"⟩,
      ⟨"fid-ipv6-appprefix", none, some (.fromPrevious 0 .bytes), 1, "bi", .null, "ignore",
        "value-sent"⟩]⟩]⟩

def spanRegistry : SidRegistry :=
  .ofItems [⟨1, "fid-ipv6-devprefix"⟩, ⟨2, "fid-ipv6-appprefix"⟩, ⟨3, "di-bidirectional"⟩,
    ⟨4, "mo-ignore"⟩, ⟨5, "cda-value-sent"⟩]

def spanCount : FieldRule :=
  ⟨.ipv6 (.known .ipv6DevPrefix), .fixedBits 64, 1, .bidirectional, .none, .ignore, .valueSent, 0⟩

def spanned : FieldRule :=
  ⟨.ipv6 (.known .ipv6AppPrefix), .fromPreviousField 0 .bytes, 1, .bidirectional, .none, .ignore,
    .valueSent, 1⟩

def spanContext : RuleContext := ⟨⟨[⟨⟨1, 8⟩, [spanCount, spanned], .compression⟩], spanRegistry⟩⟩

theorem spanContext_loaded : spanContext.Loaded := by
  have rules : mapIndexed (loadJsonRule spanRegistry) 0 spanFile.rules =
      .ok [⟨⟨1, 8⟩, [spanCount, spanned], .compression⟩] := by
    decide +kernel
  refine .json spanFile spanRegistry ?_
  rw [RuleContext.fromJson, rules]
  rfl

/-- The state after a first entry of eight bytes in the residue. -/
def spanState (bytes : List UInt8) (eight : bytes.length = 8) : DecodeState :=
  ⟨[(⟨.ipv6 (.known .ipv6DevPrefix), 1, 0, .outer⟩, ⟨bytes, 64, by rw [eight], by
      rw [eight, List.drop_of_length_le (by simp [eight])]
      rfl⟩)], .new, .outer⟩

theorem length_resolution_exact_at_one_byte :
    LengthResolver.Exact .new (spanState [0, 0, 0, 0, 0, 0, 0, 1] rfl).fields
      (.fromPreviousField 0 .bytes) := by
  have ran : decodeFieldList .up none [spanCount] .initial (BitReader.new [0, 0, 0, 0, 0, 0, 0, 1]) =
      .ok (spanState [0, 0, 0, 0, 0, 0, 0, 1] rfl,
        (BitReader.new [0, 0, 0, 0, 0, 0, 0, 1]).skip 64) := by decide +kernel
  have counted : countedLength .new (spanState [0, 0, 0, 0, 0, 0, 0, 1] rfl).fields
      (.fromPreviousField 0 .bytes) = some (.bytes, 1) := by decide +kernel
  have small : Fits64 (some (.bytes, 1)) := by
    intro count found
    cases found
    decide
  rw [← counted] at small
  exact (length_resolution_exact_iff (.decompressing ran) (.inr ⟨0, .bytes, rfl⟩)).2.mpr small

/-- A residue that counts 2^61 bytes: the length wraps to no bits at all. -/
theorem wrapped_length_resolved :
    spanContext.Loaded ∧
      decodeFieldList .up none [spanCount] .initial (BitReader.new [0x20, 0, 0, 0, 0, 0, 0, 0]) =
        .ok (spanState [0x20, 0, 0, 0, 0, 0, 0, 0] rfl,
          (BitReader.new [0x20, 0, 0, 0, 0, 0, 0, 0]).skip 64) ∧
      LengthResolver.resolve .new spanned.length (spanState [0x20, 0, 0, 0, 0, 0, 0, 0] rfl).fields =
        .ok 0 ∧
      ¬ LengthResolver.Exact .new (spanState [0x20, 0, 0, 0, 0, 0, 0, 0] rfl).fields
        spanned.length := by
  have counted : countedLength .new (spanState [0x20, 0, 0, 0, 0, 0, 0, 0] rfl).fields
      spanned.length = some (.bytes, 2 ^ 61) := by decide +kernel
  refine ⟨spanContext_loaded, by decide +kernel, by decide +kernel, ?_⟩
  intro exact
  have small := (LengthResolver.exact_iff (.inr ⟨0, .bytes, rfl⟩)).mp exact
  exact absurd (small _ counted) (by decide)

end SchcCore
