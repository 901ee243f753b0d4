import SchcCore.Bit.Reader
import SchcCore.Lib.Method

/- The bit writer and the bit reader as mutable objects, statement by statement: every
   method acts on plain fields and leaves them behind also when it fails. A session is any
   sequence of calls on any number of writers and readers. -/
namespace SchcCore
open BitList Outcome Method Stream

structure WriterState where
  bytes : List UInt8
  bitLen : Nat
  deriving DecidableEq, Repr

namespace WriterState

abbrev Write (α : Type) := Method WriterState SchcError PanicSite α

def new : WriterState := ⟨[], 0⟩

/-- `self.bytes[index] = f(self.bytes[index])`, where the index can be out of range. -/
def updateByte (index : Nat) (f : UInt8 → UInt8) : Write Unit := do
  let w ← get
  match w.bytes[index]? with
  | some byte => set { w with bytes := w.bytes.set index (f byte) }
  | none => throw (.panic .index)

def writeBit (bit : Bool) : Write Unit := do
  let w ← get
  doWhen (w.bitLen % 8 = 0) (set { w with bytes := w.bytes ++ [0] })
  doWhen bit (updateByte (w.bitLen / 8) (· ||| (1 <<< UInt8.ofNat (7 - w.bitLen % 8))))
  modify fun w => { w with bitLen := w.bitLen + 1 }

def writeShifts (value : Nat) : Nat → Write Unit
  | 0 => pure ()
  | shift + 1 => do
      writeBit ((value >>> shift) &&& 1 != 0)
      writeShifts value shift

def writeBits (value bits : Nat) : Write Unit := do
  lift (BitWriter.validateBitWidth "write_bits" bits)
  doWhen (¬ BitWriter.valueFits value bits)
    (throw (.fail (.invalidBitLength "write_bits" bits)))
  writeShifts value bits

/-- `if bits % 8 != 0 { let last = bytes.len() - 1; bytes[last] &= u8::MAX << (8 - bits % 8) }` -/
def maskLast (bits : Nat) : Write Unit := do
  let w ← get
  doWhen (bits % 8 ≠ 0)
    (updateByte (w.bytes.length - 1) (· &&& (255 <<< UInt8.ofNat (8 - bits % 8))))

def truncateBits (bits : Nat) : Write Unit := do
  let w ← get
  doWhen (bits > w.bitLen)
    (throw (.fail (.bitOutOfBounds w.bitLen (bits - w.bitLen) 0)))
  modify fun w => { w with bitLen := bits }
  modify fun w => { w with bytes := w.bytes.take ((bits + 7) / 8) }
  maskLast bits

/-- The clone that `to_vec` returns is cut and masked, not the writer itself. -/
def toVec : Write (List UInt8) := do
  let w ← get
  let (done, clone) := call (maskLast w.bitLen) { w with bytes := w.bytes.take ((w.bitLen + 7) / 8) }
  lift done
  pure clone.bytes

end WriterState

structure ReaderState where
  bytes : List UInt8
  position : Nat
  bitLen : Nat
  deriving DecidableEq, Repr

namespace ReaderState

abbrev Read (α : Type) := Method ReaderState SchcError PanicSite α

def withBitLen (bytes : List UInt8) (bitLen : Nat) : Result ReaderState :=
  if bitLen > bytes.length * 8 then fail (.bitOutOfBounds 0 bitLen (bytes.length * 8))
  else .ok ⟨bytes, 0, bitLen⟩

def remaining (r : ReaderState) : Nat := r.bitLen - r.position

def ensureAvailable (bits : Nat) : Read Unit := do
  let r ← get
  doWhen (bits > r.remaining) (throw (.fail (.bitOutOfBounds r.position bits r.remaining)))

def readBit : Read UInt8 := do
  let r ← get
  match r.bytes[r.position / 8]? with
  | some byte =>
      set { r with position := r.position + 1 }
      pure ((byte >>> UInt8.ofNat (7 - r.position % 8)) &&& 1)
  | none => throw (.panic .index)

def readBitsLoop : Nat → Nat → Read Nat
  | 0, value => pure value
  | bits + 1, value => do
      let bit ← readBit
      readBitsLoop bits ((value <<< 1) ||| bit.toNat)

def readBits (bits : Nat) : Read Nat := do
  lift (BitWriter.validateBitWidth "read_bits" bits)
  ensureAvailable bits
  readBitsLoop bits 0

def paddedLoop : Nat → Nat → List UInt8 → Read (List UInt8)
  | 0, _, out => pure out
  | bits + 1, bitIndex, out => do
      let bit ← readBit
      if bit = 1 then
        match out[bitIndex / 8]? with
        | some byte =>
            paddedLoop bits (bitIndex + 1)
              (out.set (bitIndex / 8) (byte ||| (1 <<< UInt8.ofNat (7 - bitIndex % 8))))
        | none => throw (.panic .index)
      else paddedLoop bits (bitIndex + 1) out

def readBytesPadded (bits : Nat) : Read (List UInt8) := do
  ensureAvailable bits
  paddedLoop bits 0 (List.replicate ((bits + 7) / 8) 0)

def copyLoop : Nat → Method (ReaderState × WriterState) SchcError PanicSite Unit
  | 0 => pure ()
  | bits + 1 => do
      let bit ← onFst readBit
      onSnd (WriterState.writeBit (bit != 0))
      copyLoop bits

def copyTo (bits : Nat) : Method (ReaderState × WriterState) SchcError PanicSite Unit := do
  onFst (ensureAvailable bits)
  copyLoop bits

end ReaderState

/-- The plain fields of a writer. -/
def BitWriter.state (w : BitWriter) : WriterState := ⟨w.bytes, w.bitLen⟩

/-- The plain fields of a reader. -/
def BitReader.state (r : BitReader) : ReaderState := ⟨r.bytes, r.position, r.bitLen⟩

namespace WriterState

theorem call_updateByte {w : WriterState} {index : Nat} (inside : index < w.bytes.length)
    (f : UInt8 → UInt8) :
    call (updateByte index f) w = (.ok (), { w with bytes := w.bytes.set index (f w.bytes[index]) }) := by
  rw [updateByte, call_get_bind, List.getElem?_eq_getElem inside]
  rfl

/-- In a writer that keeps its invariant the indexed byte exists. -/
theorem call_writeBit (bit : Bool) (w : BitWriter) :
    call (writeBit bit) w.state = (.ok (), (w.writeBit bit).state) := by
  have grown : call (doWhen (w.bitLen % 8 = 0) (set { w.state with bytes := w.bytes ++ [0] } : Write Unit))
      w.state = (.ok (), ⟨w.grow, w.bitLen⟩) := by
    unfold BitWriter.grow
    by_cases aligned : w.bitLen % 8 = 0
    · rw [call_doWhen_of aligned, if_pos aligned]
      rfl
    · rw [call_doWhen_of_not aligned, if_neg aligned]
      rfl
  have written : call (doWhen bit
      (updateByte (w.bitLen / 8) (· ||| (1 <<< UInt8.ofNat (7 - w.bitLen % 8))))) ⟨w.grow, w.bitLen⟩ =
      (.ok (), ⟨w.pushed bit, w.bitLen⟩) := by
    cases bit
    · rfl
    · have inside : w.bitLen / 8 < w.grow.length := by
        rw [BitWriter.length_grow]
        omega
      rw [call_doWhen_of rfl, call_updateByte inside]
      rfl
  rw [writeBit, call_get_bind]
  exact (call_bind_ok grown).trans (call_bind_ok written)

theorem call_writeShifts (value shift : Nat) (w : BitWriter) :
    call (writeShifts value shift) w.state = (.ok (), (w.writeShifts value shift).state) := by
  induction shift generalizing w with
  | zero => rfl
  | succ shift ih =>
    rw [writeShifts, call_bind_ok (call_writeBit _ w)]
    exact ih _

theorem call_writeBits_ok {value bits : Nat} {w w' : BitWriter}
    (written : w.writeBits value bits = .ok w') :
    call (writeBits value bits) w.state = (.ok (), w'.state) := by
  simp only [BitWriter.writeBits, bind_eq_ok, reject_eq_ok (fail_ne_ok _)] at written
  obtain ⟨_, valid, fits, same⟩ := written
  cases same
  rw [writeBits, call_bind_ok (by rw [call_lift, valid]), call_bind_ok (call_doWhen_of_not fits _ _)]
  exact call_writeShifts value bits w

theorem call_writeBits_error {value bits : Nat} {w : BitWriter}
    {halt : Halt SchcError PanicSite} (refused : w.writeBits value bits = .error halt) :
    call (writeBits value bits) w.state = (.error halt, w.state) := by
  rw [writeBits]
  cases valid : BitWriter.validateBitWidth "write_bits" bits with
  | error early =>
    rw [BitWriter.writeBits, valid] at refused
    cases refused
    exact call_bind_error (call_lift _ _)
  | ok done =>
    rw [BitWriter.writeBits, valid, ok_bind] at refused
    rw [call_bind_ok (call_lift _ _)]
    split at refused
    · rename_i unfit
      cases refused
      exact call_bind_error (call_doWhen_of unfit _ _)
    · cases refused

/-- Where the masked length is ragged, the last byte exists. -/
theorem call_maskLast (bytes : List UInt8) (bitLen : Nat) (size : bytes.length = (bitLen + 7) / 8) :
    call (maskLast bitLen) ⟨bytes, bitLen⟩ = (.ok (), ⟨maskTail bytes bitLen, bitLen⟩) := by
  unfold maskTail
  rw [maskLast, call_get_bind]
  by_cases ragged : bitLen % 8 ≠ 0
  · have inside : bytes.length - 1 < bytes.length := by omega
    rw [call_doWhen_of ragged, call_updateByte inside, if_pos ragged,
      List.modify_eq_set_getElem?, List.getElem?_eq_getElem inside]
    rfl
  · rw [call_doWhen_of_not ragged, if_neg ragged]

theorem call_truncateBits_ok {bits : Nat} {w w' : BitWriter} (cut : w.truncateBits bits = .ok w') :
    call (truncateBits bits) w.state = (.ok (), w'.state) := by
  have size := w.size
  unfold BitWriter.truncateBits at cut
  split at cut
  · cases cut
  · rename_i inside
    cases cut
    rw [truncateBits, call_get_bind]
    apply (call_bind_ok (call_doWhen_of_not inside _ _)).trans
    rw [call_modify_bind, call_modify_bind]
    exact call_maskLast (w.bytes.take ((bits + 7) / 8)) bits (by
      simp only [List.length_take]
      omega)

theorem call_truncateBits_error {bits : Nat} {w : BitWriter} {halt : Halt SchcError PanicSite}
    (refused : w.truncateBits bits = .error halt) :
    call (truncateBits bits) w.state = (.error halt, w.state) := by
  unfold BitWriter.truncateBits at refused
  split at refused
  · rename_i outside
    cases refused
    rw [truncateBits, call_get_bind]
    exact call_bind_error (call_doWhen_of outside _ _)
  · cases refused

theorem call_toVec (w : BitWriter) : call toVec w.state = (.ok w.bytes, w.state) := by
  have whole : w.bytes.take ((w.bitLen + 7) / 8) = w.bytes := by
    rw [← w.size, List.take_length]
  have masked : maskTail w.bytes w.bitLen = w.bytes := by
    have final := w.toVec_eq
    rwa [BitWriter.toVec, whole] at final
  have clone : call (maskLast w.bitLen) ⟨w.bytes.take ((w.bitLen + 7) / 8), w.bitLen⟩ =
      (.ok (), w.state) := by
    rw [whole, call_maskLast w.bytes w.bitLen w.size, masked]
    rfl
  rw [toVec, call_get_bind]
  dsimp only [BitWriter.state] at clone ⊢
  rw [clone]
  rfl

end WriterState

namespace ReaderState

theorem tracks_readBit : Tracks BitReader.state readBit BitReader.readBit := by
  intro r bit r' done
  unfold BitReader.readBit at done
  split at done
  · rename_i byte found
    cases done
    rw [readBit, call_get_bind]
    change call (match r.bytes[r.position / 8]? with
      | some byte => _
      | none => _) r.state = _
    rw [found]
    rfl
  · cases done

theorem tracks_readBitsLoop (bits value : Nat) :
    Tracks BitReader.state (readBitsLoop bits value) (BitReader.readBitsLoop bits value) := by
  induction bits generalizing value with
  | zero => exact tracks_pure _ _
  | succ bits ih => exact tracks_bind tracks_readBit fun bit => ih _

theorem tracks_paddedLoop (bits bitIndex : Nat) (out : List UInt8) :
    Tracks BitReader.state (paddedLoop bits bitIndex out) (BitReader.paddedLoop bits bitIndex out) := by
  induction bits generalizing bitIndex out with
  | zero => exact tracks_pure _ _
  | succ bits ih =>
    apply tracks_bind tracks_readBit
    intro bit
    by_cases one : bit = 1
    · by_cases inside : bitIndex / 8 < out.length
      · rw [if_pos one, if_pos one, dif_pos inside, List.getElem?_eq_getElem inside]
        exact ih _ _
      · rw [if_pos one, if_pos one, dif_neg inside]
        intro r filled r' done
        cases done
    · rw [if_neg one, if_neg one]
      exact ih _ _

theorem call_ensureAvailable_ok {bits : Nat} {r : BitReader} (enough : bits ≤ r.remaining) :
    call (ensureAvailable bits) r.state = (.ok (), r.state) := by
  rw [ensureAvailable, call_get_bind]
  exact call_doWhen_of_not (Nat.not_lt.mpr enough) _ _

theorem call_ensureAvailable_error {bits : Nat} {r : BitReader} (short : bits > r.remaining) :
    call (ensureAvailable bits) r.state =
      (fail (.bitOutOfBounds r.position bits r.remaining), r.state) := by
  rw [ensureAvailable, call_get_bind]
  exact call_doWhen_of short _ _

theorem call_readBits_ok {bits : Nat} {r : BitReader} (positive : 0 < bits) (narrow : bits ≤ 64)
    (enough : bits ≤ r.remaining) :
    call (readBits bits) r.state = (.ok (toNat (r.unread.take bits)), (r.skip bits).state) := by
  have width : ¬ (bits = 0 ∨ bits > 64) := by omega
  have valid : BitWriter.validateBitWidth "read_bits" bits = .ok () := if_neg width
  rw [readBits, call_bind_ok (by rw [call_lift, valid]), call_bind_ok (call_ensureAvailable_ok enough)]
  have looped := tracks_readBitsLoop bits 0 r _ _ (BitReader.readBitsLoop_run bits 0 r enough)
  rw [looped, Nat.zero_mul, Nat.zero_add]

/-- A refused read fails before the first bit is taken. -/
theorem call_readBits_error {bits : Nat} {r : BitReader}
    (refused : bits = 0 ∨ bits > 64 ∨ bits > r.remaining) :
    ∃ e, call (readBits bits) r.state = (fail e, r.state) := by
  rw [readBits]
  by_cases width : bits = 0 ∨ bits > 64
  · have invalid : BitWriter.validateBitWidth "read_bits" bits =
        fail (.invalidBitLength "read_bits" bits) := if_pos width
    exact ⟨_, call_bind_error (by rw [call_lift, invalid]; rfl)⟩
  · have valid : BitWriter.validateBitWidth "read_bits" bits = .ok () := if_neg width
    have short : bits > r.remaining := by omega
    rw [call_bind_ok (by rw [call_lift, valid])]
    exact ⟨_, call_bind_error (call_ensureAvailable_error short)⟩

theorem call_readBytesPadded_ok {bits : Nat} {r : BitReader} (enough : bits ≤ r.remaining) :
    ∃ out, call (readBytesPadded bits) r.state = (.ok out, (r.skip bits).state) ∧
      out.length = (bits + 7) / 8 ∧
      ofBytes out = r.unread.take bits ++ List.replicate (8 * out.length - bits) false := by
  obtain ⟨out, ran, length, wrote⟩ := BitReader.readBytesPadded_run bits r enough
  refine ⟨out, ?_, length, wrote⟩
  rw [readBytesPadded, call_bind_ok (call_ensureAvailable_ok enough)]
  have available : ¬ bits > r.remaining := by omega
  rw [BitReader.readBytesPadded, bind_run, BitReader.ensureAvailable, if_neg available, ok_bind] at ran
  exact tracks_paddedLoop bits 0 _ r out _ ran

theorem call_readBytesPadded_error {bits : Nat} {r : BitReader} (short : bits > r.remaining) :
    call (readBytesPadded bits) r.state =
      (fail (.bitOutOfBounds r.position bits r.remaining), r.state) := by
  rw [readBytesPadded]
  exact call_bind_error (call_ensureAvailable_error short)

theorem call_copyLoop {bits : Nat} {r r' : BitReader} {writer w : BitWriter}
    (ran : BitReader.copyLoop bits writer r = .ok (w, r')) :
    call (copyLoop bits) (r.state, writer.state) = (.ok (), r'.state, w.state) := by
  induction bits generalizing r writer with
  | zero =>
    cases ran
    rfl
  | succ bits ih =>
    rw [BitReader.copyLoop, bind_run, bind_eq_ok] at ran
    obtain ⟨⟨bit, next⟩, one, rest⟩ := ran
    have taken := tracks_readBit r bit next one
    have read : call (onFst readBit : Method (ReaderState × WriterState) _ _ _)
        (r.state, writer.state) = (.ok bit, next.state, writer.state) := by
      rw [call_onFst, taken]
    have wrote : call (onSnd (WriterState.writeBit (bit != 0)) : Method (ReaderState × WriterState) _ _ _)
        (next.state, writer.state) = (.ok (), next.state, (writer.writeBit (bit != 0)).state) := by
      rw [call_onSnd, WriterState.call_writeBit]
    rw [copyLoop, call_bind_ok read, call_bind_ok wrote]
    exact ih rest

theorem call_copyTo_ok {bits : Nat} {r : BitReader} (writer : BitWriter) (enough : bits ≤ r.remaining) :
    ∃ w : BitWriter, call (copyTo bits) (r.state, writer.state) = (.ok (), (r.skip bits).state, w.state) ∧
      w.bits = writer.bits ++ r.unread.take bits := by
  obtain ⟨w, ran, wrote⟩ := BitReader.copyLoop_run bits writer r enough
  have available : call (onFst (ensureAvailable bits) : Method (ReaderState × WriterState) _ _ _)
      (r.state, writer.state) = (.ok (), r.state, writer.state) := by
    rw [call_onFst, call_ensureAvailable_ok enough]
  refine ⟨w, ?_, wrote⟩
  rw [copyTo, call_bind_ok available]
  exact call_copyLoop ran

theorem call_copyTo_error {bits : Nat} {r : BitReader} (writer : WriterState)
    (short : bits > r.remaining) :
    call (copyTo bits) (r.state, writer) =
      (fail (.bitOutOfBounds r.position bits r.remaining), r.state, writer) := by
  have refused : call (onFst (ensureAvailable bits) : Method (ReaderState × WriterState) _ _ _)
      (r.state, writer) = (fail (.bitOutOfBounds r.position bits r.remaining), r.state, writer) := by
    rw [call_onFst, call_ensureAvailable_error short]
  rw [copyTo]
  exact call_bind_error refused

end ReaderState

/-- What a reader can be asked for: a number, padded bytes, or bits copied to a writer. -/
inductive Take where
  | readBits (bits : Nat)
  | readBytesPadded (bits : Nat)
  | copyTo (writer bits : Nat)
  deriving DecidableEq, Repr

/-- A call on one of the writers or on one of the readers of a session. `reopen` places a
    reader over what a writer holds, `openBytes` one over any bytes. -/
inductive Call where
  | create (writer : Nat)
  | writeBits (writer : Nat) (value : UInt64) (bits : Nat)
  | writeBit (writer : Nat) (bit : Bool)
  | truncateBits (writer bits : Nat)
  | reopen (reader writer : Nat)
  | openBytes (reader : Nat) (bytes : List UInt8) (bitLen : Nat)
  | read (reader : Nat) (take : Take)
  deriving DecidableEq, Repr

inductive Reply where
  | unit
  | value (value : Nat)
  | bytes (bytes : List UInt8)
  deriving DecidableEq, Repr

/-- The writers and the readers of a run, by number. -/
structure Session where
  writers : Nat → WriterState
  readers : Nat → ReaderState

namespace Session

def start : Session := ⟨fun _ => .new, fun _ => ⟨[], 0, 0⟩⟩

def onWriter (s : Session) (writer : Nat) (m : WriterState.Write Reply) : Result Reply × Session :=
  let (reply, after) := call m (s.writers writer)
  (reply, { s with writers := Function.update s.writers writer after })

def onReader (s : Session) (reader : Nat) (m : ReaderState.Read Reply) : Result Reply × Session :=
  let (reply, after) := call m (s.readers reader)
  (reply, { s with readers := Function.update s.readers reader after })

def onBoth (s : Session) (reader writer : Nat)
    (m : Method (ReaderState × WriterState) SchcError PanicSite Reply) : Result Reply × Session :=
  let (reply, after) := call m (s.readers reader, s.writers writer)
  (reply, ⟨Function.update s.writers writer after.2, Function.update s.readers reader after.1⟩)

/-- A reader made over some bytes takes the place of the reader before it. -/
def place (s : Session) (reader : Nat) (made : Result ReaderState) : Result Reply × Session :=
  match made with
  | .ok fresh => (.ok .unit, { s with readers := Function.update s.readers reader fresh })
  | .error halt => (.error halt, s)

def take (s : Session) (reader : Nat) : Take → Result Reply × Session
  | .readBits bits => s.onReader reader (do
      let value ← ReaderState.readBits bits
      pure (.value value))
  | .readBytesPadded bits => s.onReader reader (do
      let bytes ← ReaderState.readBytesPadded bits
      pure (.bytes bytes))
  | .copyTo writer bits => s.onBoth reader writer (do
      ReaderState.copyTo bits
      pure .unit)

def step (s : Session) : Call → Result Reply × Session
  | .create writer =>
      (.ok .unit, { s with writers := Function.update s.writers writer .new })
  | .writeBits writer value bits => s.onWriter writer (do
      WriterState.writeBits value.toNat bits
      pure .unit)
  | .writeBit writer bit => s.onWriter writer (do
      WriterState.writeBit bit
      pure .unit)
  | .truncateBits writer bits => s.onWriter writer (do
      WriterState.truncateBits bits
      pure .unit)
  | .reopen reader writer =>
      s.place reader (do
        let bytes ← (call WriterState.toVec (s.writers writer)).1
        ReaderState.withBitLen bytes (s.writers writer).bitLen)
  | .openBytes reader bytes bitLen => s.place reader (ReaderState.withBitLen bytes bitLen)
  | .read reader take => s.take reader take

/-- The replies of a run and the session it ends in; a failed call does not end the run. -/
def run (s : Session) : List Call → List (Result Reply) × Session
  | [] => ([], s)
  | call :: calls =>
      let (reply, after) := s.step call
      let (replies, final) := after.run calls
      (reply :: replies, final)

end Session

/-- What the writers and the readers are for: each writer is a list of bits, each reader the
    list of bits not read yet. -/
structure Lists where
  written : Nat → List Bool
  unread : Nat → List Bool

namespace Lists

def start : Lists := ⟨fun _ => [], fun _ => []⟩

def append (s : Lists) (writer : Nat) (bits : List Bool) : Lists :=
  { s with written := Function.update s.written writer (s.written writer ++ bits) }

def drop (s : Lists) (reader bits : Nat) : Lists :=
  { s with unread := Function.update s.unread reader ((s.unread reader).drop bits) }

def place (s : Lists) (reader : Nat) (bits : List Bool) : Lists :=
  { s with unread := Function.update s.unread reader bits }

/-- The bits taken off a reader, or nothing where the request is refused. -/
def take (s : Lists) (reader : Nat) : Take → Option (List Bool) × Lists
  | .readBits bits =>
      if 0 < bits ∧ bits ≤ 64 ∧ bits ≤ (s.unread reader).length then
        (some ((s.unread reader).take bits), s.drop reader bits)
      else (none, s)
  | .readBytesPadded bits =>
      if bits ≤ (s.unread reader).length then
        (some ((s.unread reader).take bits), s.drop reader bits)
      else (none, s)
  | .copyTo writer bits =>
      if bits ≤ (s.unread reader).length then
        (some ((s.unread reader).take bits),
          (s.append writer ((s.unread reader).take bits)).drop reader bits)
      else (none, s)

def step (s : Lists) : Call → Option (List Bool) × Lists
  | .create writer => (some [], { s with written := Function.update s.written writer [] })
  | .writeBits writer value bits =>
      if 0 < bits ∧ bits ≤ 64 ∧ value.toNat < 2 ^ bits then
        (some [], s.append writer (ofNat bits value.toNat))
      else (none, s)
  | .writeBit writer bit => (some [], s.append writer [bit])
  | .truncateBits writer bits =>
      if bits ≤ (s.written writer).length then
        (some [], { s with
          written := Function.update s.written writer ((s.written writer).take bits) })
      else (none, s)
  | .reopen reader writer => (some [], s.place reader (s.written writer))
  | .openBytes reader bytes bitLen =>
      if bitLen ≤ 8 * bytes.length then (some [], s.place reader ((ofBytes bytes).take bitLen))
      else (none, s)
  | .read reader take => s.take reader take

def run (s : Lists) : List Call → List (Option (List Bool)) × Lists
  | [] => ([], s)
  | call :: calls =>
      let (answer, after) := s.step call
      let (answers, final) := after.run calls
      (answer :: answers, final)

end Lists

/-- The bytes are the bits packed from the most significant one on, filled up with zeros. -/
structure Packs (bytes : List UInt8) (bits : List Bool) : Prop where
  size : bytes.length = (bits.length + 7) / 8
  spelled : ofBytes bytes = bits ++ List.replicate (8 * bytes.length - bits.length) false

structure WriterState.Denotes (w : WriterState) (bits : List Bool) : Prop where
  bitLen : w.bitLen = bits.length
  packed : Packs w.bytes bits

/-- The reader stands inside its bytes and the bits from there on are the list. -/
structure ReaderState.Denotes (r : ReaderState) (bits : List Bool) : Prop where
  bounded : r.bitLen ≤ r.bytes.length * 8
  unread : ((ofBytes r.bytes).take r.bitLen).drop r.position = bits

/-- A reply to a call spells the bits that the call took off its reader. -/
def Reply.Spells (reply : Reply) (bits : List Bool) : Call → Prop
  | .read _ (.readBits count) => reply = .value (toNat bits) ∧ bits.length = count
  | .read _ (.readBytesPadded count) => ∃ bytes, reply = .bytes bytes ∧ Packs bytes bits ∧ bits.length = count
  | .read _ (.copyTo _ count) => reply = .unit ∧ bits.length = count
  | _ => reply = .unit ∧ bits = []

/-- A call returns where the list allows it, and fails with an error where it does not. -/
def RepliesWith (call : Call) (reply : Result Reply) : Option (List Bool) → Prop
  | some bits => ∃ done, reply = .ok done ∧ done.Spells bits call
  | none => ∃ e, reply = fail e

/-- Every reply of a run answers its call. -/
inductive RepliesAll : List Call → List (Result Reply) → List (Option (List Bool)) → Prop where
  | nil : RepliesAll [] [] []
  | cons {call : Call} {reply : Result Reply} {answer : Option (List Bool)} {calls replies answers}
      (first : RepliesWith call reply answer) (later : RepliesAll calls replies answers) :
      RepliesAll (call :: calls) (reply :: replies) (answer :: answers)

structure Session.Denotes (s : Session) (lists : Lists) : Prop where
  written : ∀ writer, (s.writers writer).Denotes (lists.written writer)
  unread : ∀ reader, (s.readers reader).Denotes (lists.unread reader)

theorem BitWriter.denotes (w : BitWriter) : w.state.Denotes w.bits := by
  constructor
  · exact w.length_bits.symm
  · constructor
    · rw [length_bits]
      exact w.size
    · rw [length_bits]
      exact w.ofBytes_bytes

theorem WriterState.Denotes.writer {w : WriterState} {bits : List Bool} (denotes : w.Denotes bits) :
    ∃ writer : BitWriter, writer.state = w ∧ writer.bits = bits := by
  obtain ⟨bitLen, size, spelled⟩ := denotes
  have clear : (ofBytes w.bytes).drop w.bitLen = List.replicate (8 * w.bytes.length - w.bitLen) false := by
    rw [spelled, bitLen, List.drop_left]
  refine ⟨⟨w.bytes, w.bitLen, by rw [size, bitLen], clear⟩, rfl, ?_⟩
  rw [BitWriter.bits]
  dsimp only
  rw [spelled, bitLen, List.take_left]

theorem BitReader.denotes (r : BitReader) : r.state.Denotes r.unread := ⟨r.bounded, rfl⟩

theorem ReaderState.Denotes.reader {r : ReaderState} {bits : List Bool} (denotes : r.Denotes bits) :
    ∃ reader : BitReader, reader.state = r ∧ reader.unread = bits :=
  ⟨⟨r.bytes, r.position, r.bitLen, denotes.bounded⟩, rfl, denotes.unread⟩

/-- Either both sides take the step, or the list refuses and nothing has changed. -/
def Agree (s : Session) (lists : Lists) (request : Call) : Prop :=
  (∃ done after bits later, s.step request = (.ok done, after) ∧
    lists.step request = (some bits, later) ∧ done.Spells bits request ∧ after.Denotes later) ∨
  (∃ e, s.step request = (fail e, s) ∧ lists.step request = (none, lists))

variable {s : Session} {lists : Lists}

theorem Agree.denotes {request : Call} (agree : Agree s lists request) (denotes : s.Denotes lists) :
    (s.step request).2.Denotes (lists.step request).2 := by
  rcases agree with ⟨done, after, bits, later, stepped, listed, -, denotes⟩ | ⟨e, stepped, listed⟩
  · rwa [stepped, listed]
  · rwa [stepped, listed]

theorem Agree.answers {request : Call} (agree : Agree s lists request) :
    RepliesWith request (s.step request).1 (lists.step request).1 := by
  rcases agree with ⟨done, after, bits, later, stepped, listed, spells, -⟩ | ⟨e, stepped, listed⟩
  · rw [stepped, listed]
    exact ⟨done, rfl, spells⟩
  · rw [stepped, listed]
    exact ⟨e, rfl⟩

theorem Agree.unchanged {request : Call} (agree : Agree s lists request) :
    (∃ done, (s.step request).1 = .ok done) ∨ ∃ e, s.step request = (fail e, s) := by
  rcases agree with ⟨done, after, bits, later, stepped, -, -, -⟩ | ⟨e, stepped, -⟩
  · exact Or.inl ⟨done, by rw [stepped]⟩
  · exact Or.inr ⟨e, stepped⟩

namespace Session

theorem Denotes.start : start.Denotes Lists.start := by
  constructor
  · intro writer
    exact BitWriter.new.denotes
  · intro reader
    exact ⟨Nat.le_refl 0, rfl⟩

theorem Denotes.setWriter (denotes : s.Denotes lists) (writer : Nat) {w : WriterState}
    {bits : List Bool} (fresh : w.Denotes bits) :
    Denotes { s with writers := Function.update s.writers writer w }
      { lists with written := Function.update lists.written writer bits } := by
  constructor
  · intro other
    dsimp only
    by_cases same : other = writer
    · subst same
      rwa [Function.update_self, Function.update_self]
    · rw [Function.update_of_ne same, Function.update_of_ne same]
      exact denotes.written other
  · exact denotes.unread

theorem Denotes.setReader (denotes : s.Denotes lists) (reader : Nat) {r : ReaderState}
    {bits : List Bool} (fresh : r.Denotes bits) :
    Denotes { s with readers := Function.update s.readers reader r }
      { lists with unread := Function.update lists.unread reader bits } := by
  constructor
  · exact denotes.written
  · intro other
    dsimp only
    by_cases same : other = reader
    · subst same
      rwa [Function.update_self, Function.update_self]
    · rw [Function.update_of_ne same, Function.update_of_ne same]
      exact denotes.unread other

theorem onWriter_ok {writer : Nat} {m : WriterState.Write Unit} {after : WriterState}
    (ran : call m (s.writers writer) = (.ok (), after)) :
    s.onWriter writer (do m; pure .unit) =
      (.ok .unit, { s with writers := Function.update s.writers writer after }) := by
  rw [onWriter, call_bind_ok ran]
  rfl

theorem onWriter_error {writer : Nat} {m : WriterState.Write Unit} {halt : Halt SchcError PanicSite}
    (ran : call m (s.writers writer) = (.error halt, s.writers writer)) :
    s.onWriter writer (do m; pure .unit) = (.error halt, s) := by
  rw [onWriter, call_bind_error ran]
  dsimp only
  rw [Function.update_eq_self]

theorem onReader_ok {α : Type} {reader : Nat} {m : ReaderState.Read α} {reply : α → Reply} {a : α}
    {after : ReaderState} (ran : call m (s.readers reader) = (.ok a, after)) :
    s.onReader reader (do let value ← m; pure (reply value)) =
      (.ok (reply a), { s with readers := Function.update s.readers reader after }) := by
  rw [onReader, call_bind_ok ran]
  rfl

theorem onReader_error {α : Type} {reader : Nat} {m : ReaderState.Read α} {reply : α → Reply}
    {halt : Halt SchcError PanicSite}
    (ran : call m (s.readers reader) = (.error halt, s.readers reader)) :
    s.onReader reader (do let value ← m; pure (reply value)) = (.error halt, s) := by
  rw [onReader, call_bind_error ran]
  dsimp only
  rw [Function.update_eq_self]

theorem agree_writeBits (denotes : s.Denotes lists) (writer : Nat) (value : UInt64) (bits : Nat) :
    Agree s lists (.writeBits writer value bits) := by
  obtain ⟨w, same, spelled⟩ := (denotes.written writer).writer
  by_cases allowed : 0 < bits ∧ bits ≤ 64 ∧ value.toNat < 2 ^ bits
  · obtain ⟨positive, narrow, fits⟩ := allowed
    have wrote := w.writeBits_ok positive narrow fits
    have ran := WriterState.call_writeBits_ok wrote
    rw [same] at ran
    refine Or.inl ⟨.unit, _, [], _, onWriter_ok ran, if_pos ⟨positive, narrow, fits⟩, ⟨rfl, rfl⟩, ?_⟩
    apply denotes.setWriter writer
    have appended := (w.writeShifts value.toNat bits).denotes
    rwa [BitWriter.writeBits_bits wrote, spelled] at appended
  · have refused : ∃ e, w.writeBits value.toNat bits = fail e := by
      by_cases width : bits = 0 ∨ bits > 64
      · exact ⟨_, by rw [BitWriter.writeBits, BitWriter.validateBitWidth, if_pos width]; rfl⟩
      · -- at 64 bits every `u64` fits
        have narrower : bits ≠ 64 := by
          rintro rfl
          exact allowed ⟨by omega, by omega, value.toNat_lt⟩
        have large : ¬ value.toNat < 2 ^ bits := fun fits => allowed ⟨by omega, by omega, fits⟩
        refine ⟨.invalidBitLength "write_bits" bits, ?_⟩
        rw [BitWriter.writeBits, BitWriter.validateBitWidth, if_neg width, ok_bind, if_pos]
        simp [BitWriter.valueFits, narrower, Nat.one_shiftLeft, large]
    obtain ⟨e, refused⟩ := refused
    have ran := WriterState.call_writeBits_error refused
    rw [same] at ran
    exact Or.inr ⟨e, onWriter_error ran, if_neg allowed⟩

theorem agree_writeBit (denotes : s.Denotes lists) (writer : Nat) (bit : Bool) :
    Agree s lists (.writeBit writer bit) := by
  obtain ⟨w, same, spelled⟩ := (denotes.written writer).writer
  have ran := WriterState.call_writeBit bit w
  rw [same] at ran
  refine Or.inl ⟨.unit, _, [], _, onWriter_ok ran, rfl, ⟨rfl, rfl⟩, ?_⟩
  apply denotes.setWriter writer
  have appended := (w.writeBit bit).denotes
  rwa [BitWriter.writeBit_bits, spelled] at appended

theorem agree_truncateBits (denotes : s.Denotes lists) (writer bits : Nat) :
    Agree s lists (.truncateBits writer bits) := by
  obtain ⟨w, same, spelled⟩ := (denotes.written writer).writer
  have length : (lists.written writer).length = w.bitLen := by rw [← spelled, w.length_bits]
  cases cut : w.truncateBits bits with
  | ok shorter =>
    have inside : bits ≤ (lists.written writer).length := by
      unfold BitWriter.truncateBits at cut
      split at cut
      · cases cut
      · omega
    have ran := WriterState.call_truncateBits_ok cut
    rw [same] at ran
    refine Or.inl ⟨.unit, _, [], _, onWriter_ok ran, if_pos inside, ⟨rfl, rfl⟩, ?_⟩
    apply denotes.setWriter writer
    have kept := shorter.denotes
    rwa [BitWriter.truncateBits_bits cut, spelled] at kept
  | error halt =>
    have ran := WriterState.call_truncateBits_error cut
    rw [same] at ran
    unfold BitWriter.truncateBits at cut
    split at cut
    · cases cut
      exact Or.inr ⟨_, onWriter_error ran, if_neg (by omega)⟩
    · cases cut

theorem agree_reopen (denotes : s.Denotes lists) (reader writer : Nat) :
    Agree s lists (.reopen reader writer) := by
  obtain ⟨w, same, spelled⟩ := (denotes.written writer).writer
  have size := w.size
  have vec := WriterState.call_toVec w
  rw [same] at vec
  have bitLen : (s.writers writer).bitLen = w.bitLen := by rw [← same]; rfl
  have opened : s.step (.reopen reader writer) = (.ok .unit,
      { s with readers := Function.update s.readers reader ⟨w.bytes, 0, w.bitLen⟩ }) := by
    have inside : ¬ w.bitLen > w.bytes.length * 8 := by omega
    rw [step, vec, bitLen]
    dsimp only
    rw [ok_bind, ReaderState.withBitLen, if_neg inside]
    rfl
  refine Or.inl ⟨.unit, _, [], _, opened, rfl, ⟨rfl, rfl⟩, ?_⟩
  apply denotes.setReader reader
  refine ⟨?_, ?_⟩
  · dsimp only
    omega
  · rw [← spelled, BitWriter.bits]
    rfl

theorem agree_openBytes (denotes : s.Denotes lists) (reader : Nat) (bytes : List UInt8)
    (bitLen : Nat) : Agree s lists (.openBytes reader bytes bitLen) := by
  by_cases inside : bitLen ≤ 8 * bytes.length
  · have opened : s.step (.openBytes reader bytes bitLen) = (.ok .unit,
        { s with readers := Function.update s.readers reader ⟨bytes, 0, bitLen⟩ }) := by
      rw [step, ReaderState.withBitLen, if_neg (by omega)]
      rfl
    refine Or.inl ⟨.unit, _, [], _, opened, if_pos inside, ⟨rfl, rfl⟩, ?_⟩
    apply denotes.setReader reader
    exact ⟨by dsimp only; omega, rfl⟩
  · have refused : s.step (.openBytes reader bytes bitLen) =
        (fail (.bitOutOfBounds 0 bitLen (bytes.length * 8)), s) := by
      rw [step, ReaderState.withBitLen, if_pos (by omega)]
      rfl
    exact Or.inr ⟨_, refused, if_neg inside⟩

theorem agree_readBits (denotes : s.Denotes lists) (reader bits : Nat) :
    Agree s lists (.read reader (.readBits bits)) := by
  obtain ⟨r, same, spelled⟩ := (denotes.unread reader).reader
  have length : (lists.unread reader).length = r.remaining := by rw [← spelled, r.length_unread]
  by_cases allowed : 0 < bits ∧ bits ≤ 64 ∧ bits ≤ (lists.unread reader).length
  · obtain ⟨positive, narrow, enough⟩ := allowed
    have ran := ReaderState.call_readBits_ok positive narrow (by omega : bits ≤ r.remaining)
    rw [same, spelled] at ran
    refine Or.inl ⟨_, _, _, _, onReader_ok ran, if_pos ⟨positive, narrow, enough⟩, ⟨rfl, ?_⟩, ?_⟩
    · exact List.length_take_of_le enough
    · apply denotes.setReader reader
      have rest := (r.skip bits).denotes
      rwa [r.unread_skip, spelled] at rest
  · obtain ⟨e, ran⟩ := ReaderState.call_readBits_error (by omega :
      bits = 0 ∨ bits > 64 ∨ bits > r.remaining)
    rw [same] at ran
    exact Or.inr ⟨e, onReader_error ran, if_neg allowed⟩

theorem agree_readBytesPadded (denotes : s.Denotes lists) (reader bits : Nat) :
    Agree s lists (.read reader (.readBytesPadded bits)) := by
  obtain ⟨r, same, spelled⟩ := (denotes.unread reader).reader
  have length : (lists.unread reader).length = r.remaining := by rw [← spelled, r.length_unread]
  by_cases enough : bits ≤ (lists.unread reader).length
  · have taken : ((lists.unread reader).take bits).length = bits := List.length_take_of_le enough
    obtain ⟨out, ran, size, wrote⟩ :=
      ReaderState.call_readBytesPadded_ok (by omega : bits ≤ r.remaining)
    rw [same] at ran
    rw [spelled] at wrote
    refine Or.inl ⟨_, _, _, _, onReader_ok ran, if_pos enough, ⟨out, rfl, ⟨?_, ?_⟩, taken⟩, ?_⟩
    · rw [taken, size]
    · rw [taken, wrote]
    · apply denotes.setReader reader
      have rest := (r.skip bits).denotes
      rwa [r.unread_skip, spelled] at rest
  · have ran := ReaderState.call_readBytesPadded_error (by omega : bits > r.remaining)
    rw [same] at ran
    exact Or.inr ⟨_, onReader_error ran, if_neg enough⟩

theorem agree_copyTo (denotes : s.Denotes lists) (reader writer bits : Nat) :
    Agree s lists (.read reader (.copyTo writer bits)) := by
  obtain ⟨r, sameReader, unread⟩ := (denotes.unread reader).reader
  obtain ⟨w, sameWriter, written⟩ := (denotes.written writer).writer
  have length : (lists.unread reader).length = r.remaining := by rw [← unread, r.length_unread]
  by_cases enough : bits ≤ (lists.unread reader).length
  · obtain ⟨longer, ran, wrote⟩ := ReaderState.call_copyTo_ok w (by omega : bits ≤ r.remaining)
    rw [sameReader, sameWriter] at ran
    have copied : s.step (.read reader (.copyTo writer bits)) = (.ok .unit,
        ⟨Function.update s.writers writer longer.state,
          Function.update s.readers reader (r.skip bits).state⟩) := by
      rw [step, take, onBoth, call_bind_ok ran]
      rfl
    refine Or.inl ⟨.unit, _, _, _, copied, if_pos enough, ⟨rfl, List.length_take_of_le enough⟩, ?_⟩
    have appended := longer.denotes
    rw [wrote, written, unread] at appended
    have rest := (r.skip bits).denotes
    rw [r.unread_skip, unread] at rest
    exact (denotes.setWriter writer appended).setReader reader rest
  · have ran := ReaderState.call_copyTo_error w.state (by omega : bits > r.remaining)
    rw [sameReader, sameWriter] at ran
    have refused : s.step (.read reader (.copyTo writer bits)) =
        (fail (.bitOutOfBounds r.position bits r.remaining), s) := by
      rw [step, take, onBoth, call_bind_error ran]
      dsimp only
      rw [Function.update_eq_self, Function.update_eq_self]
      rfl
    exact Or.inr ⟨_, refused, if_neg enough⟩

theorem agree (denotes : s.Denotes lists) (request : Call) : Agree s lists request := by
  cases request with
  | create writer =>
    exact Or.inl ⟨.unit, _, [], _, rfl, rfl, ⟨rfl, rfl⟩, denotes.setWriter writer ⟨rfl, rfl, rfl⟩⟩
  | writeBits writer value bits => exact agree_writeBits denotes writer value bits
  | writeBit writer bit => exact agree_writeBit denotes writer bit
  | truncateBits writer bits => exact agree_truncateBits denotes writer bits
  | reopen reader writer => exact agree_reopen denotes reader writer
  | openBytes reader bytes bitLen => exact agree_openBytes denotes reader bytes bitLen
  | read reader take =>
    cases take with
    | readBits bits => exact agree_readBits denotes reader bits
    | readBytesPadded bits => exact agree_readBytesPadded denotes reader bits
    | copyTo writer bits => exact agree_copyTo denotes reader writer bits

theorem run_refines (calls : List Call) (denotes : s.Denotes lists) :
    (s.run calls).2.Denotes (lists.run calls).2 ∧
      RepliesAll calls (s.run calls).1 (lists.run calls).1 := by
  induction calls generalizing s lists with
  | nil => exact ⟨denotes, .nil⟩
  | cons request calls ih =>
    have stepped := agree denotes request
    obtain ⟨kept, answered⟩ := ih (stepped.denotes denotes)
    exact ⟨kept, .cons stepped.answers answered⟩

end Session

namespace Lists

theorem take_partition (s : Lists) (reader : Nat) (take : Take) :
    (s.take reader take).1.getD [] ++ (s.take reader take).2.unread reader = s.unread reader := by
  have split (bits : Nat) : (s.unread reader).take bits ++ (s.drop reader bits).unread reader =
      s.unread reader := by
    rw [Lists.drop]
    dsimp only
    rw [Function.update_self, List.take_append_drop]
  cases take with
  | readBits bits =>
    rw [Lists.take.eq_def]
    dsimp only
    by_cases allowed : 0 < bits ∧ bits ≤ 64 ∧ bits ≤ (s.unread reader).length
    · rw [if_pos allowed]
      exact split bits
    · rw [if_neg allowed]
      rfl
  | readBytesPadded bits =>
    rw [Lists.take.eq_def]
    dsimp only
    by_cases enough : bits ≤ (s.unread reader).length
    · rw [if_pos enough]
      exact split bits
    · rw [if_neg enough]
      rfl
  | copyTo writer bits =>
    rw [Lists.take.eq_def]
    dsimp only
    by_cases enough : bits ≤ (s.unread reader).length
    · rw [if_pos enough]
      exact split bits
    · rw [if_neg enough]
      rfl

/-- However a reader is asked, what it gives and what it keeps make up the whole list. -/
theorem reads_partition (takes : List Take) (reader : Nat) (s : Lists) :
    ((s.run (takes.map (Call.read reader))).1.map (·.getD [])).flatten ++
      (s.run (takes.map (Call.read reader))).2.unread reader = s.unread reader := by
  induction takes generalizing s with
  | nil => rfl
  | cons take takes ih =>
    have rest := ih (s.take reader take).2
    have first := s.take_partition reader take
    rw [← rest, ← List.append_assoc] at first
    exact first

end Lists

/-- After any calls every writer holds its list of bits, packed, and `to_vec` returns it;
    every reply is the one the lists give; a failed call has changed nothing; and reading a
    writer's bytes back, split in any way, gives its bits in order. -/
theorem bit_buffers_implement_lists (calls : List Call) :
    (Session.start.run calls).2.Denotes (Lists.start.run calls).2 ∧
    RepliesAll calls (Session.start.run calls).1 (Lists.start.run calls).1 ∧
    (∀ writer, ∃ bytes, call WriterState.toVec ((Session.start.run calls).2.writers writer) =
        (.ok bytes, (Session.start.run calls).2.writers writer) ∧
      Packs bytes ((Lists.start.run calls).2.written writer)) ∧
    (∀ request, (∃ done, ((Session.start.run calls).2.step request).1 = .ok done) ∨
      ∃ e, (Session.start.run calls).2.step request = (fail e, (Session.start.run calls).2)) ∧
    (∀ reader writer (takes : List Take), ∃ answers rest,
      RepliesAll (takes.map (Call.read reader))
        (((Session.start.run calls).2.step (.reopen reader writer)).2.run
          (takes.map (Call.read reader))).1 answers ∧
      (answers.map (·.getD [])).flatten ++ rest = (Lists.start.run calls).2.written writer) := by
  obtain ⟨denotes, answered⟩ := Session.run_refines calls Session.Denotes.start
  refine ⟨denotes, answered, ?_, ?_, ?_⟩
  · intro writer
    obtain ⟨w, same, spelled⟩ := (denotes.written writer).writer
    rw [← same, ← spelled]
    exact ⟨w.bytes, WriterState.call_toVec w, w.denotes.packed⟩
  · intro request
    exact (Session.agree denotes request).unchanged
  · intro reader writer takes
    have reopened := (Session.agree denotes (.reopen reader writer)).denotes denotes
    obtain ⟨-, reread⟩ := Session.run_refines (takes.map (Call.read reader)) reopened
    have partition := Lists.reads_partition takes reader
      ((Lists.start.run calls).2.step (.reopen reader writer)).2
    exact ⟨_, _, reread, partition.trans (Function.update_self ..)⟩

end SchcCore
