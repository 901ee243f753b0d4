import SchcCore.Lib.Outcome
import SchcCore.Lib.Bytes

/- The error type shared by rule loading, packet parsing and SCHC processing, and the
   places where a run can panic. -/
namespace SchcCore
open Bytes

inductive SchcError where
  | bitOutOfBounds (position requested available : Nat)
  | invalidBitLength (operation : String) (bits : Nat)
  | json (reason : String)
  | cbor (reason : String)
  | unknownSid (sid : Nat)
  | missingSidIdentifier (identifier : String)
  | invalidRule (ruleIndex : Nat) (reason : String)
  | ambiguousRuleIdPrefix (firstValue firstBits secondValue secondBits : Nat)
  | invalidRuleField (ruleIndex entryIndex : Nat) (reason : String)
  | packet (protocol reason : String)
  | noMatchingRule
  | unsupportedRuleNature (nature : String)
  | invalidResidue (reason : String)
  | ambiguousPadding (bitLengths : List Nat)
  deriving DecidableEq, Repr

inductive PanicSite where
  | index
  | expect (message : String)
  | unreachable (message : String)
  | stackOverflow
  deriving DecidableEq, Repr

abbrev Result (α : Type) := Outcome SchcError PanicSite α

def fail {α : Type} (error : SchcError) : Result α := .error (.fail error)

def panicAt {α : Type} (site : PanicSite) : Result α := .error (.panic site)

def packetError {α : Type} (protocol reason : String) : Result α := fail (.packet protocol reason)

def invalidResidue {α : Type} (reason : String) : Result α := fail (.invalidResidue reason)

@[simp] theorem fail_ne_ok {α : Type} (error : SchcError) (a : α) : fail error ≠ .ok a := by
  simp [fail]

@[simp] theorem panicAt_ne_ok {α : Type} (site : PanicSite) (a : α) : panicAt site ≠ .ok a := by
  simp [panicAt]

@[simp] theorem packetError_ne_ok {α : Type} (protocol reason : String) (a : α) :
    packetError protocol reason ≠ .ok a := by
  simp [packetError]

@[simp] theorem invalidResidue_ne_ok {α : Type} (reason : String) (a : α) :
    invalidResidue reason ≠ .ok a := by
  simp [invalidResidue]

@[simp] theorem safe_failed {α : Type} (error : SchcError) :
    Outcome.Safe (fail error : Result α) := Outcome.safe_fail error

@[simp] theorem safe_packetError {α : Type} (protocol reason : String) :
    Outcome.Safe (packetError protocol reason : Result α) := Outcome.safe_fail _

@[simp] theorem safe_invalidResidue {α : Type} (reason : String) :
    Outcome.Safe (invalidResidue reason : Result α) := Outcome.safe_fail _

/-- `bytes[i]`, which panics past the end. -/
def index (bytes : List UInt8) (i : Nat) : Result UInt8 :=
  if i < bytes.length then .ok (byteAt bytes i) else panicAt .index

/-- `bytes[start..stop]`, which panics unless `start ≤ stop ≤ len`. -/
def slice (bytes : List UInt8) (start stop : Nat) : Result (List UInt8) :=
  if start ≤ stop ∧ stop ≤ bytes.length then .ok (cut bytes start stop) else panicAt .index

/-- `bytes[start..stop].copy_from_slice(new)` for a `new` as long as the range. -/
def copyInto (bytes : List UInt8) (start : Nat) (new : List UInt8) : Result (List UInt8) :=
  if start + new.length ≤ bytes.length then .ok (overwrite bytes start new) else panicAt .index

theorem index_eq {bytes : List UInt8} {i : Nat} (inside : i < bytes.length) :
    index bytes i = .ok (byteAt bytes i) := by
  simp [index, inside]

theorem slice_eq {bytes : List UInt8} {start stop : Nat} (ordered : start ≤ stop)
    (inside : stop ≤ bytes.length) : slice bytes start stop = .ok (cut bytes start stop) := by
  simp [slice, ordered, inside]

theorem copyInto_eq {bytes new : List UInt8} {start : Nat}
    (inside : start + new.length ≤ bytes.length) :
    copyInto bytes start new = .ok (overwrite bytes start new) := by
  simp [copyInto, inside]

end SchcCore
