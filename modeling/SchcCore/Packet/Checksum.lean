import SchcCore.Lib.OnesComplement

/- IPv6 pseudo-header checksum helpers. The accumulator is a `u32`, whose additions wrap in a
   release build. -/
namespace SchcCore
open Bytes BigEndian OnesComplement

structure Checksum where
  sum : Nat
  pending : Option UInt8
  deriving DecidableEq

namespace Checksum

def new : Checksum := ⟨0, none⟩

def addWord (c : Checksum) (word : Nat) : Checksum := { c with sum := (c.sum + word) % 2 ^ 32 }

def addByte (c : Checksum) (byte : UInt8) : Checksum :=
  match c.pending with
  | some high => { c with pending := none }.addWord (value [high, byte])
  | none => { c with pending := some byte }

def addBytes (c : Checksum) (bytes : List UInt8) : Checksum := bytes.foldl addByte c

/-- `while sum > 0xffff`; two rounds bring any `u32` below 2^16. -/
def foldCarries : Nat → Nat → Nat
  | 0, sum => sum
  | rounds + 1, sum =>
      if sum > 0xffff then foldCarries rounds (sum % 65536 + sum / 65536) else sum

/-- `if let Some(high) = self.pending.take()` -/
def flush (c : Checksum) : Checksum :=
  match c.pending with
  | some high => { c with pending := none }.addWord (value [high, 0])
  | none => c

def finish (c : Checksum) : Nat :=
  let checksum := 0xffff - foldCarries 2 c.flush.sum
  if checksum = 0 then 0xffff else checksum

end Checksum

/-- The length is cut to a `u32`; the source's `expect` there can only fail on a segment of
    4 GiB or more. -/
def transportChecksum (source destination : List UInt8) (nextHeader : UInt8)
    (segment : List UInt8) : Nat :=
  (((((Checksum.new.addBytes source).addBytes destination).addBytes
    (toBytes 4 (segment.length % 2 ^ 32))).addBytes [0, 0, 0, nextHeader]).addBytes segment).finish

/-- The pseudo-header of an upper-layer segment. -/
def pseudoHeader (source destination : List UInt8) (nextHeader : UInt8) (length : Nat) :
    List UInt8 :=
  source ++ destination ++ toBytes 4 length ++ [0, 0, 0, nextHeader]

namespace Checksum

theorem addBytes_addBytes (c : Checksum) (xs ys : List UInt8) :
    (c.addBytes xs).addBytes ys = c.addBytes (xs ++ ys) := by
  simp [addBytes]

/-- Summed in whole words from an even start, bytes leave the accumulator at their word sum;
    an odd last byte stays pending until `finish` pads it. -/
theorem finish_addBytes (sum : Nat) (bytes : List UInt8) :
    (addBytes ⟨sum % 2 ^ 32, none⟩ bytes).finish =
      finish ⟨(sum + wordSum bytes) % 2 ^ 32, none⟩ := by
  match bytes with
  | [] => simp [addBytes, wordSum]
  | [high] =>
    have flushed : flush (addBytes ⟨sum % 2 ^ 32, none⟩ [high]) =
        flush ⟨(sum + wordSum [high]) % 2 ^ 32, none⟩ := by
      simp [addBytes, addByte, flush, addWord, wordSum, value]
    rw [finish, finish, flushed]
  | high :: low :: rest =>
    have step : addBytes ⟨sum % 2 ^ 32, none⟩ (high :: low :: rest) =
        addBytes ⟨(sum + value [high, low]) % 2 ^ 32, none⟩ rest := by
      simp [addBytes, addByte, addWord]
    rw [step, finish_addBytes]
    simp [wordSum, value, Nat.add_assoc]

theorem finish_eq_check {n : Nat} (small : n < 2 ^ 32) : finish ⟨n, none⟩ = check n := by
  have folded : foldCarries 2 n = fold n := by
    unfold foldCarries
    split
    · unfold foldCarries
      split
      · rw [foldCarries, ← fold_round n, ← fold_round (n % 65536 + n / 65536), fold_of_small]
        omega
      · rw [← fold_round n, fold_of_small]
        omega
    · rw [fold_of_small]
      omega
  have bound := fold_le n
  simp only [finish, flush, folded, check]
  split <;> split <;> omega

end Checksum

theorem transportChecksum_eq {source destination segment : List UInt8} (nextHeader : UInt8)
    (sourceLength : source.length = 16) (destinationLength : destination.length = 16)
    (short : segment.length ≤ 65535) :
    transportChecksum source destination nextHeader segment =
      check (wordSum (pseudoHeader source destination nextHeader segment.length) +
        wordSum segment) := by
  have length : segment.length % 2 ^ 32 = segment.length := Nat.mod_eq_of_lt (by omega)
  have header : (pseudoHeader source destination nextHeader segment.length).length = 40 := by
    simp [pseudoHeader, sourceLength, destinationLength]
  have headerSum := wordSum_le (pseudoHeader source destination nextHeader segment.length)
  have segmentSum := wordSum_le segment
  rw [header] at headerSum
  have total : wordSum (pseudoHeader source destination nextHeader segment.length) +
      wordSum segment < 2 ^ 32 := by
    omega
  have summed := Checksum.finish_addBytes 0
    (pseudoHeader source destination nextHeader segment.length ++ segment)
  rw [wordSum_append segment (by omega), Nat.zero_add, Nat.mod_eq_of_lt total,
    Checksum.finish_eq_check total] at summed
  rw [transportChecksum, length]
  simp only [Checksum.addBytes_addBytes]
  rw [← summed]
  simp only [pseudoHeader, Checksum.new, Nat.zero_mod]

theorem transportChecksum_lt (source destination : List UInt8) (nextHeader : UInt8)
    (segment : List UInt8) : transportChecksum source destination nextHeader segment < 65536 := by
  simp only [transportChecksum, Checksum.finish]
  split
  · decide
  · exact Nat.lt_succ_of_le (Nat.sub_le _ _)

/-- A segment whose zeroed check word is filled in sums, pseudo-header included, to all ones. -/
theorem fold_filled_checksum {source destination segment : List UInt8} (nextHeader : UInt8)
    {start : Nat} (sourceLength : source.length = 16) (destinationLength : destination.length = 16)
    (short : segment.length ≤ 65535) (even : start % 2 = 0)
    (inside : start + 2 ≤ segment.length) (zero : cut segment start (start + 2) = [0, 0]) :
    fold (wordSum (pseudoHeader source destination nextHeader segment.length ++
      overwrite segment start
        (toBytes 2 (transportChecksum source destination nextHeader segment)))) = 65535 := by
  have header : (pseudoHeader source destination nextHeader segment.length).length = 40 := by
    simp [pseudoHeader, sourceLength, destinationLength]
  rw [wordSum_append _ (by omega), wordSum_overwrite even inside zero (transportChecksum_lt _ _ _ _),
    transportChecksum_eq nextHeader sourceLength destinationLength short, ← Nat.add_assoc,
    fold_add_check]

end SchcCore
