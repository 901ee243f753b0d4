import SchcCore.Packet.Builder
import SchcCore.Rule.Load

/- The errors about entries whose parts do not belong together, and the computations that never
   report one. -/
namespace SchcCore
open Outcome

/-- A not-sent or lsb entry without a byte target, an lsb entry without msb, a mapping-sent
    entry without a mapping. -/
inductive SchcError.IllTyped : SchcError → Prop where
  | notSent (field : FieldRef) :
      IllTyped (.invalidResidue ("not-sent field " ++ field.debug ++ " requires a byte target"))
  | lsbTarget : IllTyped (.invalidResidue "lsb requires a byte target")
  | lsbOperator : IllTyped (.invalidResidue "lsb requires an msb matching operator")
  | mappingTarget : IllTyped (.invalidResidue "mapping-sent requires a mapping target")

/-- What no step along a rule reports: an ill-typed entry, or the nature of a rule. -/
inductive SchcError.Foreign : SchcError → Prop where
  | illTyped {error : SchcError} : error.IllTyped → Foreign error
  | nature (nature : String) : Foreign (.unsupportedRuleNature nature)

/-- Returns, or fails with an error about something else. -/
abbrev Sound {α : Type} (x : Result α) : Prop := Within (fun error => ¬ error.Foreign) x

/-- Returns, or fails with an error that is not about an ill-typed entry. -/
abbrev WellTyped {α : Type} (x : Result α) : Prop := Within (fun error => ¬ error.IllTyped) x

theorem wellTyped_of_sound {α : Type} {x : Result α} (sound : Sound x) : WellTyped x :=
  sound.mono fun _ other ill => other (.illTyped ill)

/- Texts of other errors. -/

/-- The eight characters that the text of such an error starts with. -/
theorem SchcError.IllTyped.front {text : String} (ill : IllTyped (.invalidResidue text)) :
    text.toList.take 8 ∈
      ["not-sent".toList, "lsb requ".toList, "mapping-".toList] := by
  generalize same : SchcError.invalidResidue text = error at ill
  cases ill with
  | notSent field =>
    cases same
    rw [String.toList_append, String.toList_append, List.append_assoc,
      List.take_append_of_le_length (by decide +kernel)]
    decide +kernel
  | lsbTarget => cases same; decide +kernel
  | lsbOperator => cases same; decide +kernel
  | mappingTarget => cases same; decide +kernel

theorem sound_text {α : Type} {text : String}
    (other : text.toList.take 8 ∉ ["not-sent".toList, "lsb requ".toList, "mapping-".toList]) :
    Sound (invalidResidue text : Result α) :=
  within_fail fun | .illTyped ill => other ill.front

/-- A text is told apart by its first part, if that is long enough. -/
theorem sound_front {α : Type} {front rest : String} (long : 8 ≤ front.toList.length)
    (other : front.toList.take 8 ∉
      ["not-sent".toList, "lsb requ".toList, "mapping-".toList]) :
    Sound (invalidResidue (front ++ rest) : Result α) := by
  refine sound_text ?_
  rwa [String.toList_append, List.take_append_of_le_length long]

theorem sound_packetError {α : Type} (protocol reason : String) :
    Sound (packetError protocol reason : Result α) :=
  within_fail fun ill => nomatch ill

/- Packets. -/

theorem Ipv6Packet.sound_parse (input : List UInt8) : Sound (parse input) := by
  refine within_dite (fun _ => sound_packetError _ _) fun _ => ?_
  refine within_dite (fun _ => sound_packetError _ _) fun _ => ?_
  refine within_dite (fun _ => sound_packetError _ _) fun _ => ?_
  exact within_dite (fun _ => sound_packetError _ _) fun _ => within_ok _

theorem UdpDatagram.sound_parse (input : List UInt8) : Sound (parse input) := by
  refine within_dite (fun _ => sound_packetError _ _) fun _ => ?_
  refine within_dite (fun _ => sound_packetError _ _) fun _ => ?_
  refine within_dite (fun _ => sound_packetError _ _) fun _ => ?_
  exact within_dite (fun _ => sound_packetError _ _) fun _ => within_ok _

theorem Icmpv6Message.sound_parse (input : List UInt8) : Sound (parse input) :=
  within_dite (fun _ => sound_packetError _ _) fun _ =>
    within_dite (fun _ => sound_packetError _ _) fun _ => within_ok _

theorem sound_packetForScope (packet : List UInt8) (scope : PacketScope) :
    Sound (packetForScope packet scope) := by
  cases scope with
  | outer => exact within_bind (Ipv6Packet.sound_parse packet) fun _ _ => within_ok _
  | embedded =>
    refine within_bind (Ipv6Packet.sound_parse packet) fun ipv6 _ => ?_
    refine within_ite (fun _ => sound_packetError _ _) fun _ => ?_
    refine within_bind (Icmpv6Message.sound_parse _) fun icmp _ => ?_
    refine within_ite (fun _ => sound_packetError _ _) fun _ => ?_
    refine within_ite (fun _ => sound_packetError _ _) fun _ => ?_
    exact within_bind (Ipv6Packet.sound_parse _) fun _ _ => within_ok _

namespace CoapMessage

theorem sound_readExtended (field : String) {nibble : UInt8} (input : List UInt8)
    (four : nibble ≤ 15) : Sound (readExtended field nibble input) := by
  refine within_of_safe (safe_readExtended field input four) fun e failed ill => ?_
  unfold readExtended at failed
  split at failed
  · cases failed
  · split at failed
    · cases input with
      | nil => cases failed; nomatch ill
      | cons b input => cases failed
    · split at failed
      · match input, failed with
        | [], failed => cases failed; nomatch ill
        | [_], failed => cases failed; nomatch ill
        | _ :: _ :: _, failed => cases failed
      · split at failed
        · cases failed; nomatch ill
        · cases failed

theorem sound_parseOptions {fuel number : Nat} {input : List UInt8}
    (enough : input.length ≤ fuel) : Sound (parseOptions fuel number input) := by
  induction fuel generalizing number input with
  | zero =>
    have empty : input = [] := List.length_eq_zero_iff.mp (by omega)
    subst empty
    exact within_ok _
  | succ fuel ih =>
    cases input with
    | nil => exact within_ok _
    | cons header input =>
      obtain ⟨high, low⟩ := nibbles_small header
      simp only [List.length_cons] at enough
      rw [parseOptions]
      refine within_ite (fun _ => within_ite (fun _ => sound_packetError _ _)
        fun _ => within_ok _) fun _ => ?_
      refine within_bind (sound_readExtended _ _ high) ?_
      rintro ⟨delta, afterDelta⟩ readDelta
      refine within_bind (sound_readExtended _ _ low) ?_
      rintro ⟨length, afterLength⟩ readLength
      refine within_ite (fun _ => sound_packetError _ _) fun _ => ?_
      refine within_ite (fun _ => sound_packetError _ _) fun _ => ?_
      have shorterDelta := readExtended_shorter readDelta
      have shorterLength := readExtended_shorter readLength
      refine within_bind (ih ?_) fun _ _ => within_ok _
      rw [List.length_drop]
      omega

theorem sound_parse (input : List UInt8) : Sound (parse input) := by
  unfold parse
  split
  · refine within_ite (fun _ => sound_packetError _ _) fun _ => ?_
    refine within_ite (fun _ => sound_packetError _ _) fun _ => ?_
    exact within_bind (sound_parseOptions (by simp)) fun _ _ => within_ok _
  · exact sound_packetError _ _

theorem sound_fromParts (version messageType code : UInt8) (messageId : UInt16)
    (token : List UInt8) (options : List CoapOption) (payload : List UInt8) :
    Sound (fromParts version messageType code messageId token options payload) := by
  have order : ∀ previous, Sound (checkOptionOrder previous options) := by
    induction options with
    | nil => exact fun _ => within_ok _
    | cons option options ih =>
      exact fun _ => within_ite (fun _ => sound_packetError _ _) fun _ =>
        within_ite (fun _ => sound_packetError _ _) fun _ => ih _
  refine within_ite (fun _ => sound_packetError _ _) fun _ => ?_
  refine within_ite (fun _ => sound_packetError _ _) fun _ => ?_
  refine within_ite (fun _ => sound_packetError _ _) fun _ => ?_
  exact within_bind (order 0) fun _ _ => within_ok _

end CoapMessage

/- Values. -/

theorem BitWriter.sound_writeBits (w : BitWriter) (value bits : Nat) :
    Sound (w.writeBits value bits) := by
  refine within_bind (within_ite (fun _ => within_fail nofun) fun _ => within_ok _) fun _ _ => ?_
  exact within_ite (fun _ => within_fail nofun) fun _ => within_ok _

namespace FieldValue

theorem sound_fromBytes (bytes : List UInt8) (bitLen : Nat) : Sound (fromBytes bytes bitLen) := by
  refine within_dite (fun _ => within_fail nofun) fun _ => ?_
  refine within_dite (fun _ => within_ok _) fun _ => ?_
  exact within_dite (fun _ => sound_text (by decide +kernel)) fun _ => within_ok _

theorem sound_fromU64 (value bitLen : Nat) : Sound (fromU64 value bitLen) := by
  refine within_ite (fun _ => within_fail nofun) fun _ => ?_
  refine within_ite (fun _ => within_fail nofun) fun _ => ?_
  refine within_ite (fun _ => ?_) fun _ => sound_fromBytes _ _
  exact within_bind (BitWriter.sound_writeBits _ _ _) fun _ _ => sound_fromBytes _ _

theorem sound_toU64 (v : FieldValue) : Sound v.toU64 := by
  refine within_of_safe v.safe_toU64 fun e failed ill => ?_
  by_cases narrow : v.bitLen ≤ 64
  · rw [toU64_eq narrow] at failed
    cases failed
  · rw [toU64, if_pos (by omega)] at failed
    cases failed
    cases ill with
    | illTyped ill => cases ill

theorem sound_writeRangeTo (v : FieldValue) (writer : BitWriter) (start bits : Nat) :
    Sound (v.writeRangeTo writer start bits) := by
  refine within_of_safe (v.safe_writeRangeTo writer start bits) fun e failed ill => ?_
  by_cases inside : start + bits ≤ v.bitLen
  · obtain ⟨w, wrote, -⟩ := v.writeRangeTo_eq writer inside
    rw [wrote] at failed
    cases failed
  · have outside : start > v.bitLen ∨ bits > v.bitLen - start := by omega
    rw [writeRangeTo, if_pos outside] at failed
    cases failed
    cases ill with
    | illTyped ill => cases ill

end FieldValue

theorem sound_bytesAsValue (bytes : List UInt8) (bitLen : Nat) :
    Sound (bytesAsValue bytes bitLen) := by
  refine within_ite (fun _ => ?_) fun _ =>
    within_ite (fun _ => FieldValue.sound_fromU64 _ _) fun _ => FieldValue.sound_fromBytes _ _
  change Sound (invalidResidue ("target value has " ++ toString bytes.length ++
    " bytes but field is " ++ toString bitLen ++ " bits"))
  rw [String.append_assoc, String.append_assoc, String.append_assoc]
  exact sound_front (by decide +kernel) (by decide +kernel)

theorem sound_targetAsValue (target : TargetValue) (bitLen : Nat) :
    Sound (targetAsValue target bitLen) := by
  unfold targetAsValue
  split
  · exact within_bind (sound_bytesAsValue _ _) fun _ _ => within_ok _
  · exact within_ok _

theorem LengthResolver.sound_resolve (lengths : LengthResolver) (length : FieldLength)
    (fields : FieldStore) : Sound (lengths.resolve length fields) := by
  unfold resolve
  split
  · exact within_ok _
  · split
    · exact within_ok _
    · exact sound_text (by decide +kernel)
  · split
    · exact sound_front (by decide +kernel) (by decide +kernel)
    · refine within_bind (FieldValue.sound_toU64 _) fun _ _ => ?_
      split
      · exact within_ok _
      · exact within_ok _
  · exact sound_text (by decide +kernel)
  · exact sound_text (by decide +kernel)
  · exact sound_front (by decide +kernel) (by decide +kernel)

theorem sound_writeVariableLengthPrefix (writer : BitWriter) (value : Nat) :
    Sound (writeVariableLengthPrefix writer value) := by
  refine within_ite (fun _ => BitWriter.sound_writeBits _ _ _) fun _ => ?_
  refine within_ite (fun _ => within_bind (BitWriter.sound_writeBits _ _ _) fun _ _ =>
    BitWriter.sound_writeBits _ _ _) fun _ => ?_
  refine within_ite (fun _ => within_bind (BitWriter.sound_writeBits _ _ _) fun _ _ =>
    within_bind (BitWriter.sound_writeBits _ _ _) fun _ _ => BitWriter.sound_writeBits _ _ _)
    fun _ => ?_
  change Sound (invalidResidue ("variable length " ++ toString value ++ " is too large"))
  rw [String.append_assoc]
  exact sound_front (by decide +kernel) (by decide +kernel)

end SchcCore
