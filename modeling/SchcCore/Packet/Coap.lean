import SchcCore.Error
import SchcCore.Lib.BigEndian

/- CoAP messages: parsing, construction and canonical serialization. Option numbers are
   cumulative; a header byte holds a delta and a length nibble, each with an optional
   8-bit or 16-bit extension. -/
namespace SchcCore
open Outcome
open Bytes (forall_byte)
open BigEndian (toBytes_two value_two_lt)

def payloadMarker : UInt8 := 0xff

structure CoapOption where
  number : UInt32
  value : List UInt8
  deriving DecidableEq

def CoapOption.new (number : UInt32) (value : List UInt8) : Result CoapOption :=
  if value.length ≥ 2 ^ 32 then packetError "CoAP" "option length does not fit u32"
  else if value.length > 65804 then packetError "CoAP" "option length exceeds encodable range"
  else .ok ⟨number, value⟩

structure CoapMessage where
  version : UInt8
  messageType : UInt8
  code : UInt8
  messageId : UInt16
  token : List UInt8
  options : List CoapOption
  payload : List UInt8
  deriving DecidableEq

/-- Returns the value and the input after its extension bytes. -/
def readExtended (field : String) (nibble : UInt8) (input : List UInt8) :
    Result (Nat × List UInt8) :=
  if nibble ≤ 12 then .ok (nibble.toNat, input)
  else if nibble = 13 then
    match input with
    | byte :: rest => .ok (byte.toNat + 13, rest)
    | [] => packetError "CoAP" s!"{field} missing 8-bit extension"
  else if nibble = 14 then
    match input with
    | high :: low :: rest => .ok (BigEndian.value [high, low] + 269, rest)
    | _ => packetError "CoAP" s!"{field} missing 16-bit extension"
  else if nibble = 15 then packetError "CoAP" s!"{field} uses reserved nibble value 15"
  else panicAt (.unreachable "option nibble is four bits")

/-- Returns the nibble and the extension bytes. -/
def encodeExtended (value : Nat) : Result (UInt8 × List UInt8) :=
  if value ≤ 12 then .ok (UInt8.ofNat value, [])
  else if value ≤ 268 then .ok (13, [UInt8.ofNat (value - 13)])
  else if value ≤ 65804 then .ok (14, BigEndian.toBytes 2 (value - 269))
  else panicAt (.expect "parsed CoAP option delta or length exceeds encodable range")

namespace CoapMessage

/-- The option loop of `parse` on the bytes not yet read. Every round reads at least the
    header byte, so the input's length is enough fuel. -/
def parseOptions : Nat → Nat → List UInt8 → Result (List CoapOption × List UInt8)
  | _, _, [] => .ok ([], [])
  | 0, _, _ :: _ => panicAt .stackOverflow
  | fuel + 1, optionNumber, optionHeader :: input =>
      if optionHeader = payloadMarker then
        if input = [] then packetError "CoAP" "payload marker without payload"
        else .ok ([], input)
      else do
        let (delta, input) ← readExtended "option delta" (optionHeader >>> 4) input
        let (length, input) ← readExtended "option length" (optionHeader &&& 0x0f) input
        if length > input.length then
          packetError "CoAP" "option length exceeds available bytes"
        else if optionNumber + delta ≥ 2 ^ 32 then
          packetError "CoAP" "option number overflows u32"
        else do
          let (options, payload) ← parseOptions fuel (optionNumber + delta) (input.drop length)
          .ok (⟨UInt32.ofNat (optionNumber + delta), input.take length⟩ :: options, payload)

def parse : List UInt8 → Result CoapMessage
  | first :: code :: idHigh :: idLow :: input =>
      let version := first >>> 6
      let messageType := (first >>> 4) &&& 0x03
      let tokenLen := (first &&& 0x0f).toNat
      if tokenLen > 8 then packetError "CoAP" "token length exceeds 8 bytes"
      else if tokenLen > input.length then
        packetError "CoAP" "token length exceeds available bytes"
      else do
        let (options, payload) ← parseOptions input.length 0 (input.drop tokenLen)
        .ok ⟨version, messageType, code, UInt16.ofNat (BigEndian.value [idHigh, idLow]),
          input.take tokenLen, options, payload⟩
  | _ => packetError "CoAP" "message shorter than 4-byte header"

/-- `for option in &options`: numbers do not decrease and every delta is encodable. -/
def checkOptionOrder : Nat → List CoapOption → Result Unit
  | _, [] => .ok ()
  | previous, option :: options =>
      if option.number.toNat < previous then
        packetError "CoAP" "options are not in nondecreasing order"
      else if option.number.toNat - previous > 65804 then
        packetError "CoAP" "option delta exceeds encodable range"
      else checkOptionOrder option.number.toNat options

def fromParts (version messageType code : UInt8) (messageId : UInt16) (token : List UInt8)
    (options : List CoapOption) (payload : List UInt8) : Result CoapMessage := do
  if version > 3 then packetError "CoAP" "version exceeds 3"
  else if messageType > 3 then packetError "CoAP" "message type exceeds 3"
  else if token.length > 8 then packetError "CoAP" "token length exceeds 8 bytes"
  else do
    checkOptionOrder 0 options
    .ok ⟨version, messageType, code, messageId, token, options, payload⟩

/-- The option loop of `to_vec`. -/
def optionBytes : Nat → List CoapOption → Result (List UInt8)
  | _, [] => .ok []
  | previous, option :: options =>
      if option.number.toNat < previous then
        panicAt (.expect "parsed CoAP options are in nondecreasing order")
      else if option.value.length ≥ 2 ^ 32 then panicAt (.expect "option length fits u32")
      else do
        let (deltaNibble, deltaExtra) ← encodeExtended (option.number.toNat - previous)
        let (lengthNibble, lengthExtra) ← encodeExtended option.value.length
        let later ← optionBytes option.number.toNat options
        .ok (((deltaNibble <<< 4) ||| lengthNibble) ::
          (deltaExtra ++ lengthExtra ++ option.value ++ later))

def payloadBytes (payload : List UInt8) : List UInt8 :=
  if payload = [] then [] else payloadMarker :: payload

def toVec (m : CoapMessage) : Result (List UInt8) :=
  if m.token.length ≥ 2 ^ 8 then panicAt (.expect "parsed CoAP token length fits u8")
  else do
    let first := (m.version <<< 6) ||| (m.messageType <<< 4) ||| UInt8.ofNat m.token.length
    let options ← optionBytes 0 m.options
    .ok (first :: m.code :: (BigEndian.toBytes 2 m.messageId.toNat ++ m.token ++ options ++
      payloadBytes m.payload))

end CoapMessage

/-- Of the three forms of a number the parser accepts only the one the encoder writes. -/
theorem encodeExtended_of_read {field : String} {nibble : UInt8} {input rest : List UInt8} {n : Nat}
    (read : readExtended field nibble input = .ok (n, rest)) :
    ∃ extra, encodeExtended n = .ok (nibble, extra) ∧ input = extra ++ rest ∧ n ≤ 65804 := by
  unfold readExtended at read
  split at read
  · rename_i small
    cases read
    have bound : nibble.toNat ≤ 12 := small
    exact ⟨[], by simp [encodeExtended, bound], rfl, by omega⟩
  · split at read
    · rename_i _ thirteen
      cases input with
      | nil => simp at read
      | cons byte input =>
        cases read
        have digit := byte.toNat_lt
        have large : ¬ byte.toNat + 13 ≤ 12 := by omega
        have under : byte.toNat + 13 ≤ 268 := by omega
        exact ⟨[byte], by simp [encodeExtended, thirteen, under], rfl, by omega⟩
    · split at read
      · rename_i _ _ fourteen
        match input, read with
        | high :: low :: input, read =>
          cases read
          have bound := value_two_lt high low
          have large : ¬ BigEndian.value [high, low] + 269 ≤ 12 := by omega
          have wide : ¬ BigEndian.value [high, low] + 269 ≤ 268 := by omega
          have under : BigEndian.value [high, low] + 269 ≤ 65804 := by omega
          refine ⟨[high, low], ?_, rfl, under⟩
          simp only [encodeExtended, large, wide, under, ↓reduceIte, Nat.add_sub_cancel, toBytes_two,
            fourteen]
        | [], read => simp at read
        | [_], read => simp at read
      · split at read <;> simp at read

theorem read_encodeExtended {n : Nat} (field : String) (encodable : n ≤ 65804) :
    ∃ nibble extra, encodeExtended n = .ok (nibble, extra) ∧ nibble ≤ 14 ∧
      ∀ rest, readExtended field nibble (extra ++ rest) = .ok (n, rest) := by
  unfold encodeExtended
  by_cases small : n ≤ 12
  · have byte : (UInt8.ofNat n).toNat = n := by rw [UInt8.toNat_ofNat']; omega
    have nibble : UInt8.ofNat n ≤ 12 := by rw [UInt8.le_iff_toNat_le, byte]; exact small
    refine ⟨UInt8.ofNat n, [], by simp [small], ?_, ?_⟩
    · rw [UInt8.le_iff_toNat_le, byte, show (14 : UInt8).toNat = 14 by rfl]
      omega
    · intro rest
      simp [readExtended, nibble, byte]
  · by_cases medium : n ≤ 268
    · refine ⟨13, [UInt8.ofNat (n - 13)], by simp [small, medium], by decide, ?_⟩
      intro rest
      have byte : (UInt8.ofNat (n - 13)).toNat = n - 13 := by rw [UInt8.toNat_ofNat']; omega
      have big : ¬ (13 : UInt8) ≤ 12 := by decide
      simp only [readExtended, big, ↓reduceIte, List.cons_append, List.nil_append, byte]
      rw [Nat.sub_add_cancel (by omega)]
    · refine ⟨14, BigEndian.toBytes 2 (n - 269), by simp [small, medium, encodable], by decide, ?_⟩
      intro rest
      have big : ¬ (14 : UInt8) ≤ 12 := by decide
      have other : ¬ (14 : UInt8) = 13 := by decide
      have fits : n - 269 < 256 ^ 2 := by omega
      have bytes := BigEndian.value_toBytes fits
      simp only [BigEndian.toBytes] at bytes
      simp only [readExtended, big, other, ↓reduceIte, BigEndian.toBytes, List.cons_append,
        List.nil_append, bytes]
      rw [Nat.sub_add_cancel (by omega)]

theorem option_header_split (header : UInt8) :
    ((header >>> 4) <<< 4) ||| (header &&& 0x0f) = header := by
  revert header
  refine forall_byte ?_
  decide +kernel

theorem option_header_join {a b : UInt8} (ha : a ≤ 14) (hb : b ≤ 14) :
    ((a <<< 4) ||| b) ≠ payloadMarker ∧ ((a <<< 4) ||| b) >>> 4 = a ∧
      ((a <<< 4) ||| b) &&& 0x0f = b := by
  have table : ∀ x y : Fin 15,
      ((UInt8.ofNat x <<< 4) ||| UInt8.ofNat y) ≠ payloadMarker ∧
        ((UInt8.ofNat x <<< 4) ||| UInt8.ofNat y) >>> 4 = UInt8.ofNat x ∧
        ((UInt8.ofNat x <<< 4) ||| UInt8.ofNat y) &&& 0x0f = UInt8.ofNat y := by decide +kernel
  have boundA : a.toNat < 15 := Nat.lt_succ_of_le (UInt8.le_iff_toNat_le.mp ha)
  have boundB : b.toNat < 15 := Nat.lt_succ_of_le (UInt8.le_iff_toNat_le.mp hb)
  simpa using table ⟨a.toNat, boundA⟩ ⟨b.toNat, boundB⟩

theorem first_byte_split (first : UInt8) :
    first >>> 6 ≤ 3 ∧ (first >>> 4) &&& 0x03 ≤ 3 ∧
      ((first >>> 6) <<< 6) ||| (((first >>> 4) &&& 0x03) <<< 4) ||| (first &&& 0x0f) = first := by
  revert first
  refine forall_byte ?_
  decide +kernel

theorem first_byte_join {version messageType tokenLen : UInt8} (hv : version ≤ 3)
    (ht : messageType ≤ 3) (hk : tokenLen ≤ 15) :
    ((version <<< 6) ||| (messageType <<< 4) ||| tokenLen) >>> 6 = version ∧
      (((version <<< 6) ||| (messageType <<< 4) ||| tokenLen) >>> 4) &&& 0x03 = messageType ∧
      ((version <<< 6) ||| (messageType <<< 4) ||| tokenLen) &&& 0x0f = tokenLen := by
  have table : ∀ (v t : Fin 4) (k : Fin 16),
      ((UInt8.ofNat v <<< 6) ||| (UInt8.ofNat t <<< 4) ||| UInt8.ofNat k) >>> 6 = UInt8.ofNat v ∧
        (((UInt8.ofNat v <<< 6) ||| (UInt8.ofNat t <<< 4) ||| UInt8.ofNat k) >>> 4) &&& 0x03 =
          UInt8.ofNat t ∧
        ((UInt8.ofNat v <<< 6) ||| (UInt8.ofNat t <<< 4) ||| UInt8.ofNat k) &&& 0x0f =
          UInt8.ofNat k := by decide +kernel
  have boundV : version.toNat < 4 := Nat.lt_succ_of_le (UInt8.le_iff_toNat_le.mp hv)
  have boundT : messageType.toNat < 4 := Nat.lt_succ_of_le (UInt8.le_iff_toNat_le.mp ht)
  have boundK : tokenLen.toNat < 16 := Nat.lt_succ_of_le (UInt8.le_iff_toNat_le.mp hk)
  simpa using table ⟨version.toNat, boundV⟩ ⟨messageType.toNat, boundT⟩ ⟨tokenLen.toNat, boundK⟩

namespace CoapMessage

/-- What `from_parts` checks of the options, with the value lengths `CoapOption::new` allows. -/
def OptionsEncodable : Nat → List CoapOption → Prop
  | _, [] => True
  | previous, option :: options =>
      previous ≤ option.number.toNat ∧ option.number.toNat - previous ≤ 65804 ∧
        option.value.length ≤ 65804 ∧ OptionsEncodable option.number.toNat options

theorem options_encodable_iff (previous : Nat) (options : List CoapOption) :
    OptionsEncodable previous options ↔
      checkOptionOrder previous options = .ok () ∧ ∀ o ∈ options, o.value.length ≤ 65804 := by
  induction options generalizing previous with
  | nil => simp [OptionsEncodable, checkOptionOrder]
  | cons option options ih =>
    simp only [OptionsEncodable, checkOptionOrder, ih, List.mem_cons, forall_eq_or_imp]
    by_cases decreasing : option.number.toNat < previous
    · have : ¬ previous ≤ option.number.toNat := by omega
      simp [decreasing, this]
    · by_cases jump : option.number.toNat - previous > 65804
      · have : ¬ option.number.toNat - previous ≤ 65804 := by omega
        simp [decreasing, jump, this]
      · have ordered : previous ≤ option.number.toNat := by omega
        have near : option.number.toNat - previous ≤ 65804 := by omega
        simp only [decreasing, jump, ↓reduceIte, ordered, near, true_and]
        tauto

theorem option_new_length {number : UInt32} {value : List UInt8} {o : CoapOption}
    (made : CoapOption.new number value = .ok o) : o = ⟨number, value⟩ ∧ o.value.length ≤ 65804 := by
  unfold CoapOption.new at made
  split at made
  · simp at made
  · split at made
    · simp at made
    · cases made
      exact ⟨rfl, by simp only; omega⟩

/-- One round of the option loop, read backwards: what was parsed is what would be written. -/
theorem optionBytes_of_parse {fuel number : Nat} {input payload : List UInt8}
    {options : List CoapOption} (small : number < 2 ^ 32)
    (parsed : parseOptions fuel number input = .ok (options, payload)) :
    OptionsEncodable number options ∧
      ∃ bytes, optionBytes number options = .ok bytes ∧ input = bytes ++ payloadBytes payload := by
  induction fuel generalizing number input options with
  | zero =>
    cases input with
    | nil =>
      cases parsed
      exact ⟨trivial, [], rfl, rfl⟩
    | cons header input => simp [parseOptions] at parsed
  | succ fuel ih =>
    cases input with
    | nil =>
      cases parsed
      exact ⟨trivial, [], rfl, rfl⟩
    | cons header input =>
      simp only [parseOptions] at parsed
      split at parsed
      · rename_i marker
        split at parsed
        · simp at parsed
        · rename_i nonempty
          cases parsed
          exact ⟨trivial, [], rfl, by simp [payloadBytes, nonempty, marker]⟩
      · simp only [bind_eq_ok] at parsed
        obtain ⟨⟨delta, afterDelta⟩, readDelta, ⟨length, afterLength⟩, readLength, parsed⟩ := parsed
        split at parsed
        · simp at parsed
        · rename_i available
          split at parsed
          · simp at parsed
          · rename_i fits
            simp only [bind_eq_ok] at parsed
            obtain ⟨⟨later, rest⟩, parsedLater, made⟩ := parsed
            cases made
            obtain ⟨deltaExtra, deltaEncoded, deltaInput, deltaBound⟩ := encodeExtended_of_read readDelta
            obtain ⟨lengthExtra, lengthEncoded, lengthInput, lengthBound⟩ :=
              encodeExtended_of_read readLength
            obtain ⟨ordered, bytes, written, split⟩ := ih (by omega) parsedLater
            have total : (UInt32.ofNat (number + delta)).toNat = number + delta := by
              rw [UInt32.toNat_ofNat']
              exact Nat.mod_eq_of_lt (by omega)
            have taken : (afterLength.take length).length = length := by
              rw [List.length_take]
              simp only at available
              omega
            refine ⟨⟨?_, ?_, ?_, ?_⟩, ?_⟩
            · rw [total]; omega
            · rw [total]; omega
            · rw [taken]; exact lengthBound
            · rw [total]; exact ordered
            · have forward : ¬ number + delta < number := by omega
              have short : ¬ length ≥ 2 ^ 32 := by omega
              refine ⟨(((header >>> 4) <<< 4) ||| (header &&& 0x0f)) ::
                (deltaExtra ++ lengthExtra ++ afterLength.take length ++ bytes), ?_, ?_⟩
              · simp only [optionBytes, total, taken, forward, short, ↓reduceIte,
                  Nat.add_sub_cancel_left, deltaEncoded, lengthEncoded, written, ok_bind]
              · dsimp only at lengthInput split
                rw [option_header_split, deltaInput, lengthInput, List.cons_append, List.append_assoc,
                  ← split, List.append_assoc, List.take_append_drop, List.append_assoc]

theorem parse_optionBytes {number : Nat} {options : List CoapOption}
    (encodable : OptionsEncodable number options) :
    ∃ bytes, optionBytes number options = .ok bytes ∧ ∀ payload fuel,
      (bytes ++ payloadBytes payload).length ≤ fuel →
        parseOptions fuel number (bytes ++ payloadBytes payload) = .ok (options, payload) := by
  induction options generalizing number with
  | nil =>
    refine ⟨[], rfl, ?_⟩
    intro payload fuel enough
    cases payload with
    | nil => cases fuel <;> rfl
    | cons b payload =>
      cases fuel with
      | zero => simp [payloadBytes] at enough
      | succ fuel => simp [payloadBytes, parseOptions]
  | cons option options ih =>
    obtain ⟨ordered, near, short, later⟩ := encodable
    obtain ⟨bytes, written, reparsed⟩ := ih later
    obtain ⟨deltaNibble, deltaExtra, deltaEncoded, deltaSmall, readDelta⟩ :=
      read_encodeExtended "option delta" near
    obtain ⟨lengthNibble, lengthExtra, lengthEncoded, lengthSmall, readLength⟩ :=
      read_encodeExtended "option length" short
    obtain ⟨notMarker, high, low⟩ := option_header_join deltaSmall lengthSmall
    have forward : ¬ option.number.toNat < number := by omega
    have narrow : ¬ option.value.length ≥ 2 ^ 32 := by omega
    refine ⟨((deltaNibble <<< 4) ||| lengthNibble) ::
      (deltaExtra ++ lengthExtra ++ option.value ++ bytes), ?_, ?_⟩
    · simp only [optionBytes, forward, narrow, ↓reduceIte, deltaEncoded, lengthEncoded, written, ok_bind]
    · intro payload fuel enough
      cases fuel with
      | zero => simp at enough
      | succ fuel =>
        have sum : number + (option.number.toNat - number) = option.number.toNat := by omega
        have bound : option.number.toNat < 4294967296 := option.number.toNat_lt
        have roomy : (bytes ++ payloadBytes payload).length ≤ fuel := by
          simp only [List.cons_append, List.length_cons, List.length_append] at enough ⊢
          omega
        simp only [List.cons_append, parseOptions, notMarker, ↓reduceIte, high, low]
        rw [List.append_assoc, List.append_assoc, List.append_assoc, readDelta, ok_bind]
        simp only []
        rw [readLength, ok_bind]
        simp [sum, bound, reparsed payload fuel roomy]

theorem token_len_byte {n : Nat} (h : n ≤ 8) : UInt8.ofNat n ≤ 15 ∧ (UInt8.ofNat n).toNat = n := by
  have byte : (UInt8.ofNat n).toNat = n := by rw [UInt8.toNat_ofNat']; omega
  refine ⟨?_, byte⟩
  rw [UInt8.le_iff_toNat_le, byte, show (15 : UInt8).toNat = 15 by rfl]
  omega

theorem message_id_bytes (a b : UInt8) :
    BigEndian.toBytes 2 (UInt16.ofNat (BigEndian.value [a, b])).toNat = [a, b] := by
  have bound : BigEndian.value [a, b] < 2 ^ 16 := value_two_lt a b
  rw [UInt16.toNat_ofNat', Nat.mod_eq_of_lt bound, toBytes_two]

/-- Whatever `parse` accepts is the encoding of a message `from_parts` accepts. -/
theorem toVec_of_parse {x : List UInt8} {m : CoapMessage} (parsed : parse x = .ok m) :
    m.toVec = .ok x ∧
      fromParts m.version m.messageType m.code m.messageId m.token m.options m.payload = .ok m := by
  unfold parse at parsed
  split at parsed
  · rename_i first code idHigh idLow input
    simp only at parsed
    split at parsed
    · simp at parsed
    · rename_i short
      split at parsed
      · simp at parsed
      · rename_i available
        simp only [bind_eq_ok] at parsed
        obtain ⟨⟨options, payload⟩, parsedOptions, made⟩ := parsed
        cases made
        obtain ⟨encodable, bytes, written, split⟩ := optionBytes_of_parse (by decide) parsedOptions
        obtain ⟨versionSmall, typeSmall, joined⟩ := first_byte_split first
        obtain ⟨ordered, _⟩ := (options_encodable_iff 0 options).mp encodable
        have taken : (input.take (first &&& 0x0f).toNat).length = (first &&& 0x0f).toNat := by
          rw [List.length_take]
          omega
        refine ⟨?_, ?_⟩
        · have narrow : ¬ (first &&& 0x0f).toNat ≥ 2 ^ 8 := by omega
          simp only [toVec, taken, narrow, ↓reduceIte, written, ok_bind, UInt8.ofNat_toNat, joined,
            message_id_bytes]
          rw [List.append_assoc, ← split]
          simp
        · have shortToken : ¬ (input.take (first &&& 0x0f).toNat).length > 8 := by omega
          simp only [fromParts, UInt8.not_lt.mpr versionSmall, UInt8.not_lt.mpr typeSmall,
            gt_iff_lt, ↓reduceIte, ordered, ok_bind]
          simp only [gt_iff_lt] at shortToken
          simp only [shortToken, ↓reduceIte]
  · simp at parsed

/-- Where the parsed header fields stand, and how long the options may be. -/
structure Header (x : List UInt8) (m : CoapMessage) : Prop where
  long : 4 + m.token.length ≤ x.length
  version : m.version = Bytes.byteAt x 0 >>> 6
  messageType : m.messageType = (Bytes.byteAt x 0 >>> 4) &&& 0x03
  tokenLength : m.token.length = (Bytes.byteAt x 0 &&& 0x0f).toNat
  tokenShort : m.token.length ≤ 8
  code : m.code = Bytes.byteAt x 1
  messageId : m.messageId.toNat = BigEndian.value [Bytes.byteAt x 2, Bytes.byteAt x 3]
  token : m.token = Bytes.cut x 4 (4 + m.token.length)
  options : ∀ o ∈ m.options, o.value.length ≤ 65804

theorem header_of_parse {x : List UInt8} {m : CoapMessage} (parsed : parse x = .ok m) :
    Header x m := by
  unfold parse at parsed
  split at parsed
  · rename_i first code idHigh idLow input
    simp only at parsed
    split at parsed
    · simp at parsed
    · rename_i short
      split at parsed
      · simp at parsed
      · rename_i available
        simp only [bind_eq_ok] at parsed
        obtain ⟨⟨options, payload⟩, parsedOptions, made⟩ := parsed
        cases made
        obtain ⟨encodable, -⟩ := optionBytes_of_parse (by decide) parsedOptions
        have taken : (input.take (first &&& 0x0f).toNat).length = (first &&& 0x0f).toNat := by
          rw [List.length_take]
          omega
        have id := value_two_lt idHigh idLow
        constructor
        · simp only [taken, List.length_cons]
          omega
        · rfl
        · rfl
        · exact taken
        · simp only [taken]
          omega
        · rfl
        · change (UInt16.ofNat (BigEndian.value [idHigh, idLow])).toNat = _
          rw [UInt16.toNat_ofNat']
          exact Nat.mod_eq_of_lt id
        · rw [Bytes.cut, Nat.add_comm 4]
          simp
        · exact ((options_encodable_iff 0 options).mp encodable).2
  · simp at parsed

theorem parse_of_fromParts {version messageType code : UInt8} {messageId : UInt16}
    {token payload : List UInt8} {options : List CoapOption} {m : CoapMessage}
    (lengths : ∀ o ∈ options, o.value.length ≤ 65804)
    (made : fromParts version messageType code messageId token options payload = .ok m) :
    ∃ x, m.toVec = .ok x ∧ parse x = .ok m := by
  unfold fromParts at made
  split at made
  · simp at made
  · rename_i versionSmall
    split at made
    · simp at made
    · rename_i typeSmall
      split at made
      · simp at made
      · rename_i tokenSmall
        simp only [bind_eq_ok] at made
        obtain ⟨_, ordered, made⟩ := made
        cases made
        have encodable := (options_encodable_iff 0 options).mpr ⟨ordered, lengths⟩
        obtain ⟨bytes, written, reparsed⟩ := parse_optionBytes encodable
        obtain ⟨tokenNibble, tokenByte⟩ := token_len_byte (show token.length ≤ 8 by omega)
        obtain ⟨high, middle, low⟩ := first_byte_join (UInt8.not_lt.mp versionSmall)
          (UInt8.not_lt.mp typeSmall) tokenNibble
        have narrow : ¬ token.length ≥ 2 ^ 8 := by omega
        have id := BigEndian.value_toBytes (show messageId.toNat < 256 ^ 2 from messageId.toNat_lt)
        simp only [BigEndian.toBytes] at id
        refine ⟨_, by simp only [toVec, narrow, ↓reduceIte, written, ok_bind]; rfl, ?_⟩
        simp only [BigEndian.toBytes, List.cons_append, List.nil_append, parse, low, high, middle,
          tokenByte, tokenSmall, ↓reduceIte, id, UInt16.ofNat_toNat, List.append_assoc]
        have enough : ¬ token.length > (token ++ (bytes ++ payloadBytes payload)).length := by simp
        simp only [enough, ↓reduceIte, List.drop_left, List.take_left]
        rw [reparsed payload _ (by simp), ok_bind]

theorem optionBytes_take {previous : Nat} {options : List CoapOption} {bytes : List UInt8}
    (whole : optionBytes previous options = .ok bytes) (n : Nat) :
    ∃ front, optionBytes previous (options.take n) = .ok front ∧ front <+: bytes := by
  induction options generalizing previous bytes n with
  | nil =>
    rw [List.take_nil]
    exact ⟨bytes, whole, List.prefix_rfl⟩
  | cons option options ih =>
    cases n with
    | zero => exact ⟨[], rfl, List.nil_prefix⟩
    | succ n =>
      rw [List.take_succ_cons]
      unfold optionBytes at whole ⊢
      split at whole
      · cases whole
      · rename_i ordered
        split at whole
        · cases whole
        · rename_i short
          simp only [bind_eq_ok] at whole
          obtain ⟨⟨delta, deltaExtra⟩, first, ⟨length, lengthExtra⟩, second, later, rest, whole⟩ := whole
          cases whole
          obtain ⟨front, written, before⟩ := ih rest n
          simp only [if_neg ordered, if_neg short, first, second, written, ok_bind]
          refine ⟨_, rfl, ?_⟩
          rw [List.cons_prefix_cons]
          exact ⟨rfl, (List.prefix_append_right_inj _).mpr before⟩

/-- The message up to an option is written as the front of the whole message. -/
theorem toVec_take {m leading : CoapMessage} {encoded bytes : List UInt8} {n : Nat}
    (whole : m.toVec = .ok encoded)
    (made : fromParts m.version m.messageType m.code m.messageId m.token (m.options.take n) [] =
      .ok leading) (written : leading.toVec = .ok bytes) : bytes <+: encoded := by
  have parts : leading = ⟨m.version, m.messageType, m.code, m.messageId, m.token,
      m.options.take n, []⟩ := by
    simp only [fromParts, reject_eq_ok (packetError_ne_ok _ _), bind_eq_ok] at made
    obtain ⟨-, -, -, -, -, made⟩ := made
    exact (Except.ok.inj made).symm
  subst parts
  simp only [toVec] at whole written
  split at whole
  · cases whole
  · rename_i short
    rw [if_neg short] at written
    rw [bind_eq_ok] at whole written
    obtain ⟨options, all, whole⟩ := whole
    obtain ⟨leading, some, written⟩ := written
    obtain ⟨front, same, before⟩ := optionBytes_take all n
    cases some.symm.trans same
    cases whole
    cases written
    simp only [List.cons_prefix_cons, true_and, payloadBytes, ↓reduceIte, List.append_nil,
      List.append_assoc, List.prefix_append_right_inj]
    exact before.trans (List.prefix_append _ _)

/-- `parse` and `to_vec` are inverse bijections between the accepted byte strings and the
    messages `from_parts` builds from options made by `CoapOption::new`. -/
theorem coap_codec_bijective :
    (∀ x m, parse x = .ok m →
      m.toVec = .ok x ∧
        fromParts m.version m.messageType m.code m.messageId m.token m.options m.payload = .ok m) ∧
    (∀ version messageType code messageId token options payload m,
      (∀ o ∈ options, ∃ number value, CoapOption.new number value = .ok o) →
      fromParts version messageType code messageId token options payload = .ok m →
      ∃ x, m.toVec = .ok x ∧ parse x = .ok m) := by
  constructor
  · intro x m parsed
    exact toVec_of_parse parsed
  · intro version messageType code messageId token options payload m made built
    refine parse_of_fromParts ?_ built
    intro o member
    obtain ⟨number, value, new⟩ := made o member
    exact (option_new_length new).2

theorem coap_codec_bijective_at_uri_path :
    (∃ m, parse [0x41, 0x01, 0x12, 0x34, 0xaa, 0xbd, 0x01, 0x74, 0x65, 0x6d, 0x70, 0x65, 0x72, 0x61,
        0x74, 0x75, 0x72, 0x65, 0x2f, 0x72, 0x6f, 0xff, 0x07] = .ok m ∧
      m.toVec = .ok [0x41, 0x01, 0x12, 0x34, 0xaa, 0xbd, 0x01, 0x74, 0x65, 0x6d, 0x70, 0x65, 0x72,
        0x61, 0x74, 0x75, 0x72, 0x65, 0x2f, 0x72, 0x6f, 0xff, 0x07]) ∧
    ∃ x, toVec ⟨1, 0, 1, 0x1234, [0xaa], [⟨11, [0x61]⟩, ⟨11, [0x62]⟩], [7]⟩ = .ok x ∧
      parse x = .ok ⟨1, 0, 1, 0x1234, [0xaa], [⟨11, [0x61]⟩, ⟨11, [0x62]⟩], [7]⟩ := by
  constructor
  · exact ⟨_, rfl, (coap_codec_bijective.1 _ _ rfl).1⟩
  · refine coap_codec_bijective.2 1 0 1 0x1234 [0xaa] [⟨11, [0x61]⟩, ⟨11, [0x62]⟩] [7] _ ?_ rfl
    intro o member
    exact ⟨o.number, o.value, by fin_cases member <;> rfl⟩

theorem safe_readExtended (field : String) {nibble : UInt8} (input : List UInt8)
    (four : nibble ≤ 15) : Safe (readExtended field nibble input) := by
  unfold readExtended
  split
  · exact safe_ok _
  · split
    · cases input with
      | nil => exact safe_packetError _ _
      | cons b input => exact safe_ok _
    · split
      · match input with
        | [] => exact safe_packetError _ _
        | [_] => exact safe_packetError _ _
        | _ :: _ :: _ => exact safe_ok _
      · split
        · exact safe_packetError _ _
        · rename_i small thirteen fourteen fifteen
          exfalso
          have bound := UInt8.le_iff_toNat_le.mp four
          rw [UInt8.le_iff_toNat_le] at small
          rw [← UInt8.toNat_inj] at thirteen fourteen fifteen
          simp only [UInt8.reduceToNat] at *
          omega

theorem readExtended_shorter {field : String} {nibble : UInt8} {input rest : List UInt8} {n : Nat}
    (read : readExtended field nibble input = .ok (n, rest)) : rest.length ≤ input.length := by
  obtain ⟨extra, _, split, _⟩ := encodeExtended_of_read read
  rw [split, List.length_append]
  omega

theorem nibbles_small (header : UInt8) : header >>> 4 ≤ 15 ∧ header &&& 0x0f ≤ 15 := by
  revert header
  refine forall_byte ?_
  decide +kernel

theorem safe_parseOptions {fuel number : Nat} {input : List UInt8} (enough : input.length ≤ fuel) :
    Safe (parseOptions fuel number input) := by
  induction fuel generalizing number input with
  | zero =>
    have empty : input = [] := List.length_eq_zero_iff.mp (by omega)
    subst empty
    exact safe_ok _
  | succ fuel ih =>
    cases input with
    | nil => exact safe_ok _
    | cons header input =>
      obtain ⟨high, low⟩ := nibbles_small header
      simp only [parseOptions]
      refine safe_ite (fun _ => safe_ite (fun _ => safe_packetError _ _) (fun _ => safe_ok _)) ?_
      intro _
      refine safe_bind (safe_readExtended _ _ high) ?_
      intro ⟨delta, afterDelta⟩ readDelta
      refine safe_bind (safe_readExtended _ _ low) ?_
      intro ⟨length, afterLength⟩ readLength
      refine safe_ite (fun _ => safe_packetError _ _) (fun _ => ?_)
      refine safe_ite (fun _ => safe_packetError _ _) (fun _ => ?_)
      refine safe_bind (ih ?_) (fun _ _ => safe_ok _)
      have first := readExtended_shorter readDelta
      have second := readExtended_shorter readLength
      simp only [List.length_cons, List.length_drop] at *
      omega

theorem safe_parse (input : List UInt8) : Safe (parse input) := by
  unfold parse
  split
  · refine safe_ite (fun _ => safe_packetError _ _) (fun _ => ?_)
    refine safe_ite (fun _ => safe_packetError _ _) (fun _ => ?_)
    exact safe_bind (safe_parseOptions (by simp)) (fun _ _ => safe_ok _)
  · exact safe_packetError _ _

theorem safe_checkOptionOrder (previous : Nat) (options : List CoapOption) :
    Safe (checkOptionOrder previous options) := by
  induction options generalizing previous with
  | nil => exact safe_ok _
  | cons option options ih =>
    exact safe_ite (fun _ => safe_packetError _ _) (fun _ =>
      safe_ite (fun _ => safe_packetError _ _) (fun _ => ih _))

theorem safe_fromParts (version messageType code : UInt8) (messageId : UInt16) (token : List UInt8)
    (options : List CoapOption) (payload : List UInt8) :
    Safe (fromParts version messageType code messageId token options payload) := by
  unfold fromParts
  refine safe_ite (fun _ => safe_packetError _ _) (fun _ => ?_)
  refine safe_ite (fun _ => safe_packetError _ _) (fun _ => ?_)
  refine safe_ite (fun _ => safe_packetError _ _) (fun _ => ?_)
  exact safe_bind (safe_checkOptionOrder _ _) (fun _ _ => safe_ok _)

end CoapMessage
end SchcCore
