import SchcCore.Lib.Scan
import SchcCore.Compress.Step
import SchcCore.Packet.Target

/- The two searches of the matching step: for the mapping entry that a field equals, and for the
   CoAP option that a branch at position 0 matches. Both end at the first failure. -/
namespace SchcCore
open Outcome BitList

/- Mapping entries. -/

/-- A mapping entry, read at the field's bit length, is the field. -/
def denotes (field : FieldValue) (entry : List UInt8) : Bool :=
  bytesAsValue entry field.bitLen = .ok field

def judgeEntry (field : FieldValue) (index : Nat) (entry : List UInt8) : Result (Option Nat) := do
  let value ← bytesAsValue entry field.bitLen
  .ok (if value = field then some index else none)

theorem selectMapping_eq_scan (field : FieldValue) (index : Nat) (values : List (List UInt8)) :
    selectMapping field index values = scan (judgeEntry field) index values := by
  induction values generalizing index with
  | nil => rfl
  | cons entry values ih =>
    rw [selectMapping, scan, judgeEntry]
    cases bytesAsValue entry field.bitLen with
    | error halt => rfl
    | ok value =>
      rw [ok_bind, ok_bind, ok_bind]
      by_cases same : value = field
      · rw [if_pos same, if_pos same]
      · rw [if_neg same, if_neg same]
        exact ih (index + 1)

theorem judgeEntry_eq_some {field : FieldValue} {index i : Nat} {entry : List UInt8} :
    judgeEntry field index entry = .ok (some i) ↔ denotes field entry ∧ i = index := by
  rw [judgeEntry, denotes, decide_eq_true_eq]
  cases read : bytesAsValue entry field.bitLen with
  | error halt => simp
  | ok value =>
    by_cases same : value = field
    · simp [same, eq_comm]
    · simp [same]

theorem judgeEntry_eq_none {field : FieldValue} {index : Nat} {entry : List UInt8}
    (other : ¬ denotes field entry) :
    judgeEntry field index entry = .ok none ↔ Fits entry field.bitLen := by
  rw [denotes, decide_eq_true_eq] at other
  rw [judgeEntry, ← bytesAsValue_ok_iff]
  cases read : bytesAsValue entry field.bitLen with
  | error halt => simp
  | ok value =>
    have differ : value ≠ field := fun same => other (by rw [read, same])
    simp [differ]

/-- The outcome of matching is the least index whose entry denotes the field. -/
structure SelectsFirst (field : FieldValue) (values : List (List UInt8))
    (outcome : Result (Option MatchResult)) : Prop where
  found : ∀ (i : Nat) entry, values[i]? = some entry → denotes field entry →
    (∀ (j : Nat) other, j < i → values[j]? = some other → ¬ denotes field other) →
    outcome = .ok (some ⟨some i, none, none⟩)
  missing : (∀ entry ∈ values, ¬ denotes field entry) → outcome = .ok none

theorem selectsFirst_iff {field : FieldValue} {values : List (List UInt8)} {branch : Branch}
    (operator : branch.matching = .matchMapping) (target : branch.target = .mapping values) :
    SelectsFirst field values (matchesBranch field branch) ↔
      FindsFirst (judgeEntry field) 0 values (selectMapping field 0 values) := by
  have matched : matchesBranch field branch = (selectMapping field 0 values >>= fun index =>
      .ok (index.map (fun index => ⟨some index, none, none⟩))) := by
    simp only [matchesBranch, operator, target]
  have whole : ∀ i : Option Nat, matchesBranch field branch =
      .ok (i.map (fun index => ⟨some index, none, none⟩)) ↔
        selectMapping field 0 values = .ok i := by
    intro i
    rw [matched, bind_eq_ok]
    constructor
    · rintro ⟨own, selected, same⟩
      rw [selected]
      cases own <;> cases i <;> simp_all
    · intro selected
      exact ⟨i, selected, rfl⟩
  constructor
  · rintro ⟨found, missing⟩
    constructor
    · intro i entry k placed accepted first
      obtain ⟨here, rfl⟩ := judgeEntry_eq_some.mp accepted
      refine (whole (some (0 + i))).mp ?_
      rw [Nat.zero_add]
      refine found i entry placed here fun j other below there hit => ?_
      exact first j other _ below there (judgeEntry_eq_some.mpr ⟨hit, rfl⟩)
    · intro none
      refine (whole .none).mp (missing fun entry member hit => ?_)
      obtain ⟨j, there⟩ := List.getElem?_of_mem member
      exact none j entry _ there (judgeEntry_eq_some.mpr ⟨hit, rfl⟩)
  · rintro ⟨found, missing⟩
    constructor
    · intro i entry placed here first
      refine (whole (some i)).mpr ?_
      refine found i entry i placed (judgeEntry_eq_some.mpr ⟨here, by simp⟩) ?_
      intro j other c below there accepted
      exact first j other below there (judgeEntry_eq_some.mp accepted).1
    · intro none
      refine (whole .none).mpr (missing fun j entry c there accepted => ?_)
      exact none entry (List.mem_of_getElem? there) (judgeEntry_eq_some.mp accepted).1

/-- The search of a table is not stopped when each entry in front of the first that denotes the
    field fits the field's length. -/
theorem unobstructed_judgeEntry_iff (field : FieldValue) (values : List (List UInt8)) :
    Unobstructed (judgeEntry field) 0 values ↔
      ∀ (i : Nat) entry, values[i]? = some entry →
        (∀ (j : Nat) other, j ≤ i → values[j]? = some other → ¬ denotes field other) →
        Fits entry field.bitLen := by
  have none : ∀ i, NoneUpTo (judgeEntry field) 0 values i ↔
      ∀ (j : Nat) other, j ≤ i → values[j]? = some other → ¬ denotes field other := by
    intro i
    constructor
    · intro none j other below there hit
      exact none j other _ below there (judgeEntry_eq_some.mpr ⟨hit, rfl⟩)
    · intro none j other c below there accepted
      exact none j other below there (judgeEntry_eq_some.mp accepted).1
  constructor
  · intro clear i entry placed before
    exact (judgeEntry_eq_none (before i entry (Nat.le_refl i) placed)).mp
      (clear i entry placed ((none i).mpr before))
  · intro readable i entry placed before
    have passed := (none i).mp before
    exact (judgeEntry_eq_none (passed i entry (Nat.le_refl i) placed)).mpr
      (readable i entry placed passed)

/-- Match-mapping selects the first entry that denotes the field exactly when every entry in
    front of it fits the field's length. -/
theorem match_mapping_selects_first_iff {field : FieldValue} {values : List (List UInt8)}
    {branch : Branch} (operator : branch.matching = .matchMapping)
    (target : branch.target = .mapping values) :
    SelectsFirst field values (matchesBranch field branch) ↔
      ∀ (i : Nat) entry, values[i]? = some entry →
        (∀ (j : Nat) other, j ≤ i → values[j]? = some other → ¬ denotes field other) →
        Fits entry field.bitLen := by
  rw [selectsFirst_iff operator target, selectMapping_eq_scan, scan_findsFirst_iff,
    unobstructed_judgeEntry_iff]

/-- An entry of one variable-length field with the table as its target. -/
def tableBranch (values : List (List UInt8)) : Branch :=
  ⟨⟨.payload, .variableBytes, 1, 0⟩, .bidirectional, .mapping values, .matchMapping,
    .mappingSent, 1⟩

theorem match_mapping_selects_first_at_second_entry :
    SelectsFirst (.ofBits (ofBytes [5])) [[1], [5]]
      (matchesBranch (.ofBits (ofBytes [5])) (tableBranch [[1], [5]])) := by
  refine (match_mapping_selects_first_iff rfl rfl).mpr ?_
  intro i entry placed _
  refine (fits_whole_iff entry 1).mpr ?_
  have member := List.mem_of_getElem? placed
  simp only [List.mem_cons, List.not_mem_nil, or_false] at member
  rcases member with rfl | rfl <;> simp

/-- An entry of two bytes hides the one behind it from a field of one byte. -/
theorem long_entry_stops_the_search :
    ¬ ∀ field values branch, branch.matching = .matchMapping → branch.target = .mapping values →
      SelectsFirst field values (matchesBranch field branch) := by
  intro every
  have selects := every (.ofBits (ofBytes [5])) [[1, 2], [5]] (tableBranch [[1, 2], [5]]) rfl rfl
  have here := selects.found 1 [5] rfl (by decide +kernel) fun j other below there => by
    obtain rfl : j = 0 := by omega
    cases there
    decide +kernel
  have stopped : matchesBranch (.ofBits (ofBytes [5])) (tableBranch [[1, 2], [5]]) ≠
      .ok (some ⟨some 1, none, none⟩) := by decide +kernel
  exact stopped here

/- CoAP options. -/

def judgeOption (number : Nat) (bitLen : Option Nat) (branch : Branch) (ordinal : Nat)
    (option : CoapOption) : Result (Option (FieldValue × MatchResult)) :=
  if option.number.toNat ≠ number then .ok none
  else do
    let field ← FieldValue.fromBytes option.value (option.value.length * 8)
    if bitLen.any (fun expected => field.bitLen ≠ expected) then .ok none
    else do
      let matched ← matchesBranch field branch
      .ok (matched.map (fun matched =>
        (field, { matched with coapOptionOrdinal := some ordinal })))

theorem searchCoapOption_eq_scan (number : Nat) (bitLen : Option Nat) (branch : Branch)
    (ordinal : Nat) (options : List CoapOption) :
    searchCoapOption number bitLen branch ordinal options =
      scan (judgeOption number bitLen branch) ordinal options := by
  induction options generalizing ordinal with
  | nil => rfl
  | cons option options ih =>
    rw [searchCoapOption, scan, judgeOption]
    by_cases other : option.number.toNat ≠ number
    · rw [if_pos other, if_pos other]
      exact ih (ordinal + 1)
    · rw [if_neg other, if_neg other]
      cases FieldValue.fromBytes option.value (option.value.length * 8) with
      | error halt => rfl
      | ok field =>
        rw [ok_bind, ok_bind]
        by_cases unexpected : bitLen.any (fun expected => field.bitLen ≠ expected)
        · rw [if_pos unexpected, if_pos unexpected]
          exact ih (ordinal + 1)
        · rw [if_neg unexpected, if_neg unexpected]
          cases matchesBranch field branch with
          | error halt => rfl
          | ok matched =>
            cases matched with
            | some matched => rfl
            | none => exact ih (ordinal + 1)

/-- The value of an option: all bits of its bytes. -/
def CoapOption.field (option : CoapOption) : FieldValue := .ofBits (ofBytes option.value)

/-- An option that the branch asks for: its number, and its length when one is resolved. -/
structure AskedFor (number : Nat) (bitLen : Option Nat) (option : CoapOption) : Prop where
  number : option.number.toNat = number
  length : ∀ n, bitLen = some n → 8 * option.value.length = n

theorem judgeOption_askedFor {number : Nat} {bitLen : Option Nat} {option : CoapOption}
    (asked : AskedFor number bitLen option) (branch : Branch) (ordinal : Nat) :
    judgeOption number bitLen branch ordinal option =
      (matchesBranch option.field branch >>= fun matched => .ok (matched.map (fun matched =>
        (option.field, { matched with coapOptionOrdinal := some ordinal })))) := by
  have expected : ¬ bitLen.any (fun expected => option.field.bitLen ≠ expected) := by
    cases known : bitLen with
    | none => simp
    | some n =>
      have length := asked.length n known
      simp [CoapOption.field, length]
  rw [judgeOption, if_neg (not_not.mpr asked.number), Nat.mul_comm, FieldValue.fromBytes_whole,
    ok_bind]
  exact if_neg expected

theorem judgeOption_other {number : Nat} {bitLen : Option Nat} {option : CoapOption}
    (other : ¬ AskedFor number bitLen option) (branch : Branch) (ordinal : Nat) :
    judgeOption number bitLen branch ordinal option = .ok none := by
  rw [judgeOption]
  by_cases differ : option.number.toNat ≠ number
  · rw [if_pos differ]
  · rw [if_neg differ, Nat.mul_comm, FieldValue.fromBytes_whole, ok_bind, if_pos]
    by_contra expected
    refine other ⟨not_not.mp differ, fun n known => ?_⟩
    have length := length_of_any expected n known
    simpa using length

/-- An option that the branch asks for and that matches it on its own. -/
structure Satisfies (number : Nat) (bitLen : Option Nat) (branch : Branch) (option : CoapOption)
    (own : MatchResult) : Prop where
  asked : AskedFor number bitLen option
  matched : matchesBranch option.field branch = .ok (some own)

theorem judgeOption_eq_some {number : Nat} {bitLen : Option Nat} {branch : Branch}
    {ordinal : Nat} {option : CoapOption} {found : FieldValue × MatchResult} :
    judgeOption number bitLen branch ordinal option = .ok (some found) ↔
      ∃ own, Satisfies number bitLen branch option own ∧
        found = (option.field, { own with coapOptionOrdinal := some ordinal }) := by
  by_cases asked : AskedFor number bitLen option
  · rw [judgeOption_askedFor asked, bind_eq_ok]
    constructor
    · rintro ⟨matched, judged, same⟩
      cases matched with
      | none => simp at same
      | some own =>
        cases same
        exact ⟨own, ⟨asked, judged⟩, rfl⟩
    · rintro ⟨own, satisfies, rfl⟩
      exact ⟨some own, satisfies.matched, rfl⟩
  · rw [judgeOption_other asked]
    constructor
    · intro same
      cases same
    · rintro ⟨own, satisfies, -⟩
      exact absurd satisfies.asked asked

theorem judgeOption_eq_none {number : Nat} {bitLen : Option Nat} {branch : Branch}
    {ordinal : Nat} {option : CoapOption} (asked : AskedFor number bitLen option)
    (other : ∀ own, ¬ Satisfies number bitLen branch option own) :
    judgeOption number bitLen branch ordinal option = .ok none ↔
      ∃ matched, matchesBranch option.field branch = .ok matched := by
  rw [judgeOption_askedFor asked]
  cases judged : matchesBranch option.field branch with
  | error halt => simp
  | ok matched =>
    cases matched with
    | none => simp
    | some own => exact absurd ⟨asked, judged⟩ (other own)

/-- The matching operator of a branch gives a verdict on a value: the target fits the value, and
    so does the MSB width; in a table, each entry in front of the one that denotes the value. -/
def Branch.Judges (branch : Branch) (field : FieldValue) : Prop :=
  match branch.matching with
  | .equal => ∀ target, branch.target = .bytes target → Fits target field.bitLen
  | .ignore => True
  | .msb bits =>
      bits ≤ field.bitLen ∧ ∀ target, branch.target = .bytes target → Fits target field.bitLen
  | .matchMapping => ∀ values, branch.target = .mapping values →
      ∀ (i : Nat) entry, values[i]? = some entry →
        (∀ (j : Nat) other, j ≤ i → values[j]? = some other → ¬ denotes field other) →
        Fits entry field.bitLen

theorem targetAsValue_ok_iff (target : TargetValue) (bitLen : Nat) :
    (∃ v, targetAsValue target bitLen = .ok v) ↔
      ∀ bytes, target = .bytes bytes → Fits bytes bitLen := by
  cases target with
  | none => simp [targetAsValue]
  | mapping values => simp [targetAsValue]
  | bytes bytes =>
    simp only [targetAsValue, TargetValue.bytes.injEq, forall_eq']
    rw [← bytesAsValue_ok_iff]
    cases bytesAsValue bytes bitLen <;> simp

theorem matchesBranch_ok_iff (field : FieldValue) (branch : Branch) :
    (∃ matched, matchesBranch field branch = .ok matched) ↔ branch.Judges field := by
  have target := targetAsValue_ok_iff branch.target field.bitLen
  unfold matchesBranch Branch.Judges
  cases branch.matching with
  | ignore => exact ⟨fun _ => trivial, fun _ => ⟨_, rfl⟩⟩
  | equal =>
    dsimp only
    rw [← target]
    cases targetAsValue branch.target field.bitLen with
    | error halt => simp
    | ok value =>
      rw [ok_bind]
      constructor
      · intro _
        exact ⟨value, rfl⟩
      · intro _
        split
        · exact ⟨_, rfl⟩
        · exact ⟨_, rfl⟩
  | msb bits =>
    dsimp only
    rw [← target]
    by_cases short : bits > field.bitLen
    · rw [if_pos short]
      simp only [fail_ne_ok, exists_const, false_iff, not_and]
      intro inside
      omega
    · rw [if_neg short]
      cases made : targetAsValue branch.target field.bitLen with
      | error halt => simp
      | ok value =>
        rw [ok_bind]
        constructor
        · intro _
          exact ⟨by omega, value, rfl⟩
        · intro _
          cases value with
          | none => exact ⟨_, rfl⟩
          | some value =>
            obtain ⟨bytes, -, read⟩ := targetAsValue_some made
            dsimp only
            rw [prefixBitsEqual_eq (by omega) (bitLen_bytesAsValue read).symm, ok_bind]
            exact ⟨_, rfl⟩
  | matchMapping =>
    dsimp only
    cases branch.target with
    | none => simp
    | bytes bytes => simp
    | mapping values =>
      simp only [TargetValue.mapping.injEq, forall_eq']
      rw [← unobstructed_judgeEntry_iff, ← scan_ok_iff, ← selectMapping_eq_scan]
      cases selectMapping field 0 values <;> simp

/-- The outcome of the search is the first option asked for that matches on its own. -/
structure FindsOption (number : Nat) (bitLen : Option Nat) (branch : Branch)
    (options : List CoapOption) (outcome : Result (Option (FieldValue × MatchResult))) :
    Prop where
  found : ∀ (i : Nat) option own, options[i]? = some option →
    Satisfies number bitLen branch option own →
    (∀ (j : Nat) other verdict, j < i → options[j]? = some other →
      ¬ Satisfies number bitLen branch other verdict) →
    outcome = .ok (some (option.field, { own with coapOptionOrdinal := some i }))
  missing : (∀ option ∈ options, ∀ own, ¬ Satisfies number bitLen branch option own) →
    outcome = .ok none

theorem findsOption_iff {number : Nat} {bitLen : Option Nat} {branch : Branch}
    {options : List CoapOption} {outcome : Result (Option (FieldValue × MatchResult))} :
    FindsOption number bitLen branch options outcome ↔
      FindsFirst (judgeOption number bitLen branch) 0 options outcome := by
  constructor
  · rintro ⟨found, missing⟩
    constructor
    · intro i option value placed accepted first
      obtain ⟨own, satisfies, rfl⟩ := judgeOption_eq_some.mp accepted
      rw [Nat.zero_add]
      refine found i option own placed satisfies fun j other verdict below there hit => ?_
      exact first j other _ below there (judgeOption_eq_some.mpr ⟨verdict, hit, rfl⟩)
    · intro none
      refine missing fun option member own hit => ?_
      obtain ⟨j, there⟩ := List.getElem?_of_mem member
      exact none j option _ there (judgeOption_eq_some.mpr ⟨own, hit, rfl⟩)
  · rintro ⟨found, missing⟩
    constructor
    · intro i option own placed satisfies first
      refine found i option _ placed (judgeOption_eq_some.mpr ⟨own, satisfies, by simp⟩) ?_
      intro j other verdict below there accepted
      obtain ⟨own', hit, -⟩ := judgeOption_eq_some.mp accepted
      exact first j other own' below there hit
    · intro none
      refine missing fun j option value there accepted => ?_
      obtain ⟨own, hit, -⟩ := judgeOption_eq_some.mp accepted
      exact none option (List.mem_of_getElem? there) own hit

/-- The search for an option finds the first that matches exactly when every option asked for
    in front of it lets the matching operator give a verdict. -/
theorem coap_option_search_finds_first_iff {packet : List UInt8} {coap : CoapMessage}
    {branch : Branch} {number : Nat} (bitLen : Option Nat)
    (message : outerCoap packet = .ok coap) (field : branch.parse.field = .coapOption number) :
    FindsOption number bitLen branch coap.options
        (extractMatchingCoapOption packet branch.parse bitLen .outer branch) ↔
      ∀ (i : Nat) option, coap.options[i]? = some option → AskedFor number bitLen option →
        (∀ (j : Nat) other own, j ≤ i → coap.options[j]? = some other →
          ¬ Satisfies number bitLen branch other own) →
        branch.Judges option.field := by
  have searched : extractMatchingCoapOption packet branch.parse bitLen .outer branch =
      searchCoapOption number bitLen branch 0 coap.options := by
    simp only [extractMatchingCoapOption, field, message, ok_bind, reduceCtorEq, ↓reduceIte]
  rw [searched, findsOption_iff, searchCoapOption_eq_scan, scan_findsFirst_iff]
  have none : ∀ i, NoneUpTo (judgeOption number bitLen branch) 0 coap.options i ↔
      ∀ (j : Nat) other own, j ≤ i → coap.options[j]? = some other →
        ¬ Satisfies number bitLen branch other own := by
    intro i
    constructor
    · intro none j other own below there hit
      exact none j other _ below there (judgeOption_eq_some.mpr ⟨own, hit, rfl⟩)
    · intro none j other value below there accepted
      obtain ⟨own, hit, -⟩ := judgeOption_eq_some.mp accepted
      exact none j other own below there hit
  constructor
  · intro clear i option placed asked before
    rw [← matchesBranch_ok_iff]
    exact (judgeOption_eq_none asked fun own => before i option own (Nat.le_refl i) placed).mp
      (clear i option placed ((none i).mpr before))
  · intro judges i option placed before
    have passed := (none i).mp before
    by_cases asked : AskedFor number bitLen option
    · have judged := judges i option placed asked passed
      rw [← matchesBranch_ok_iff] at judged
      exact (judgeOption_eq_none asked fun own => passed i option own (Nat.le_refl i) placed).mpr
        judged
    · exact judgeOption_other asked branch (0 + i)

/-- A request with the Uri-Path options a and hi. -/
def twoSegments : List UInt8 :=
  [0x60, 0x00, 0x00, 0x00, 0x00, 0x11, 0x11, 0x40, 0x20, 0x01, 0x0d, 0xb8, 0x00, 0x00, 0x00,
    0x00, 0x00, 0x00, 0x00, 0x00, 0x00, 0x00, 0x00, 0x01, 0x20, 0x01, 0x0d, 0xb8, 0x00, 0x00,
    0x00, 0x00, 0x00, 0x00, 0x00, 0x00, 0x00, 0x00, 0x00, 0x02, 0x16, 0x33, 0x16, 0x33, 0x00,
    0x11, 0x00, 0x00, 0x40, 0x01, 0x12, 0x34, 0xb1, 0x61, 0x02, 0x68, 0x69]

def twoSegmentsMessage : CoapMessage :=
  ⟨1, 0, 1, 0x1234, [], [⟨11, [0x61]⟩, ⟨11, [0x68, 0x69]⟩], []⟩

theorem twoSegments_message : outerCoap twoSegments = .ok twoSegmentsMessage := by
  decide +kernel

def segmentBranch (target : List UInt8) : Branch :=
  ⟨⟨.coapOption 11, .variableBytes, 0, 0⟩, .bidirectional, .bytes target, .equal, .notSent, 1⟩

theorem coap_option_search_finds_first_at_two_segments :
    FindsOption 11 none (segmentBranch [0x61]) twoSegmentsMessage.options
      (extractMatchingCoapOption twoSegments (segmentBranch [0x61]).parse none .outer
        (segmentBranch [0x61])) := by
  refine (coap_option_search_finds_first_iff none twoSegments_message rfl).mpr ?_
  intro i option placed _ _
  have member := List.mem_of_getElem? placed
  simp only [twoSegmentsMessage, List.mem_cons, List.not_mem_nil, or_false] at member
  intro target same
  cases same
  have whole := (fits_whole_iff [0x61] option.value.length).mpr
  have bits : option.field.bitLen = 8 * option.value.length := by simp [CoapOption.field]
  rw [bits]
  rcases member with rfl | rfl <;> exact whole (by decide)

/-- The option a, shorter than the target, hides the option hi that equals it. -/
theorem short_option_hides_a_later_one :
    ¬ ∀ packet coap branch number bitLen, outerCoap packet = .ok coap →
      branch.parse.field = .coapOption number → branch.parse.fieldPosition = 0 →
      FindsOption number bitLen branch coap.options
        (extractMatchingCoapOption packet branch.parse bitLen .outer branch) := by
  intro every
  have finds := every twoSegments twoSegmentsMessage (segmentBranch [0x68, 0x69]) 11 none
    twoSegments_message rfl rfl
  have own : matchesBranch (CoapOption.field ⟨11, [0x68, 0x69]⟩) (segmentBranch [0x68, 0x69]) =
      .ok (some ⟨none, none, none⟩) := by decide +kernel
  have here := finds.found 1 ⟨11, [0x68, 0x69]⟩ _ rfl ⟨⟨rfl, fun n known => nomatch known⟩, own⟩
    fun j other verdict below there hit => by
      obtain rfl : j = 0 := by omega
      cases there
      have failed : ∀ own, matchesBranch (CoapOption.field ⟨11, [0x61]⟩)
          (segmentBranch [0x68, 0x69]) ≠ .ok (some own) := by
        intro own same
        have none : (matchesBranch (CoapOption.field ⟨11, [0x61]⟩)
          (segmentBranch [0x68, 0x69])).toOption = none := by decide +kernel
        rw [same] at none
        cases none
      exact failed verdict hit.matched
  have hidden : (extractMatchingCoapOption twoSegments (segmentBranch [0x68, 0x69]).parse none
      .outer (segmentBranch [0x68, 0x69])).toOption = none := by decide +kernel
  rw [here] at hidden
  cases hidden

end SchcCore
