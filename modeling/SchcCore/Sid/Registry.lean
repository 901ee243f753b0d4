import SchcCore.Error

/- Deterministic SID registry for identifier and SID lookups. The two `BTreeMap`s are
   finite maps that are only looked up and updated here. -/
namespace SchcCore

structure SidItem where
  sid : Nat
  identifier : String
  deriving DecidableEq, Repr

structure SidRegistry where
  byIdentifier : String → Option SidItem
  bySid : Nat → Option String

namespace SidRegistry

def empty : SidRegistry := ⟨fun _ => none, fun _ => none⟩

/-- Inserts or replaces a SID item: what shares its identifier or its SID goes first. -/
def insert (registry : SidRegistry) (item : SidItem) : SidRegistry :=
  let bySid := match registry.byIdentifier item.identifier with
    | some previous => Function.update registry.bySid previous.sid none
    | none => registry.bySid
  let byIdentifier := match bySid item.sid with
    | some previousIdentifier => Function.update registry.byIdentifier previousIdentifier none
    | none => registry.byIdentifier
  ⟨Function.update byIdentifier item.identifier (some item),
    Function.update bySid item.sid (some item.identifier)⟩

/-- The registry of a SID file: its items inserted in order. -/
def ofItems (items : List SidItem) : SidRegistry := items.foldl insert empty

def sid (registry : SidRegistry) (identifier : String) : Result Nat :=
  match registry.byIdentifier identifier with
  | some item => .ok item.sid
  | none => fail (.missingSidIdentifier identifier)

def identifier (registry : SidRegistry) (sid : Nat) : Result String :=
  match registry.bySid sid with
  | some identifier => .ok identifier
  | none => fail (.unknownSid sid)

/-- The item is present under its identifier and under its SID. -/
def Holds (registry : SidRegistry) (item : SidItem) : Prop :=
  registry.byIdentifier item.identifier = some item ∧
    registry.bySid item.sid = some item.identifier

/-- Both maps list the same items. -/
structure Paired (registry : SidRegistry) : Prop where
  named : ∀ {key item}, registry.byIdentifier key = some item →
    item.identifier = key ∧ registry.bySid item.sid = some key
  numbered : ∀ {number key}, registry.bySid number = some key →
    ∃ item, registry.byIdentifier key = some item ∧ item.sid = number

/-- The other item shares neither the identifier nor the SID of the inserted one. -/
def Spares (item other : SidItem) : Prop :=
  other.identifier ≠ item.identifier ∧ other.sid ≠ item.sid

theorem Paired.empty : empty.Paired := by
  constructor
  · intro key item found
    cases found
  · intro number key found
    cases found

theorem Paired.holds {registry : SidRegistry} (paired : registry.Paired) {key : String}
    {item : SidItem} (found : registry.byIdentifier key = some item) :
    item.identifier = key ∧ registry.Holds item := by
  obtain ⟨same, listed⟩ := paired.named found
  subst same
  exact ⟨rfl, found, listed⟩

theorem Holds.eq_of_identifier {registry : SidRegistry} {a b : SidItem}
    (first : registry.Holds a) (second : registry.Holds b)
    (same : a.identifier = b.identifier) : a = b := by
  have found := first.1
  rw [same, second.1] at found
  exact (Option.some.inj found).symm

theorem Holds.eq_of_sid {registry : SidRegistry} {a b : SidItem}
    (first : registry.Holds a) (second : registry.Holds b) (same : a.sid = b.sid) : a = b := by
  have found := first.2
  rw [same, second.2] at found
  exact first.eq_of_identifier second (Option.some.inj found).symm

/-- The SIDs left once the item's identifier is taken off the registry. -/
def sidsBeside (registry : SidRegistry) (item : SidItem) : Nat → Option String :=
  match registry.byIdentifier item.identifier with
  | some previous => Function.update registry.bySid previous.sid none
  | none => registry.bySid

/-- The identifiers left once the item's SID is taken off what `sidsBeside` leaves. -/
def identifiersBeside (registry : SidRegistry) (item : SidItem) : String → Option SidItem :=
  match registry.sidsBeside item item.sid with
  | some previousIdentifier => Function.update registry.byIdentifier previousIdentifier none
  | none => registry.byIdentifier

theorem insert_eq (registry : SidRegistry) (item : SidItem) :
    registry.insert item =
      ⟨Function.update (registry.identifiersBeside item) item.identifier (some item),
        Function.update (registry.sidsBeside item) item.sid (some item.identifier)⟩ :=
  rfl

/-- Only the SID of the item with the same identifier goes. -/
theorem sidsBeside_eq_some {registry : SidRegistry} (paired : registry.Paired) (item : SidItem)
    (number : Nat) (key : String) :
    registry.sidsBeside item number = some key ↔
      registry.bySid number = some key ∧ key ≠ item.identifier := by
  unfold sidsBeside
  cases taken : registry.byIdentifier item.identifier with
  | none =>
    dsimp only
    constructor
    · intro found
      refine ⟨found, ?_⟩
      intro same
      obtain ⟨other, named, -⟩ := paired.numbered found
      rw [same, taken] at named
      cases named
    · intro found
      exact found.1
  | some previous =>
    obtain ⟨spelled, present⟩ := paired.holds taken
    dsimp only
    by_cases here : number = previous.sid
    · subst here
      rw [Function.update_self, present.2, spelled]
      constructor
      · intro found
        cases found
      · rintro ⟨found, other⟩
        exact absurd (Option.some.inj found).symm other
    · rw [Function.update_of_ne here]
      constructor
      · intro found
        refine ⟨found, ?_⟩
        intro same
        obtain ⟨other, named, number_eq⟩ := paired.numbered found
        rw [same, taken] at named
        cases named
        exact here number_eq.symm
      · intro found
        exact found.1

/-- Only the identifier of the item with the same SID goes, apart from the item's own. -/
theorem identifiersBeside_eq_some {registry : SidRegistry} (paired : registry.Paired)
    (item : SidItem) {key : String} (apart : key ≠ item.identifier) (other : SidItem) :
    registry.identifiersBeside item key = some other ↔
      registry.byIdentifier key = some other ∧ other.sid ≠ item.sid := by
  unfold identifiersBeside
  cases taken : registry.sidsBeside item item.sid with
  | none =>
    dsimp only
    constructor
    · intro found
      refine ⟨found, ?_⟩
      intro same
      have listed := (paired.named found).2
      rw [same] at listed
      have kept := (sidsBeside_eq_some paired item item.sid key).mpr ⟨listed, apart⟩
      rw [taken] at kept
      cases kept
    · intro found
      exact found.1
  | some previousIdentifier =>
    obtain ⟨listed, -⟩ := (sidsBeside_eq_some paired item item.sid _).mp taken
    dsimp only
    by_cases here : key = previousIdentifier
    · subst here
      rw [Function.update_self]
      constructor
      · intro found
        cases found
      · rintro ⟨found, different⟩
        obtain ⟨holder, named, same⟩ := paired.numbered listed
        rw [found] at named
        cases named
        exact absurd same different
    · rw [Function.update_of_ne here]
      constructor
      · intro found
        refine ⟨found, ?_⟩
        intro same
        have number := (paired.named found).2
        rw [same, listed] at number
        exact here (Option.some.inj number).symm
      · intro found
        exact found.1

theorem Paired.insert {registry : SidRegistry} (paired : registry.Paired) (item : SidItem) :
    (registry.insert item).Paired := by
  rw [insert_eq]
  constructor
  · intro key other found
    dsimp only at found ⊢
    by_cases own : key = item.identifier
    · subst own
      rw [Function.update_self] at found
      cases found
      exact ⟨rfl, Function.update_self ..⟩
    · rw [Function.update_of_ne own, identifiersBeside_eq_some paired item own] at found
      obtain ⟨named, apart⟩ := found
      obtain ⟨spelled, listed⟩ := paired.named named
      rw [Function.update_of_ne apart, sidsBeside_eq_some paired]
      exact ⟨spelled, listed, own⟩
  · intro number key found
    dsimp only at found ⊢
    by_cases own : number = item.sid
    · subst own
      rw [Function.update_self] at found
      cases found
      exact ⟨item, Function.update_self .., rfl⟩
    · rw [Function.update_of_ne own, sidsBeside_eq_some paired] at found
      obtain ⟨listed, apart⟩ := found
      obtain ⟨other, named, same⟩ := paired.numbered listed
      refine ⟨other, ?_, same⟩
      rw [Function.update_of_ne apart, identifiersBeside_eq_some paired item apart]
      refine ⟨named, ?_⟩
      rw [same]
      exact own

theorem Paired.ofItems (items : List SidItem) : (ofItems items).Paired := by
  induction items using List.reverseRecOn with
  | nil => exact Paired.empty
  | append_singleton earlier last kept =>
    have grown := kept.insert last
    rwa [SidRegistry.ofItems, List.foldl_append]

theorem holds_inserted (registry : SidRegistry) (item : SidItem) :
    (registry.insert item).Holds item :=
  ⟨Function.update_self .., Function.update_self ..⟩

/-- As a set of items, a registry after an insert holds the item and what it spares. -/
theorem holds_insert_iff {registry : SidRegistry} (paired : registry.Paired)
    (item other : SidItem) :
    (registry.insert item).Holds other ↔
      other = item ∨ registry.Holds other ∧ Spares item other := by
  constructor
  · intro present
    by_cases named : other.identifier = item.identifier
    · exact Or.inl (present.eq_of_identifier (holds_inserted registry item) named)
    · by_cases numbered : other.sid = item.sid
      · exact Or.inl (present.eq_of_sid (holds_inserted registry item) numbered)
      · obtain ⟨found, listed⟩ := present
        rw [insert_eq] at found listed
        dsimp only at found listed
        rw [Function.update_of_ne named, identifiersBeside_eq_some paired item named] at found
        rw [Function.update_of_ne numbered, sidsBeside_eq_some paired] at listed
        exact Or.inr ⟨⟨found.1, listed.1⟩, named, numbered⟩
  · intro kept
    rcases kept with rfl | ⟨⟨found, listed⟩, named, numbered⟩
    · exact holds_inserted registry other
    · rw [insert_eq]
      constructor
      · dsimp only
        rw [Function.update_of_ne named, identifiersBeside_eq_some paired item named]
        exact ⟨found, numbered⟩
      · dsimp only
        rw [Function.update_of_ne numbered, sidsBeside_eq_some paired]
        exact ⟨listed, named⟩

theorem sid_eq_ok {registry : SidRegistry} {key : String} {number : Nat} :
    registry.sid key = .ok number ↔
      ∃ item, registry.byIdentifier key = some item ∧ item.sid = number := by
  unfold SidRegistry.sid
  cases found : registry.byIdentifier key with
  | none => simp [fail]
  | some item => simp

theorem identifier_eq_ok {registry : SidRegistry} {key : String} {number : Nat} :
    registry.identifier number = .ok key ↔ registry.bySid number = some key := by
  unfold SidRegistry.identifier
  cases found : registry.bySid number with
  | none => simp [fail]
  | some other => simp

theorem Paired.sid_iff_identifier {registry : SidRegistry} (paired : registry.Paired)
    (key : String) (number : Nat) :
    registry.sid key = .ok number ↔ registry.identifier number = .ok key := by
  rw [sid_eq_ok, identifier_eq_ok]
  constructor
  · rintro ⟨item, named, same⟩
    have listed := (paired.named named).2
    rwa [same] at listed
  · exact paired.numbered

/-- After any inserts the two lookups are inverse to each other, the item inserted last
    is present, and an insert takes away only what shares its identifier or its SID. -/
theorem registry_bijective (items : List SidItem) :
    (∀ key number, (ofItems items).sid key = .ok number ↔
      (ofItems items).identifier number = .ok key) ∧
    (∀ item, ((ofItems items).insert item).Holds item ∧
      ((ofItems items).insert item).sid item.identifier = .ok item.sid ∧
      ((ofItems items).insert item).identifier item.sid = .ok item.identifier) ∧
    (∀ item other, ((ofItems items).insert item).Holds other ↔
      other = item ∨ (ofItems items).Holds other ∧ Spares item other) := by
  have paired := Paired.ofItems items
  refine ⟨paired.sid_iff_identifier, ?_, holds_insert_iff paired⟩
  intro item
  have present := holds_inserted (ofItems items) item
  refine ⟨present, ?_, ?_⟩
  · exact sid_eq_ok.mpr ⟨item, present.1, rfl⟩
  · exact identifier_eq_ok.mpr present.2

end SidRegistry
end SchcCore
