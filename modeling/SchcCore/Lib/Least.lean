import Mathlib.Data.List.MinMax
import Mathlib.Data.Prod.Lex
import Mathlib.Order.WellFounded

/- The least of what the members of a list offer: the cheapest offer, and among equally cheap
   ones that of the earliest member. -/
namespace Least

variable {α β : Type} {cost : α → Nat} {cost' : β → Nat}

/-- Member `k` offers `a`, and no member offers anything cheaper or, earlier, as cheap. -/
structure LeastOffer (cost : α → Nat) (offers : Nat → α → Prop) (k : Nat) (a : α) : Prop where
  offered : offers k a
  least : ∀ k' a', offers k' a' → toLex (cost a, k) ≤ toLex (cost a', k')

variable {offers : Nat → α → Prop} {offers' : Nat → β → Prop}

/-- There is one position of least offers. -/
theorem LeastOffer.position_unique {k k' : Nat} {a a' : α} (least : LeastOffer cost offers k a)
    (least' : LeastOffer cost offers k' a') : k = k' := by
  have one := least.least k' a' least'.offered
  have other := least'.least k a least.offered
  have same := congrArg ofLex (le_antisymm one other)
  exact congrArg Prod.snd same

theorem LeastOffer.unique (single : ∀ k a b, offers k a → offers k b → a = b) {k k' : Nat} {a a' : α}
    (least : LeastOffer cost offers k a) (least' : LeastOffer cost offers k' a') : a = a' := by
  obtain rfl := least.position_unique least'
  exact single k a a' least.offered least'.offered

/-- Offers that cost the same at the same positions have their least at the same one. -/
theorem LeastOffer.transport {k : Nat} {a : α} {b : β} (least : LeastOffer cost offers k a)
    (back : ∀ k b, offers' k b → ∃ a, offers k a ∧ cost a = cost' b) (offered : offers' k b)
    (same : cost' b = cost a) : LeastOffer cost' offers' k b := by
  refine ⟨offered, fun k' b' offer => ?_⟩
  obtain ⟨a', offer', equal⟩ := back k' b' offer
  rw [same, ← equal]
  exact least.least k' a' offer'

/-- A member of a larger family of offers that is least there is least in any smaller one. -/
theorem LeastOffer.anti {smaller : Nat → α → Prop} {k : Nat} {a : α} (least : LeastOffer cost offers k a)
    (inside : ∀ k a, smaller k a → offers k a) (offered : smaller k a) :
    LeastOffer cost smaller k a :=
  ⟨offered, fun k' a' offer => least.least k' a' (inside k' a' offer)⟩

/-- The first of the cheapest elements of a list that holds the offers is a least offer. -/
theorem leastOffer_of_argmin {γ : Type} {position : γ → Nat} {value : γ → α} {offered : List γ}
    {best : γ} (holds : ∀ k a, offers k a ↔ ∃ x ∈ offered, position x = k ∧ value x = a)
    (found : offered.argmin (fun x => toLex (cost (value x), position x)) = some best) :
    LeastOffer cost offers (position best) (value best) := by
  refine ⟨(holds _ _).mpr ⟨best, List.argmin_mem found, rfl, rfl⟩, fun k a offer => ?_⟩
  obtain ⟨x, member, rfl, rfl⟩ := (holds k a).mp offer
  exact List.le_of_mem_argmin (f := fun x => toLex (cost (value x), position x)) member found

/-- Where anything is offered, something is least. -/
theorem exists_leastOffer (cost : α → Nat) {k : Nat} {a : α} (offered : offers k a) :
    ∃ k a, LeastOffer cost offers k a := by
  obtain ⟨price, ⟨k, a, offered, rfl⟩, lowest⟩ := WellFounded.has_min
    (wellFounded_lt : WellFounded fun x y : Nat ×ₗ Nat => x < y)
    {price | ∃ k a, offers k a ∧ price = toLex (cost a, k)} ⟨_, k, a, offered, rfl⟩
  refine ⟨k, a, offered, fun k' a' offered' => ?_⟩
  exact le_of_not_gt (lowest _ ⟨k', a', offered', rfl⟩)

end Least
