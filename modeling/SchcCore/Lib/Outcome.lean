import Mathlib

/- Computations that return a value, fail with an error their caller may inspect, or panic.
   A panic ends the whole run, so safety (no panic) is kept apart from success. -/

inductive Halt (ε σ : Type) where
  | fail : ε → Halt ε σ
  | panic : σ → Halt ε σ
  deriving DecidableEq, Repr

abbrev Outcome (ε σ α : Type) := Except (Halt ε σ) α

namespace Outcome
variable {ε σ α β γ : Type}

def Safe (x : Outcome ε σ α) : Prop := ∀ site, x ≠ .error (.panic site)

@[simp] theorem pure_eq_ok (a b : α) : (pure a : Outcome ε σ α) = .ok b ↔ a = b := by
  simp [pure, Except.pure]

@[simp] theorem ok_bind (a : α) (f : α → Outcome ε σ β) :
    ((.ok a : Outcome ε σ α) >>= f) = f a := rfl

@[simp] theorem error_bind (h : Halt ε σ) (f : α → Outcome ε σ β) :
    ((.error h : Outcome ε σ α) >>= f) = .error h := rfl

theorem bind_eq_ok (x : Outcome ε σ α) (f : α → Outcome ε σ β) (b : β) :
    (x >>= f) = .ok b ↔ ∃ a, x = .ok a ∧ f a = .ok b := by
  cases x <;> simp

/-- A check that rejects with an error passes exactly when its condition does not hold. -/
theorem reject_eq_ok {c : Prop} [Decidable c] {x y : Outcome ε σ α} (rejects : ∀ a, x ≠ .ok a)
    (b : α) : (if c then x else y) = .ok b ↔ ¬ c ∧ y = .ok b := by
  by_cases hit : c
  · simp [hit, rejects]
  · simp [hit]

theorem bind_congr_ok {x : Outcome ε σ α} {f g : α → Outcome ε σ β}
    (same : ∀ a, x = .ok a → f a = g a) : (x >>= f) = (x >>= g) := by
  cases x with
  | error h => rfl
  | ok a => exact same a rfl

@[simp] theorem safe_ok (a : α) : Safe (.ok a : Outcome ε σ α) := by
  intro site h
  cases h

@[simp] theorem safe_pure (a : α) : Safe (pure a : Outcome ε σ α) := safe_ok a

@[simp] theorem safe_fail (e : ε) : Safe (.error (.fail e) : Outcome ε σ α) := by
  intro site h
  cases h

theorem safe_bind {x : Outcome ε σ α} {f : α → Outcome ε σ β} (first : Safe x)
    (rest : ∀ a, x = .ok a → Safe (f a)) : Safe (x >>= f) := by
  cases x with
  | ok a => exact rest a rfl
  | error h =>
    intro site hit
    exact first site (by simpa using hit)

theorem safe_map {x : Outcome ε σ α} (f : α → β) (first : Safe x) : Safe (x.map f) := by
  cases x with
  | ok a => exact safe_ok _
  | error h =>
    intro site hit
    exact first site (by simpa [Except.map] using hit)

theorem safe_ite {c : Prop} [Decidable c] {x y : Outcome ε σ α}
    (yes : c → Safe x) (no : ¬ c → Safe y) : Safe (if c then x else y) := by
  split
  · exact yes ‹_›
  · exact no ‹_›

/-- A safe computation either returns a value or fails with an error. -/
theorem safe_cases {x : Outcome ε σ α} (safe : Safe x) :
    (∃ a, x = .ok a) ∨ ∃ e, x = .error (.fail e) := by
  match x with
  | .ok a => exact .inl ⟨a, rfl⟩
  | .error (.fail e) => exact .inr ⟨e, rfl⟩
  | .error (.panic site) => exact absurd rfl (safe site)

/-- Ends in a value or fails with an error that is allowed; never panics. -/
def Within (allowed : ε → Prop) (x : Outcome ε σ α) : Prop :=
  ∀ halt, x = .error halt → ∃ e, halt = .fail e ∧ allowed e

section Within
variable {allowed : ε → Prop}

theorem within_ok (a : α) : Within allowed (.ok a : Outcome ε σ α) := by
  intro halt h
  cases h

theorem within_fail {e : ε} (fine : allowed e) :
    Within allowed (.error (.fail e) : Outcome ε σ α) := by
  intro halt h
  cases h
  exact ⟨e, rfl, fine⟩

theorem within_bind {x : Outcome ε σ α} {f : α → Outcome ε σ β} (first : Within allowed x)
    (rest : ∀ a, x = .ok a → Within allowed (f a)) : Within allowed (x >>= f) := by
  cases x with
  | ok a => exact rest a rfl
  | error h =>
    intro halt hit
    exact first halt (by simpa using hit)

theorem within_ite {c : Prop} [Decidable c] {x y : Outcome ε σ α}
    (yes : c → Within allowed x) (no : ¬ c → Within allowed y) :
    Within allowed (if c then x else y) := by
  split
  · exact yes ‹_›
  · exact no ‹_›

theorem within_dite {c : Prop} [Decidable c] {x : c → Outcome ε σ α} {y : ¬ c → Outcome ε σ α}
    (yes : ∀ h, Within allowed (x h)) (no : ∀ h, Within allowed (y h)) :
    Within allowed (if h : c then x h else y h) := by
  split
  · exact yes _
  · exact no _

theorem Within.safe {x : Outcome ε σ α} (within : Within allowed x) : Safe x := by
  intro site panicked
  obtain ⟨e, same, -⟩ := within _ panicked
  cases same

theorem within_of_safe {x : Outcome ε σ α} (safe : Safe x)
    (clean : ∀ e, x = .error (.fail e) → allowed e) : Within allowed x := by
  intro halt failed
  match halt with
  | .fail e => exact ⟨e, rfl, clean e failed⟩
  | .panic site => exact absurd failed (safe site)

theorem Within.mono {stronger : ε → Prop} {x : Outcome ε σ α} (within : Within stronger x)
    (weaker : ∀ e, stronger e → allowed e) : Within allowed x := by
  intro halt failed
  obtain ⟨e, same, fine⟩ := within halt failed
  exact ⟨e, same, weaker e fine⟩

end Within

/-- `map_err`: only what failed is renamed, a panic stays the panic it is. -/
def mapFail {δ : Type} (rename : ε → δ) : Outcome ε σ α → Outcome δ σ α
  | .ok a => .ok a
  | .error (.fail e) => .error (.fail (rename e))
  | .error (.panic site) => .error (.panic site)

@[simp] theorem mapFail_eq_ok {δ : Type} (rename : ε → δ) (x : Outcome ε σ α) (a : α) :
    mapFail rename x = .ok a ↔ x = .ok a := by
  unfold mapFail
  split <;> simp

@[simp] theorem mapFail_eq_fail {δ : Type} (rename : ε → δ) (x : Outcome ε σ α) (d : δ) :
    mapFail rename x = .error (.fail d) ↔ ∃ e, x = .error (.fail e) ∧ rename e = d := by
  unfold mapFail
  split <;> simp

@[simp] theorem mapFail_eq_panic {δ : Type} (rename : ε → δ) (x : Outcome ε σ α) (site : σ) :
    mapFail rename x = .error (.panic site) ↔ x = .error (.panic site) := by
  unfold mapFail
  split <;> simp

/-- `for (i, x) in xs.enumerate()`, from index `i` on, collecting what each round returns. -/
def mapIndexed (f : Nat → α → Outcome ε σ β) : Nat → List α → Outcome ε σ (List β)
  | _, [] => .ok []
  | i, x :: xs => do
      let y ← f i x
      let ys ← mapIndexed f (i + 1) xs
      .ok (y :: ys)

theorem mapIndexed_getElem {f : Nat → α → Outcome ε σ β} {i : Nat} {xs : List α} {ys : List β}
    (done : mapIndexed f i xs = .ok ys) (k : Nat) (h : k < ys.length) :
    ∃ x ∈ xs, f (i + k) x = .ok ys[k] := by
  induction xs generalizing i ys k with
  | nil =>
    cases done
    simp at h
  | cons x xs ih =>
    simp only [mapIndexed, bind_eq_ok] at done
    obtain ⟨y, first, tail, rest, done⟩ := done
    cases done
    cases k with
    | zero => exact ⟨x, List.mem_cons_self, first⟩
    | succ k =>
      obtain ⟨x', member, made⟩ := ih rest k (by simpa using h)
      exact ⟨x', List.mem_cons_of_mem x member, by rwa [Nat.add_right_comm] at made⟩

theorem mapIndexed_mem {f : Nat → α → Outcome ε σ β} {i : Nat} {xs : List α} {ys : List β}
    (done : mapIndexed f i xs = .ok ys) {y : β} (member : y ∈ ys) :
    ∃ k x, x ∈ xs ∧ f k x = .ok y := by
  obtain ⟨k, h, rfl⟩ := List.mem_iff_getElem.mp member
  obtain ⟨x, source, made⟩ := mapIndexed_getElem done k h
  exact ⟨i + k, x, source, made⟩

end Outcome
