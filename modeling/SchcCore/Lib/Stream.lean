import SchcCore.Lib.Outcome

/- Parsers over a cursor into a stream. `Reads m xs a` says that `m` consumes exactly `xs`
   and returns `a` on every stream that starts with `xs`; `Streaming m` says that whatever
   `m` does on success is explained this way, so that nothing past the consumed prefix (the
   stream's end included) can change it. Both are closed under sequencing. -/
namespace Stream
open Outcome

class Cursor (ρ : Type) (τ : outParam Type) where
  rest : ρ → List τ
  advance : ρ → Nat → ρ
  rest_advance : ∀ r n, rest (advance r n) = (rest r).drop n
  advance_zero : ∀ r, advance r 0 = r
  advance_add : ∀ r m n, advance (advance r m) n = advance r (m + n)

abbrev Parser (ρ ε σ α : Type) := StateT ρ (Outcome ε σ) α

variable {ρ τ ε σ α β : Type} [Cursor ρ τ]
open Cursor

def Reads (m : Parser ρ ε σ α) (xs : List τ) (a : α) : Prop :=
  ∀ r, xs <+: rest r → m r = .ok (a, advance r xs.length)

def Streaming (m : Parser ρ ε σ α) : Prop :=
  ∀ r a r', m r = .ok (a, r') → ∃ xs, xs <+: rest r ∧ r' = advance r xs.length ∧ Reads m xs a

omit [Cursor ρ τ] in
theorem bind_run (m : Parser ρ ε σ α) (f : α → Parser ρ ε σ β) (r : ρ) :
    (m >>= f) r = (m r >>= fun p => f p.1 p.2) := rfl

omit [Cursor ρ τ] in
@[simp] theorem pure_run (a : α) (r : ρ) : (pure a : Parser ρ ε σ α) r = .ok (a, r) := rfl

theorem prefix_rest_advance {xs ys : List τ} {r : ρ} (h : xs ++ ys <+: rest r) :
    ys <+: rest (advance r xs.length) := by
  obtain ⟨tail, split⟩ := h
  rw [rest_advance, ← split, List.append_assoc, List.drop_left]
  exact List.prefix_append ys tail

theorem reads_pure (a : α) : Reads (pure a : Parser ρ ε σ α) [] a := by
  intro r _
  simp [advance_zero]

theorem reads_bind {m : Parser ρ ε σ α} {f : α → Parser ρ ε σ β} {xs ys : List τ} {a : α} {b : β}
    (first : Reads m xs a) (second : Reads (f a) ys b) : Reads (m >>= f) (xs ++ ys) b := by
  intro r here
  have later := prefix_rest_advance here
  rw [bind_run, first r ((List.prefix_append xs ys).trans here), ok_bind]
  change f a (advance r xs.length) = _
  rw [second _ later, advance_add, List.length_append]

theorem reads_lift {x : Outcome ε σ α} {a : α} (done : x = .ok a) :
    Reads (monadLift x : Parser ρ ε σ α) [] a := by
  intro r _
  rw [done, List.length_nil, advance_zero]
  rfl

theorem streaming_pure (a : α) : Streaming (pure a : Parser ρ ε σ α) := by
  intro r b r' h
  cases h
  exact ⟨[], List.nil_prefix, (advance_zero r).symm, reads_pure a⟩

theorem streaming_bind {m : Parser ρ ε σ α} {f : α → Parser ρ ε σ β} (first : Streaming m)
    (second : ∀ a, Streaming (f a)) : Streaming (m >>= f) := by
  intro r b r'' h
  rw [bind_run, bind_eq_ok] at h
  obtain ⟨⟨a, r'⟩, hm, hf⟩ := h
  obtain ⟨xs, hxs, rfl, readsM⟩ := first r a r' hm
  obtain ⟨ys, hys, rfl, readsF⟩ := second a _ b r'' hf
  refine ⟨xs ++ ys, ?_, ?_, reads_bind readsM readsF⟩
  · obtain ⟨tail, split⟩ := hxs
    rw [rest_advance, ← split, List.drop_left] at hys
    rw [← split]
    exact (List.prefix_append_right_inj xs).mpr hys
  · rw [advance_add, List.length_append]

/-- A step that leaves the cursor alone. -/
theorem streaming_lift (x : Outcome ε σ α) : Streaming (monadLift x : Parser ρ ε σ α) := by
  intro r a r' h
  cases x with
  | error halt => cases h
  | ok value =>
    cases h
    refine ⟨[], List.nil_prefix, (advance_zero r).symm, ?_⟩
    intro s _
    rw [List.length_nil, advance_zero]
    rfl

theorem streaming_ite {c : Prop} [Decidable c] {m k : Parser ρ ε σ α}
    (yes : c → Streaming m) (no : ¬ c → Streaming k) : Streaming (if c then m else k) := by
  split
  · exact yes ‹_›
  · exact no ‹_›

/-- What a parser reads is determined, as long as some stream starts with it. -/
theorem reads_unique {m : Parser ρ ε σ α} {xs : List τ} {a b : α} {r : ρ} (here : xs <+: rest r)
    (one : Reads m xs a) (two : Reads m xs b) : a = b := by
  have same := one r here
  rw [two r here] at same
  cases same
  rfl

/-- A parser that succeeds on a stream succeeds on every longer one, and alike. -/
theorem streaming_extend {m : Parser ρ ε σ α} (streaming : Streaming m) {r s r' : ρ} {a : α}
    (ran : m r = .ok (a, r')) (longer : rest r <+: rest s) :
    ∃ n, n ≤ (rest r).length ∧ r' = advance r n ∧ m s = .ok (a, advance s n) := by
  obtain ⟨xs, hxs, rfl, reads⟩ := streaming r a r' ran
  exact ⟨xs.length, hxs.length_le, rfl, reads s (hxs.trans longer)⟩

/-- No run of the parser panics. -/
def Safely (m : Parser ρ ε σ α) : Prop := ∀ r, Safe (m r)

omit [Cursor ρ τ] in
theorem safely_pure (a : α) : Safely (pure a : Parser ρ ε σ α) := fun _ => safe_ok _

omit [Cursor ρ τ] in
theorem safely_bind {m : Parser ρ ε σ α} {f : α → Parser ρ ε σ β} (first : Safely m)
    (second : ∀ a, Safely (f a)) : Safely (m >>= f) := by
  intro r
  rw [bind_run]
  exact safe_bind (first r) fun p _ => second p.1 p.2

omit [Cursor ρ τ] in
theorem safely_lift {x : Outcome ε σ α} (safe : Safe x) :
    Safely (monadLift x : Parser ρ ε σ α) := by
  intro r
  exact safe_bind safe fun _ _ => safe_ok _

omit [Cursor ρ τ] in
theorem safely_ite {c : Prop} [Decidable c] {m k : Parser ρ ε σ α}
    (yes : c → Safely m) (no : ¬ c → Safely k) : Safely (if c then m else k) := by
  split
  · exact yes ‹_›
  · exact no ‹_›

/-- Every run of the parser ends in a value or with an allowed error. -/
def Keeps (allowed : ε → Prop) (m : Parser ρ ε σ α) : Prop := ∀ r, Within allowed (m r)

section Keeps
omit [Cursor ρ τ]
variable {allowed : ε → Prop}

theorem keeps_pure (a : α) : Keeps allowed (pure a : Parser ρ ε σ α) := fun _ => within_ok _

theorem keeps_bind {m : Parser ρ ε σ α} {f : α → Parser ρ ε σ β} (first : Keeps allowed m)
    (second : ∀ a, Keeps allowed (f a)) : Keeps allowed (m >>= f) := by
  intro r
  rw [bind_run]
  exact within_bind (first r) fun p _ => second p.1 p.2

theorem keeps_lift {x : Outcome ε σ α} (within : Within allowed x) :
    Keeps allowed (monadLift x : Parser ρ ε σ α) := by
  intro r
  exact within_bind within fun _ _ => within_ok _

theorem keeps_ite {c : Prop} [Decidable c] {m k : Parser ρ ε σ α}
    (yes : c → Keeps allowed m) (no : ¬ c → Keeps allowed k) :
    Keeps allowed (if c then m else k) := by
  split
  · exact yes ‹_›
  · exact no ‹_›

end Keeps

end Stream
