import SchcCore.Lib.Outcome

/- A scan for the first element that is accepted, where judging an element can fail. A failure
   ends the scan, so it finds the first accepted element exactly when no element in front of it
   fails. -/
namespace Outcome
variable {ε σ α β : Type}

/-- `for (i, x) in xs.enumerate()`, from index `i` on, until `judge` accepts. -/
def scan (judge : Nat → α → Outcome ε σ (Option β)) : Nat → List α → Outcome ε σ (Option β)
  | _, [] => .ok none
  | i, x :: xs => do
      let verdict ← judge i x
      match verdict with
      | some b => .ok (some b)
      | none => scan judge (i + 1) xs

/-- Nothing up to place `k` is accepted. -/
def NoneUpTo (judge : Nat → α → Outcome ε σ (Option β)) (start : Nat) (xs : List α) (k : Nat) :
    Prop :=
  ∀ j x b, j ≤ k → xs[j]? = some x → judge (start + j) x ≠ .ok (some b)

/-- The outcome is the verdict on the first accepted element, or that there is none. -/
structure FindsFirst (judge : Nat → α → Outcome ε σ (Option β)) (start : Nat) (xs : List α)
    (outcome : Outcome ε σ (Option β)) : Prop where
  found : ∀ i x b, xs[i]? = some x → judge (start + i) x = .ok (some b) →
    (∀ j y c, j < i → xs[j]? = some y → judge (start + j) y ≠ .ok (some c)) →
    outcome = .ok (some b)
  missing : (∀ j y c, xs[j]? = some y → judge (start + j) y ≠ .ok (some c)) → outcome = .ok none

/-- What is passed over in front of the first accepted element is passed over without failure. -/
def Unobstructed (judge : Nat → α → Outcome ε σ (Option β)) (start : Nat) (xs : List α) : Prop :=
  ∀ i x, xs[i]? = some x → NoneUpTo judge start xs i → judge (start + i) x = .ok none

theorem noneUpTo_succ {judge : Nat → α → Outcome ε σ (Option β)} {start : Nat} {x : α}
    {xs : List α} {k : Nat} (here : ∀ b, judge start x ≠ .ok (some b)) :
    NoneUpTo judge start (x :: xs) (k + 1) ↔ NoneUpTo judge (start + 1) xs k := by
  constructor
  · intro none j y b below placed
    have later := none (j + 1) y b (by omega) (by simpa using placed)
    rwa [← Nat.add_assoc, Nat.add_right_comm] at later
  · intro none j y b below placed
    cases j with
    | zero =>
      cases placed
      exact here b
    | succ j =>
      have later := none j y b (by omega) (by simpa using placed)
      rwa [← Nat.add_assoc, Nat.add_right_comm]

theorem unobstructed_cons {judge : Nat → α → Outcome ε σ (Option β)} {start : Nat} {x : α}
    {xs : List α} (here : judge start x = .ok none) :
    Unobstructed judge start (x :: xs) ↔ Unobstructed judge (start + 1) xs := by
  have passed : ∀ b, judge start x ≠ .ok (some b) := by
    intro b
    rw [here]
    exact fun same => nomatch same
  constructor
  · intro clear i y placed none
    have later := clear (i + 1) y (by simpa using placed) ((noneUpTo_succ passed).mpr none)
    rwa [← Nat.add_assoc, Nat.add_right_comm] at later
  · intro clear i y placed none
    cases i with
    | zero =>
      cases placed
      exact here
    | succ i =>
      have later := clear i y (by simpa using placed) ((noneUpTo_succ passed).mp none)
      rwa [← Nat.add_assoc, Nat.add_right_comm]

theorem findsFirst_cons {judge : Nat → α → Outcome ε σ (Option β)} {start : Nat} {x : α}
    {xs : List α} {outcome : Outcome ε σ (Option β)} (here : judge start x = .ok none) :
    FindsFirst judge start (x :: xs) outcome ↔ FindsFirst judge (start + 1) xs outcome := by
  have shift : ∀ j, start + (j + 1) = start + 1 + j := by omega
  have passed : ∀ b, judge start x ≠ .ok (some b) := by
    intro b
    rw [here]
    exact fun same => nomatch same
  constructor
  · rintro ⟨found, missing⟩
    constructor
    · intro i y b placed accepted first
      refine found (i + 1) y b (by simpa using placed) (by rwa [shift]) ?_
      intro j z c below there
      cases j with
      | zero =>
        cases there
        exact passed c
      | succ j =>
        rw [shift]
        exact first j z c (by omega) (by simpa using there)
    · intro none
      apply missing
      intro j y c placed
      cases j with
      | zero =>
        cases placed
        exact passed c
      | succ j =>
        rw [shift]
        exact none j y c (by simpa using placed)
  · rintro ⟨found, missing⟩
    constructor
    · intro i y b placed accepted first
      cases i with
      | zero =>
        cases placed
        exact absurd accepted (passed b)
      | succ i =>
        rw [shift] at accepted
        refine found i y b (by simpa using placed) accepted ?_
        intro j z c below there
        rw [← shift]
        exact first (j + 1) z c (by omega) (by simpa using there)
    · intro none
      apply missing
      intro j y c placed
      rw [← shift]
      exact none (j + 1) y c (by simpa using placed)

/-- What was found, or found missing, was returned. -/
theorem FindsFirst.finishes {judge : Nat → α → Outcome ε σ (Option β)} {start : Nat}
    {xs : List α} {outcome : Outcome ε σ (Option β)} (finds : FindsFirst judge start xs outcome) :
    ∃ verdict, outcome = .ok verdict := by
  by_cases any : ∃ k, ∃ x b, xs[k]? = some x ∧ judge (start + k) x = .ok (some b)
  · classical
    obtain ⟨x, b, placed, accepted⟩ := Nat.find_spec any
    have first := finds.found (Nat.find any) x b placed accepted fun j y c below there accepted' =>
      Nat.find_min any below ⟨y, c, there, accepted'⟩
    exact ⟨some b, first⟩
  · have nothing := finds.missing fun j y c there accepted => any ⟨j, y, c, there, accepted⟩
    exact ⟨none, nothing⟩

theorem scan_cons_ok {judge : Nat → α → Outcome ε σ (Option β)} {start : Nat} {x : α}
    {xs : List α} {verdict : Option β} :
    scan judge start (x :: xs) = .ok verdict ↔
      (∃ b, judge start x = .ok (some b) ∧ verdict = some b) ∨
        (judge start x = .ok none ∧ scan judge (start + 1) xs = .ok verdict) := by
  rw [scan]
  cases judge start x with
  | error h => simp
  | ok own =>
    cases own with
    | none => simp
    | some b => simp [eq_comm]

theorem findsFirst_of_scan {judge : Nat → α → Outcome ε σ (Option β)} {start : Nat}
    {xs : List α} {verdict : Option β} (done : scan judge start xs = .ok verdict) :
    FindsFirst judge start xs (.ok verdict) := by
  induction xs generalizing start with
  | nil =>
    cases done
    constructor
    · intro i x b placed
      simp at placed
    · intro _
      rfl
  | cons x xs ih =>
    rcases scan_cons_ok.mp done with ⟨b, here, rfl⟩ | ⟨here, rest⟩
    · constructor
      · intro i y c placed accepted first
        cases i with
        | zero =>
          cases placed
          rwa [Nat.add_zero, here] at accepted
        | succ i => exact absurd here (first 0 x b (Nat.succ_pos i) rfl)
      · intro none
        exact absurd here (none 0 x b rfl)
    · exact (findsFirst_cons here).mpr (ih rest)

/-- What a scan returns is the verdict on the first accepted element. -/
theorem scan_some {judge : Nat → α → Outcome ε σ (Option β)} {start : Nat} {xs : List α} {b : β}
    (done : scan judge start xs = .ok (some b)) :
    ∃ i x, xs[i]? = some x ∧ judge (start + i) x = .ok (some b) ∧
      ∀ j y c, j < i → xs[j]? = some y → judge (start + j) y ≠ .ok (some c) := by
  have finds := findsFirst_of_scan done
  by_cases any : ∃ k, ∃ x c, xs[k]? = some x ∧ judge (start + k) x = .ok (some c)
  · classical
    obtain ⟨x, c, placed, accepted⟩ := Nat.find_spec any
    have first : ∀ j y c, j < Nat.find any → xs[j]? = some y → judge (start + j) y ≠ .ok (some c) :=
      fun j y c below there accepted' => Nat.find_min any below ⟨y, c, there, accepted'⟩
    cases finds.found (Nat.find any) x c placed accepted first
    exact ⟨Nat.find any, x, placed, accepted, first⟩
  · cases finds.missing fun j y c there accepted => any ⟨j, y, c, there, accepted⟩

/-- A scan finishes exactly when nothing in front of the first accepted element fails. -/
theorem scan_ok_iff (judge : Nat → α → Outcome ε σ (Option β)) (start : Nat) (xs : List α) :
    (∃ verdict, scan judge start xs = .ok verdict) ↔ Unobstructed judge start xs := by
  induction xs generalizing start with
  | nil =>
    constructor
    · intro _ i x placed
      simp at placed
    · intro _
      exact ⟨none, rfl⟩
  | cons x xs ih =>
    constructor
    · rintro ⟨verdict, done⟩
      rcases scan_cons_ok.mp done with ⟨b, here, -⟩ | ⟨here, rest⟩
      · intro i y placed none
        exact absurd here (none 0 x b (Nat.zero_le i) rfl)
      · exact (unobstructed_cons here).mpr ((ih (start + 1)).mp ⟨verdict, rest⟩)
    · intro clear
      by_cases accepted : ∃ b, judge start x = .ok (some b)
      · obtain ⟨b, here⟩ := accepted
        exact ⟨some b, scan_cons_ok.mpr (.inl ⟨b, here, rfl⟩)⟩
      · have here : judge start x = .ok none := by
          refine clear 0 x rfl fun j y b below placed here => ?_
          obtain rfl : j = 0 := by omega
          cases placed
          exact accepted ⟨b, here⟩
        obtain ⟨verdict, rest⟩ := (ih (start + 1)).mpr ((unobstructed_cons here).mp clear)
        exact ⟨verdict, scan_cons_ok.mpr (.inr ⟨here, rest⟩)⟩

/-- A scan finds the first accepted element exactly when nothing in front of it fails. -/
theorem scan_findsFirst_iff (judge : Nat → α → Outcome ε σ (Option β)) (start : Nat)
    (xs : List α) :
    FindsFirst judge start xs (scan judge start xs) ↔ Unobstructed judge start xs := by
  rw [← scan_ok_iff]
  constructor
  · intro finds
    exact finds.finishes
  · rintro ⟨verdict, done⟩
    rw [done]
    exact findsFirst_of_scan done

end Outcome
