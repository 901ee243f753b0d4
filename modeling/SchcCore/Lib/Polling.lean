import Mathlib

/- Loops that poll one input a round, count the rounds that succeed, pass over those that only
   fail, and stop at a limit or at the first error that is fatal. -/
namespace Polling
variable {α ε : Type}

/-- What a round comes to. -/
inductive Verdict (ε : Type) where
  | counted
  | passed
  | fatal (error : ε)

inductive State (ε : Type) where
  | running (round count : Nat)
  | returned
  | failed (error : ε)

/-- The limit, if there is one, is not reached. -/
def Below (limit : Option Nat) (count : Nat) : Prop := ∀ bound, limit = some bound → count < bound

def reached (limit : Option Nat) (count : Nat) : Bool :=
  match limit with
  | some bound => bound ≤ count
  | none => false

theorem reached_eq_false {limit : Option Nat} {count : Nat} :
    reached limit count = false ↔ Below limit count := by
  cases limit <;> simp [reached, Below]

def settle (limit : Option Nat) (round count : Nat) : State ε :=
  if reached limit count then .returned else .running round count

def start (limit : Option Nat) : State ε :=
  if limit = some 0 then .returned else .running 0 0

/-- One round, judged by its number; a loop that has stopped takes no more input. -/
def step (judge : Nat → α → Verdict ε) (limit : Option Nat) (state : State ε) (input : α) :
    State ε :=
  match state with
  | .running round count =>
      match judge round input with
      | .counted => settle limit (round + 1) (count + 1)
      | .passed => settle limit (round + 1) count
      | .fatal error => .failed error
  | .returned => .returned
  | .failed error => .failed error

def run (judge : Nat → α → Verdict ε) (limit : Option Nat) (inputs : List α) : State ε :=
  inputs.foldl (step judge limit) (start limit)

/-- No round was fatal. -/
def Quiet (judge : Nat → α → Verdict ε) (inputs : List α) : Prop :=
  ∀ i input, inputs[i]? = some input → ∀ error, judge i input ≠ .fatal error

/-- How many rounds were counted, from a round number on. -/
def successes (judge : Nat → α → Verdict ε) : Nat → List α → Nat
  | _, [] => 0
  | i, input :: inputs =>
      match judge i input with
      | .counted => successes judge (i + 1) inputs + 1
      | _ => successes judge (i + 1) inputs

section
variable {judge : Nat → α → Verdict ε} {limit : Option Nat}

theorem run_append (inputs : List α) (input : α) :
    run judge limit (inputs ++ [input]) = step judge limit (run judge limit inputs) input := by
  rw [run, List.foldl_append]
  rfl

theorem successes_append (i : Nat) (before after : List α) :
    successes judge i (before ++ after) =
      successes judge i before + successes judge (i + before.length) after := by
  induction before generalizing i with
  | nil => simp [successes]
  | cons input before ih =>
    have rest := ih (i + 1)
    rw [Nat.add_right_comm] at rest
    simp only [List.cons_append, successes, List.length_cons]
    cases judge i input <;> simp only [rest, ← Nat.add_assoc, Nat.add_right_comm]

theorem quiet_nil : Quiet judge [] := by
  intro i input found
  simp at found

theorem quiet_append_singleton {inputs : List α} {input : α} :
    Quiet judge (inputs ++ [input]) ↔
      Quiet judge inputs ∧ ∀ error, judge inputs.length input ≠ .fatal error := by
  constructor
  · intro quiet
    constructor
    · intro i other found
      exact quiet i other (by rw [List.getElem?_append_left (List.getElem?_eq_some_iff.mp found).1,
        found])
    · exact quiet inputs.length input (by simp)
  · rintro ⟨before, last⟩ i other found
    rcases Nat.lt_trichotomy i inputs.length with inside | rfl | beyond
    · rw [List.getElem?_append_left inside] at found
      exact before i other found
    · simp only [List.getElem?_concat_length, Option.some.injEq] at found
      subst found
      exact last
    · have past : (inputs ++ [input]).length ≤ i := by
        rw [List.length_append, List.length_singleton]
        omega
      rw [List.getElem?_eq_none past] at found
      cases found

/-- A loop still runs when nothing was fatal and the limit is not reached, and has the count of
    what succeeded. -/
theorem run_running_iff (inputs : List α) (round count : Nat) :
    run judge limit inputs = .running round count ↔
      Quiet judge inputs ∧ Below limit (successes judge 0 inputs) ∧ round = inputs.length ∧
        count = successes judge 0 inputs := by
  induction inputs using List.reverseRecOn generalizing round count with
  | nil =>
    by_cases none : limit = some 0
    · simp [run, start, none, Below, successes]
    · have below : Below limit 0 := by
        intro bound same
        cases bound with
        | zero => exact absurd same none
        | succ bound => exact Nat.succ_pos bound
      simp [run, start, none, quiet_nil, below, successes, eq_comm]
  | append_singleton inputs input ih =>
    rw [run_append, quiet_append_singleton, successes_append, Nat.zero_add, List.length_append,
      List.length_singleton]
    constructor
    · intro running
      cases before : run judge limit inputs with
      | returned => simp [before, step] at running
      | failed error => simp [before, step] at running
      | running round' count' =>
        obtain ⟨quiet, below, rfl, rfl⟩ := (ih round' count').mp before
        simp only [before, step] at running
        cases verdict : judge inputs.length input with
        | fatal error => simp [verdict] at running
        | counted =>
          simp only [verdict, settle] at running
          split at running
          · cases running
          · rename_i open'
            cases running
            simp only [successes, verdict, Nat.zero_add]
            exact ⟨⟨quiet, by simp⟩, reached_eq_false.mp (by simpa using open'), by simp⟩
        | passed =>
          simp only [verdict, settle] at running
          split at running
          · cases running
          · cases running
            simp only [successes, verdict, Nat.add_zero]
            exact ⟨⟨quiet, by simp⟩, below, by simp⟩
    · rintro ⟨⟨quiet, harmless⟩, below, rfl, rfl⟩
      have shorter : Below limit (successes judge 0 inputs) := by
        intro bound same
        exact Nat.lt_of_le_of_lt (Nat.le_add_right _ _) (below bound same)
      rw [(ih _ _).mpr ⟨quiet, shorter, rfl, rfl⟩]
      cases verdict : judge inputs.length input with
      | fatal error => exact absurd verdict (harmless error)
      | counted =>
        simp only [successes, verdict, Nat.zero_add] at below
        simp only [step, verdict, settle, reached_eq_false.mpr below, successes, Nat.zero_add,
          Bool.false_eq_true, ↓reduceIte]
      | passed =>
        simp only [step, verdict, settle, reached_eq_false.mpr shorter, successes, Nat.add_zero,
          Bool.false_eq_true, ↓reduceIte]

/-- Once stopped, a loop stays as it is. -/
theorem foldl_stopped {state : State ε} (stopped : ∀ round count, state ≠ .running round count)
    (inputs : List α) : inputs.foldl (step judge limit) state = state := by
  induction inputs with
  | nil => rfl
  | cons input inputs ih =>
    rw [List.foldl_cons]
    cases state with
    | running round count => exact absurd rfl (stopped round count)
    | returned => exact ih
    | failed error => exact ih

/-- A loop that has stopped did so in a round, or had nothing to do. -/
theorem run_stopped_iff {state : State ε} (stopped : ∀ round count, state ≠ .running round count)
    (inputs : List α) :
    run judge limit inputs = state ↔ start limit = state ∨
      ∃ before input after count, inputs = before ++ input :: after ∧
        run judge limit before = .running before.length count ∧
        step judge limit (.running before.length count) input = state := by
  constructor
  · intro ended
    induction inputs using List.reverseRecOn with
    | nil => exact .inl ended
    | append_singleton inputs input ih =>
      rw [run_append] at ended
      cases before : run judge limit inputs with
      | running round count =>
        rw [before] at ended
        obtain ⟨-, -, rfl, -⟩ := (run_running_iff inputs round count).mp before
        exact .inr ⟨inputs, input, [], count, rfl, before, ended⟩
      | returned | failed =>
        rw [before] at ended
        have same : run judge limit inputs = state := by rw [before, ← ended, step]
        rcases ih same with first | ⟨front, last, rest, count, rfl, running, stops⟩
        · exact .inl first
        · exact .inr ⟨front, last, rest ++ [input], count, by simp, running, stops⟩
  · rintro (first | ⟨before, input, after, count, rfl, running, stops⟩)
    · rw [run, first, foldl_stopped stopped]
    · rw [run, List.foldl_append]
      change (input :: after).foldl (step judge limit) (run judge limit before) = state
      rw [running, List.foldl_cons, stops, foldl_stopped stopped]

/-- A loop returns with the round that brings the count to the limit. -/
theorem run_returned_iff (inputs : List α) :
    run judge limit inputs = .returned ↔ limit = some 0 ∨
      ∃ before input after, inputs = before ++ input :: after ∧ Quiet judge before ∧
        judge before.length input = .counted ∧ limit = some (successes judge 0 before + 1) := by
  rw [run_stopped_iff (by simp)]
  constructor
  · rintro (first | ⟨before, input, after, count, rfl, running, stops⟩)
    · left
      by_contra open'
      simp [start, open'] at first
    · right
      obtain ⟨quiet, below, -, rfl⟩ := (run_running_iff before _ _).mp running
      refine ⟨before, input, after, rfl, quiet, ?_⟩
      cases verdict : judge before.length input with
      | fatal error => simp [step, verdict] at stops
      | passed =>
        simp [step, verdict, settle, reached_eq_false.mpr below] at stops
      | counted =>
        refine ⟨rfl, ?_⟩
        cases limit with
        | none => simp [step, verdict, settle, reached] at stops
        | some bound =>
          have small := below bound rfl
          simp only [step, verdict, settle, reached, decide_eq_true_eq, ite_eq_left_iff, not_le,
            reduceCtorEq, imp_false] at stops
          congr 1
          omega
  · rintro (nothing | ⟨before, input, after, rfl, quiet, verdict, full⟩)
    · left
      simp [start, nothing]
    · right
      have below : Below limit (successes judge 0 before) := by
        intro bound same
        rw [full] at same
        cases same
        exact Nat.lt_succ_self _
      refine ⟨before, input, after, _, rfl, (run_running_iff before _ _).mpr
        ⟨quiet, below, rfl, rfl⟩, ?_⟩
      simp [step, verdict, settle, full, reached]

/-- A loop fails with the first fatal error that it meets before the limit. -/
theorem run_failed_iff (inputs : List α) (error : ε) :
    run judge limit inputs = .failed error ↔
      ∃ before input after, inputs = before ++ input :: after ∧ Quiet judge before ∧
        Below limit (successes judge 0 before) ∧ judge before.length input = .fatal error := by
  rw [run_stopped_iff (by simp)]
  constructor
  · rintro (first | ⟨before, input, after, count, rfl, running, stops⟩)
    · unfold start at first
      split at first <;> cases first
    · obtain ⟨quiet, below, -, rfl⟩ := (run_running_iff before _ _).mp running
      refine ⟨before, input, after, rfl, quiet, below, ?_⟩
      cases verdict : judge before.length input with
      | fatal other =>
        simp only [step, verdict] at stops
        cases stops
        rfl
      | passed | counted =>
        simp only [step, verdict, settle] at stops
        split at stops <;> cases stops
  · rintro ⟨before, input, after, rfl, quiet, below, verdict⟩
    right
    refine ⟨before, input, after, _, rfl, (run_running_iff before _ _).mpr
      ⟨quiet, below, rfl, rfl⟩, ?_⟩
    simp [step, verdict]

end
end Polling
