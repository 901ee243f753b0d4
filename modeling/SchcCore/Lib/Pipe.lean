import Mathlib

/- A lossy pipe: what goes in may come out any number of times, in any order or not at all, each time
   as `carry` makes it, and nothing else comes out. -/
namespace Pipe
variable {α β : Type} {carry : α → Option β}

structure State (α β : Type) where
  accepted : List α
  delivered : List β

def empty : State α β := ⟨[], []⟩

inductive Step (carry : α → Option β) : State α β → State α β → Prop where
  | accept (accepted : List α) (delivered : List β) (a : α) :
      Step carry ⟨accepted, delivered⟩ ⟨accepted ++ [a], delivered⟩
  | deliver (accepted : List α) (delivered : List β) (a : α) (b : β) :
      a ∈ accepted → carry a = some b →
      Step carry ⟨accepted, delivered⟩ ⟨accepted, delivered ++ [b]⟩

abbrev Run (carry : α → Option β) : State α β → State α β → Prop :=
  Relation.ReflTransGen (Step carry)

theorem Run.accepts (accepted : List α) (delivered : List β) (more : List α) :
    Run carry ⟨accepted, delivered⟩ ⟨accepted ++ more, delivered⟩ := by
  induction more generalizing accepted with
  | nil =>
    rw [List.append_nil]
  | cons a more ih =>
    have rest := ih (accepted ++ [a])
    rw [List.append_assoc, List.singleton_append] at rest
    exact .head (.accept accepted delivered a) rest

theorem Run.delivers (accepted : List α) (delivered : List β) {more : List β}
    (carried : ∀ b ∈ more, ∃ a ∈ accepted, carry a = some b) :
    Run carry ⟨accepted, delivered⟩ ⟨accepted, delivered ++ more⟩ := by
  induction more generalizing delivered with
  | nil =>
    rw [List.append_nil]
  | cons b more ih =>
    obtain ⟨a, member, same⟩ := carried b List.mem_cons_self
    have rest := ih (delivered ++ [b]) fun c later => carried c (List.mem_cons_of_mem b later)
    rw [List.append_assoc, List.singleton_append] at rest
    exact .head (.deliver accepted delivered a b member same) rest

/-- What a step keeps: everything that came out had gone in. -/
theorem Step.carried {state next : State α β} (step : Step carry state next)
    (before : ∀ b ∈ state.delivered, ∃ a ∈ state.accepted, carry a = some b) :
    ∀ b ∈ next.delivered, ∃ a ∈ next.accepted, carry a = some b := by
  intro b member
  cases step with
  | accept accepted delivered a =>
    obtain ⟨source, earlier, same⟩ := before b member
    exact ⟨source, List.mem_append_left _ earlier, same⟩
  | deliver accepted delivered a c inside same =>
    rcases List.mem_append.mp member with old | new
    · exact before b old
    · cases List.mem_singleton.mp new
      exact ⟨a, inside, same⟩

/-- The states that a pipe reaches are those in which everything that came out had gone in. -/
theorem run_empty_iff (state : State α β) :
    Run carry empty state ↔ ∀ b ∈ state.delivered, ∃ a ∈ state.accepted, carry a = some b := by
  constructor
  · intro ran
    induction ran with
    | refl =>
      intro b member
      cases member
    | tail _ step ih => exact step.carried ih
  · intro carried
    exact (Run.accepts [] [] state.accepted).trans (Run.delivers state.accepted [] carried)

end Pipe
