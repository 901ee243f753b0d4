import SchcCore.Lib.Outcome

/- Methods on a mutable value. Unlike a parser, a method that fails still leaves a value
   behind, so that what a failed call changed can be told. -/

abbrev Method (ρ ε σ α : Type) := ExceptT (Halt ε σ) (StateM ρ) α

namespace Method
variable {ρ ρ' κ ε σ α β : Type}

/-- The outcome of a call and the value it leaves behind. -/
def call (m : Method ρ ε σ α) (r : ρ) : Outcome ε σ α × ρ := Id.run (StateT.run (ExceptT.run m) r)

def lift (x : Outcome ε σ α) : Method ρ ε σ α := ExceptT.mk (pure x)

/-- `if c { m }` -/
def doWhen (c : Prop) [Decidable c] (m : Method ρ ε σ Unit) : Method ρ ε σ Unit :=
  if c then m else pure ()

def onFst (m : Method ρ ε σ α) : Method (ρ × κ) ε σ α :=
  ExceptT.mk (fun r => ((call m r.1).1, (call m r.1).2, r.2))

def onSnd (m : Method κ ε σ α) : Method (ρ × κ) ε σ α :=
  ExceptT.mk (fun r => ((call m r.2).1, r.1, (call m r.2).2))

@[simp] theorem call_get (r : ρ) : call (get : Method ρ ε σ ρ) r = (.ok r, r) := rfl

@[simp] theorem call_set (next r : ρ) : call (set next : Method ρ ε σ PUnit) r = (.ok ⟨⟩, next) := rfl

@[simp] theorem call_modify (f : ρ → ρ) (r : ρ) :
    call (modify f : Method ρ ε σ PUnit) r = (.ok ⟨⟩, f r) := rfl

@[simp] theorem call_lift (x : Outcome ε σ α) (r : ρ) : call (lift x) r = (x, r) := rfl

@[simp] theorem call_onFst (m : Method ρ ε σ α) (r : ρ × κ) :
    call (onFst m) r = ((call m r.1).1, (call m r.1).2, r.2) := rfl

@[simp] theorem call_onSnd (m : Method κ ε σ α) (r : ρ × κ) :
    call (onSnd m) r = ((call m r.2).1, r.1, (call m r.2).2) := rfl

theorem call_bind_ok {m : Method ρ ε σ α} {f : α → Method ρ ε σ β} {r r' : ρ} {a : α}
    (first : call m r = (.ok a, r')) : call (m >>= f) r = call (f a) r' := by
  have opened : call (m >>= f) r =
      match call m r with
      | (.ok a, r') => call (f a) r'
      | (.error halt, r') => (.error halt, r') := by
    change (ExceptT.bindCont f (call m r).1) (call m r).2 = _
    rcases call m r with ⟨_ | _, _⟩ <;> rfl
  rw [opened, first]

theorem call_bind_error {m : Method ρ ε σ α} {f : α → Method ρ ε σ β} {r r' : ρ}
    {halt : Halt ε σ} (first : call m r = (.error halt, r')) :
    call (m >>= f) r = (.error halt, r') := by
  change (ExceptT.bindCont f (call m r).1) (call m r).2 = _
  rw [first]
  rfl

@[simp] theorem call_get_bind (f : ρ → Method ρ ε σ β) (r : ρ) :
    call (get >>= f) r = call (f r) r := call_bind_ok (call_get r)

@[simp] theorem call_modify_bind (f : PUnit → Method ρ ε σ β) (change : ρ → ρ) (r : ρ) :
    call (modify change >>= f) r = call (f ⟨⟩) (change r) := call_bind_ok (call_modify change r)

theorem call_doWhen_of {c : Prop} [Decidable c] (holds : c) (m : Method ρ ε σ Unit) (r : ρ) :
    call (doWhen c m) r = call m r := by
  rw [doWhen, if_pos holds]

theorem call_doWhen_of_not {c : Prop} [Decidable c] (fails : ¬ c) (m : Method ρ ε σ Unit) (r : ρ) :
    call (doWhen c m) r = (.ok (), r) := by
  rw [doWhen, if_neg fails]
  rfl

/-- On what `view` shows of a value, the method does what the parser does to the value, as
    long as the parser succeeds. -/
def Tracks (view : κ → ρ) (m : Method ρ ε σ α) (p : StateT κ (Outcome ε σ) α) : Prop :=
  ∀ k a k', p k = .ok (a, k') → call m (view k) = (.ok a, view k')

theorem tracks_pure (view : κ → ρ) (a : α) :
    Tracks view (pure a : Method ρ ε σ α) (pure a : StateT κ (Outcome ε σ) α) := by
  intro k b k' done
  cases done
  rfl

theorem tracks_bind {view : κ → ρ} {m : Method ρ ε σ α} {p : StateT κ (Outcome ε σ) α}
    {f : α → Method ρ ε σ β} {q : α → StateT κ (Outcome ε σ) β} (first : Tracks view m p)
    (later : ∀ a, Tracks view (f a) (q a)) : Tracks view (m >>= f) (p >>= q) := by
  intro k b k'' done
  obtain ⟨⟨a, k'⟩, ran, rest⟩ := (Outcome.bind_eq_ok (p k) (fun s => q s.1 s.2) (b, k'')).mp done
  rw [call_bind_ok (first k a k' ran)]
  exact later a k' b k'' rest

end Method
