import SchcCore.Lib.Outcome

/- Lists whose elements carry their places: reading one and sorting it by place gives a result
   that does not depend on the order it was written in. Runs are compared by what they accept. -/
namespace Outcome
variable {ε σ α β : Type}

/-- Two runs accept the same values; they may fail in different ways. -/
def Alike (x y : Outcome ε σ α) : Prop := ∀ a, x = .ok a ↔ y = .ok a

namespace Alike

theorem refl (x : Outcome ε σ α) : Alike x x := fun _ => Iff.rfl

theorem error (h h' : Halt ε σ) : Alike (.error h : Outcome ε σ α) (.error h') := by
  intro a
  constructor <;> intro impossible <;> cases impossible

theorem bind {x y : Outcome ε σ α} {f g : α → Outcome ε σ β} (first : Alike x y)
    (rest : ∀ a, Alike (f a) (g a)) : Alike (x >>= f) (y >>= g) := by
  intro b
  rw [bind_eq_ok, bind_eq_ok]
  constructor
  · rintro ⟨a, ran, done⟩
    exact ⟨a, (first a).mp ran, (rest a b).mp done⟩
  · rintro ⟨a, ran, done⟩
    exact ⟨a, (first a).mpr ran, (rest a b).mpr done⟩

theorem ite {c : Prop} [Decidable c] {x x' y y' : Outcome ε σ α} (yes : Alike x x')
    (no : Alike y y') : Alike (if c then x else y) (if c then x' else y') := by
  split
  · exact yes
  · exact no

end Alike

theorem Alike.mapIndexed {f : Nat → α → Outcome ε σ β} {xs ys : List α}
    (each : List.Forall₂ (fun x y => ∀ i, Alike (f i x) (f i y)) xs ys) (i : Nat) :
    Alike (mapIndexed f i xs) (mapIndexed f i ys) := by
  induction each generalizing i with
  | nil => exact .refl _
  | cons here _ ih => exact (here i).bind fun first => (ih (i + 1)).bind fun rest => .refl _

theorem mapIndexed_forall₂ {f : Nat → α → Outcome ε σ β} {related : α → β → Prop}
    (each : ∀ i x y, f i x = .ok y → related x y) {i : Nat} {xs : List α} {ys : List β}
    (done : mapIndexed f i xs = .ok ys) : List.Forall₂ related xs ys := by
  induction xs generalizing i ys with
  | nil =>
    cases done
    exact .nil
  | cons x xs ih =>
    simp only [mapIndexed, bind_eq_ok] at done
    obtain ⟨y, first, ys, rest, done⟩ := done
    cases done
    exact .cons (each i x y first) (ih rest)

/-- A pass that reads each element by itself, wherever it stands. -/
theorem mapIndexed_eq_ok {f : Nat → α → Outcome ε σ β} {read : α → Option β}
    (reads : ∀ i x y, f i x = .ok y ↔ read x = some y) (i : Nat) (xs : List α) (ys : List β) :
    mapIndexed f i xs = .ok ys ↔ xs.map read = ys.map some := by
  induction xs generalizing i ys with
  | nil =>
    cases ys with
    | nil => exact ⟨fun _ => rfl, fun _ => rfl⟩
    | cons y ys =>
      constructor <;> intro impossible <;> cases impossible
  | cons x xs ih =>
    rw [mapIndexed, bind_eq_ok]
    simp only [bind_eq_ok, reads, ih, List.map_cons]
    constructor
    · rintro ⟨y, here, ys', later, done⟩
      cases done
      rw [List.map_cons, here, later]
    · intro same
      cases ys with
      | nil => cases same
      | cons y ys =>
        rw [List.map_cons, List.cons.injEq] at same
        exact ⟨y, same.1, ys, same.2, rfl⟩

end Outcome

namespace Reorder
variable {α β : Type} {read : α → Option β} {key : β → Nat}

/-- All elements can be read, and `out` has them by increasing key. -/
structure Reads (read : α → Option β) (key : β → Nat) (xs : List α) (out : List β) : Prop where
  sorted : out.Pairwise (fun a b => key a < key b)
  perm : (xs.map read).Perm (out.map some)

/-- The order in which the elements are written plays no part. -/
theorem Reads.of_perm {xs ys : List α} {out : List β} (reads : Reads read key xs out)
    (same : xs.Perm ys) : Reads read key ys out :=
  ⟨reads.sorted, (same.map read).symm.trans reads.perm⟩

theorem Reads.of_map {xs ys : List α} {out : List β} (reads : Reads read key xs out)
    (same : xs.map read = ys.map read) : Reads read key ys out :=
  ⟨reads.sorted, same ▸ reads.perm⟩

/-- The keys of a list that is sorted strictly are distinct, and sorting gives it back. -/
theorem sort_eq_iff {found out : List β} :
    (found.map key).Nodup ∧ found.insertionSort (fun a b => key a ≤ key b) = out ↔
      out.Pairwise (fun a b => key a < key b) ∧ found.Perm out := by
  have total : Std.Total (fun a b : β => key a ≤ key b) := ⟨fun a b => Nat.le_total _ _⟩
  have transitive : IsTrans β (fun a b => key a ≤ key b) := ⟨fun _ _ _ => Nat.le_trans⟩
  have sorted : (found.insertionSort (fun a b => key a ≤ key b)).Pairwise
      (fun a b => key a ≤ key b) := List.pairwise_insertionSort _ found
  have same : (found.insertionSort (fun a b => key a ≤ key b)).Perm found :=
    List.perm_insertionSort _ found
  constructor
  · rintro ⟨distinct, rfl⟩
    have apart := (same.map key).nodup_iff.mpr distinct
    rw [List.Nodup, List.pairwise_map] at apart
    exact ⟨(sorted.and apart).imp fun ⟨below, differ⟩ => Nat.lt_of_le_of_ne below differ, same.symm⟩
  · rintro ⟨strict, perm⟩
    have distinct : (out.map key).Nodup := by
      rw [List.Nodup, List.pairwise_map]
      exact strict.imp Nat.ne_of_lt
    refine ⟨(perm.map key).nodup_iff.mpr distinct, ?_⟩
    apply (same.trans perm).eq_of_pairwise ?_ sorted (strict.imp Nat.le_of_lt)
    intro a b listed inside below above
    have member := (same.trans perm).mem_iff.mp listed
    exact List.inj_on_of_nodup_map distinct member inside (Nat.le_antisymm below above)

/-- Reading every element, rejecting equal keys and sorting. -/
theorem reads_iff {xs : List α} {out : List β} : Reads read key xs out ↔
    ∃ found : List β, xs.map read = found.map some ∧ (found.map key).Nodup ∧
      found.insertionSort (fun a b => key a ≤ key b) = out := by
  constructor
  · rintro ⟨sorted, perm⟩
    have readable : xs.map read = (xs.filterMap read).map some := by
      have all : ∀ x ∈ xs, ∃ y, read x = some y := by
        intro x member
        have listed := perm.mem_iff.mp (List.mem_map_of_mem member)
        obtain ⟨y, -, same⟩ := List.mem_map.mp listed
        exact ⟨y, same.symm⟩
      clear perm
      induction xs with
      | nil => rfl
      | cons x xs ih =>
        obtain ⟨y, here⟩ := all x List.mem_cons_self
        rw [List.filterMap_cons_some here, List.map_cons, List.map_cons, here,
          ih fun x later => all x (List.mem_cons_of_mem _ later)]
    refine ⟨xs.filterMap read, readable, sort_eq_iff.mpr ⟨sorted, ?_⟩⟩
    rw [readable] at perm
    exact (List.map_perm_map_iff (Option.some_injective β)).mp perm
  · rintro ⟨found, readable, rest⟩
    obtain ⟨sorted, perm⟩ := sort_eq_iff.mp rest
    exact ⟨sorted, readable ▸ perm.map some⟩

end Reorder
