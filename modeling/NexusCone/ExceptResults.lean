import Mathlib.Data.List.Forall2
import Mathlib.Tactic.Common

/-!
# Results of chained computations that may fail

When a bind, or the same computation over a list, succeeds.
-/
namespace NexusCone.ExceptResults

variable {α β ε : Type} {f : α → Except ε β}

theorem exists_of_isOk {ε α : Type} {x : Except ε α} (h : x.isOk) : ∃ a, x = .ok a := by
  cases x with
  | error e => cases h
  | ok a => exact ⟨a, rfl⟩

theorem bind_ok {x : Except ε α} {g : α → Except ε β} {b : β} (h : x >>= g = .ok b) :
    ∃ a, x = .ok a ∧ g a = .ok b := by
  cases x with
  | error e => cases h
  | ok a => exact ⟨a, rfl, h⟩

theorem bind_error {x : Except ε α} {g : α → Except ε β} {e : ε} (h : x >>= g = .error e) :
    x = .error e ∨ ∃ a, x = .ok a ∧ g a = .error e := by
  cases x with
  | error e' => exact .inl (by cases h; rfl)
  | ok a => exact .inr ⟨a, rfl, h⟩

theorem mapM_error {xs : List α} {e : ε} (h : xs.mapM f = .error e) : ∃ x ∈ xs, f x = .error e := by
  induction xs with
  | nil => cases h
  | cons x xs ih =>
    rw [List.mapM_cons] at h
    rcases bind_error h with hx | ⟨y, -, h⟩
    · exact ⟨x, List.mem_cons_self, hx⟩
    rcases bind_error h with hxs | ⟨ys, -, h⟩
    · obtain ⟨x', hx', he⟩ := ih hxs
      exact ⟨x', List.mem_cons_of_mem _ hx', he⟩
    · cases h

theorem mapM_ok {xs : List α} {ys : List β} :
    xs.mapM f = .ok ys ↔ List.Forall₂ (fun x y => f x = .ok y) xs ys := by
  induction xs generalizing ys with
  | nil =>
    rw [List.mapM_nil, List.forall₂_nil_left_iff]
    constructor
    · intro h
      cases h
      rfl
    · rintro rfl
      rfl
  | cons x xs ih =>
    rw [List.mapM_cons, List.forall₂_cons_left_iff]
    cases hx : f x with
    | error e =>
      refine iff_of_false (by simp [bind, Except.bind]) ?_
      rintro ⟨y, ys', hy, -⟩
      cases hy
    | ok y =>
      cases hxs : xs.mapM f with
      | error e =>
        refine iff_of_false (by simp [bind, Except.bind]) ?_
        rintro ⟨y', ys', -, hys, -⟩
        rw [ih.mpr hys] at hxs
        cases hxs
      | ok ys' =>
        constructor
        · intro h
          cases h
          exact ⟨y, ys', rfl, ih.mp hxs, rfl⟩
        · rintro ⟨y', ys'', hy, hys, rfl⟩
          cases hy
          rw [ih.mpr hys] at hxs
          cases hxs
          rfl

theorem exists_mapM_ok {xs : List α} : (∃ ys, xs.mapM f = .ok ys) ↔ ∀ x ∈ xs, ∃ y, f x = .ok y := by
  simp only [mapM_ok]
  induction xs with
  | nil => simp
  | cons x xs ih =>
    simp only [List.forall₂_cons_left_iff, List.forall_mem_cons, ← ih]
    constructor
    · rintro ⟨_, y, ys, hy, hys, rfl⟩
      exact ⟨⟨y, hy⟩, ys, hys⟩
    · rintro ⟨⟨y, hy⟩, ys, hys⟩
      exact ⟨y :: ys, y, ys, hy, hys, rfl⟩

theorem exists_of_forall₂ {R : α → β → Prop} {xs : List α} {ys : List β} (h : List.Forall₂ R xs ys) :
    ∀ x ∈ xs, ∃ y ∈ ys, R x y := by
  induction h with
  | nil => simp
  | cons hxy _ ih =>
    refine List.forall_mem_cons.mpr ⟨⟨_, List.mem_cons_self, hxy⟩, fun x hx => ?_⟩
    obtain ⟨y, hy, hr⟩ := ih x hx
    exact ⟨y, List.mem_cons_of_mem _ hy, hr⟩

theorem mem_mapM_ok {xs : List α} {ys : List β} (h : xs.mapM f = .ok ys) {y : β} (hy : y ∈ ys) :
    ∃ x ∈ xs, f x = .ok y :=
  exists_of_forall₂ (mapM_ok.mp h).flip y hy

end NexusCone.ExceptResults
