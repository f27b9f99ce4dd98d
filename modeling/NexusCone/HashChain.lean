import Mathlib.Data.List.Basic
import Mathlib.Data.List.Infix

/-!
# Sequences linked by hashes

Each row names the hash of the row before it, the first one a fixed genesis value. If equal
hashes mean equal hashed contents and no hash is the genesis value, two linked sequences that
share a hash agree up to it.
-/
namespace NexusCone.HashChain

variable {α β : Type} (prev hash : α → β)

def Linked (genesis : β) : List α → Prop
  | [] => True
  | r :: rows => prev r = genesis ∧ Linked (hash r) rows

def tipHash (genesis : β) (rows : List α) : β := (rows.getLast?.map hash).getD genesis

variable {prev hash} {genesis : β} {xs ys : List α}

@[simp] theorem linked_nil : Linked prev hash genesis [] := trivial

@[simp] theorem linked_cons {r : α} :
    Linked prev hash genesis (r :: xs) ↔ prev r = genesis ∧ Linked prev hash (hash r) xs := Iff.rfl

@[simp] theorem tipHash_nil : tipHash hash genesis [] = genesis := rfl

@[simp] theorem tipHash_cons {r : α} : tipHash hash genesis (r :: xs) = tipHash hash (hash r) xs := by
  cases xs with
  | nil => rfl
  | cons y ys =>
    simp only [tipHash, List.getLast?_cons_cons]
    rw [List.getLast?_eq_some_getLast (List.cons_ne_nil y ys)]
    rfl

theorem linked_append : Linked prev hash genesis (xs ++ ys) ↔
    Linked prev hash genesis xs ∧ Linked prev hash (tipHash hash genesis xs) ys := by
  induction xs generalizing genesis with
  | nil => simp
  | cons r rows ih => simp only [List.cons_append, linked_cons, tipHash_cons, ih, and_assoc]

theorem linked_concat {r : α} : Linked prev hash genesis (xs ++ [r]) ↔
    Linked prev hash genesis xs ∧ prev r = tipHash hash genesis xs := by
  simp [linked_append]

theorem Linked.initial (h : Linked prev hash genesis ys) (hp : xs <+: ys) :
    Linked prev hash genesis xs := by
  obtain ⟨zs, rfl⟩ := hp
  exact (linked_append.mp h).1

theorem Linked.prev_zero (h : Linked prev hash genesis xs) (h0 : 0 < xs.length) : prev xs[0] = genesis := by
  cases xs with
  | nil => simp at h0
  | cons r rows => exact h.1

theorem Linked.prev_succ (h : Linked prev hash genesis xs) {i : ℕ} (hi : i + 1 < xs.length) :
    prev xs[i + 1] = hash xs[i] := by
  induction xs generalizing genesis i with
  | nil => simp at hi
  | cons r rows ih =>
    cases i with
    | zero => exact h.2.prev_zero (by simpa using hi)
    | succ i => exact ih h.2 (by simpa using hi)

/-- Links are a matter of the hashes alone. -/
theorem Linked.of_maps (h : Linked prev hash genesis xs) (hp : ys.map prev = xs.map prev)
    (hh : ys.map hash = xs.map hash) : Linked prev hash genesis ys := by
  induction xs generalizing ys genesis with
  | nil =>
    obtain rfl := List.map_eq_nil_iff.mp hp
    exact trivial
  | cons r rows ih =>
    obtain ⟨q, zs, rfl, hq, hzs⟩ := List.map_eq_cons_iff.mp hp
    obtain ⟨hqr, hrest⟩ := List.cons.inj hh
    refine ⟨hq.trans h.1, ih ?_ hzs hrest⟩
    rw [hqr]
    exact h.2

/-- Two linked sequences that share a hash stand at the same place and agree up to it. -/
theorem agreement {same : α → α → Prop} (hx : Linked prev hash genesis xs)
    (hy : Linked prev hash genesis ys)
    (hsame : ∀ x ∈ xs, ∀ y ∈ ys, hash x = hash y → same x y)
    (hprev : ∀ x y, same x y → prev x = prev y)
    (hgx : ∀ x ∈ xs, hash x ≠ genesis) (hgy : ∀ y ∈ ys, hash y ≠ genesis)
    {i j : ℕ} (hi : i < xs.length) (hj : j < ys.length) (h : hash xs[i] = hash ys[j]) :
    i = j ∧ ∀ k (hk : k ≤ i), ∃ hk' : k < ys.length, same xs[k] ys[k] := by
  induction i generalizing j with
  | zero =>
    have hs := hsame _ (List.getElem_mem hi) _ (List.getElem_mem hj) h
    have hp := hprev _ _ hs
    rw [hx.prev_zero hi] at hp
    cases j with
    | zero =>
      refine ⟨rfl, fun k hk => ?_⟩
      obtain rfl := Nat.le_zero.mp hk
      exact ⟨hj, hs⟩
    | succ j =>
      rw [hy.prev_succ hj] at hp
      exact absurd hp.symm (hgy _ (List.getElem_mem _))
  | succ i ih =>
    have hs := hsame _ (List.getElem_mem hi) _ (List.getElem_mem hj) h
    have hp := hprev _ _ hs
    rw [hx.prev_succ hi] at hp
    cases j with
    | zero =>
      rw [hy.prev_zero hj] at hp
      exact absurd hp (hgx _ (List.getElem_mem _))
    | succ j =>
      rw [hy.prev_succ hj] at hp
      obtain ⟨rfl, hagree⟩ := ih (Nat.lt_of_succ_lt hi) (Nat.lt_of_succ_lt hj) hp
      refine ⟨rfl, fun k hk => ?_⟩
      rcases Nat.le_succ_iff.mp hk with hk | rfl
      · exact hagree k hk
      · exact ⟨hj, hs⟩

/-- A linked sequence all of whose hashes occur in another one begins it. -/
theorem prefix_of_shared {γ : Type} {f : α → γ} {same : α → α → Prop} (hx : Linked prev hash genesis xs)
    (hy : Linked prev hash genesis ys)
    (hsame : ∀ x ∈ xs, ∀ y ∈ ys, hash x = hash y → same x y)
    (hprev : ∀ x y, same x y → prev x = prev y) (hf : ∀ x y, same x y → f x = f y)
    (hgx : ∀ x ∈ xs, hash x ≠ genesis) (hgy : ∀ y ∈ ys, hash y ≠ genesis)
    (hshared : ∀ x ∈ xs, ∃ y ∈ ys, hash x = hash y) : xs.map f <+: ys.map f := by
  have hplace (k : ℕ) (hk : k < xs.length) : ∃ hk' : k < ys.length, same xs[k] ys[k] := by
    obtain ⟨y, hymem, hxy⟩ := hshared _ (List.getElem_mem hk)
    obtain ⟨j, hj, rfl⟩ := List.getElem_of_mem hymem
    exact (agreement hx hy hsame hprev hgx hgy hk hj hxy).2 k le_rfl
  refine List.prefix_iff_getElem.mpr ⟨?_, fun k hk => ?_⟩
  · rw [List.length_map, List.length_map]
    by_contra hlen
    obtain ⟨hlt, -⟩ := hplace ys.length (by omega)
    exact lt_irrefl _ hlt
  · obtain ⟨hk', hs⟩ := hplace k (by simpa using hk)
    rw [List.getElem_map, List.getElem_map]
    exact hf _ _ hs

end NexusCone.HashChain
