import Mathlib.Data.List.Basic
import Mathlib.Data.Int.Order.Basic
import Mathlib.Data.Nat.Basic
import Mathlib.Order.Basic
import Mathlib.Tactic.Tauto

/-!
# Tables with an autoincrement integer key

The rows of a table stand in the order of their keys and no two share a key; `seq` is the
largest key ever given out, which an `AUTOINCREMENT` insert never reuses.
-/
namespace NexusCone.KeyedTable

class Keyed (α : Type) where
  key : α → ℤ

export Keyed (key)

variable {α : Type} [Keyed α]

/-- In a strictly increasing list, the value determines the element. -/
theorem eq_of_pairwise_lt {β : Type} {f : β → ℤ} {l : List β} (hl : l.Pairwise (fun a b => f a < f b))
    {a b : β} (ha : a ∈ l) (hb : b ∈ l) (h : f a = f b) : a = b := by
  obtain ⟨i, hi, rfl⟩ := List.getElem_of_mem ha
  obtain ⟨j, hj, rfl⟩ := List.getElem_of_mem hb
  have hsorted := List.pairwise_iff_getElem.mp hl
  rcases lt_trichotomy i j with hij | rfl | hij
  · exact absurd h (ne_of_lt (hsorted i j hi hj hij))
  · rfl
  · exact absurd h (ne_of_gt (hsorted j i hj hi hij))

structure Table (α : Type) [Keyed α] where
  rows : List α
  seq : ℤ
  sorted : rows.Pairwise (fun a b => key a < key b)

namespace Table

def empty : Table α := ⟨[], 0, .nil⟩

/-- `ORDER BY key DESC LIMIT 1`. -/
def last? (t : Table α) : Option α := t.rows.getLast?

/-- `WHERE key = ?`. -/
def find? (t : Table α) (k : ℤ) : Option α := t.rows.find? (fun r => key r = k)

def nextKey (t : Table α) : ℤ := max t.seq ((t.rows.map key).foldl max 0) + 1

/-- The row at its place in the order of the keys. -/
def place (a : α) : List α → List α
  | [] => [a]
  | b :: bs => if key a < key b then a :: b :: bs else b :: place a bs

theorem mem_place {a r : α} {rows : List α} : r ∈ place a rows ↔ r = a ∨ r ∈ rows := by
  induction rows with
  | nil => simp [place]
  | cons b bs ih =>
    unfold place
    split_ifs
    · simp
    · simp only [List.mem_cons, ih]
      tauto

theorem place_sorted {a : α} {rows : List α} (hs : rows.Pairwise (fun a b => key a < key b))
    (hfresh : ∀ r ∈ rows, key r ≠ key a) : (place a rows).Pairwise (fun a b => key a < key b) := by
  induction rows with
  | nil => simp [place]
  | cons b bs ih =>
    obtain ⟨hb, hbs⟩ := List.pairwise_cons.mp hs
    have hne := hfresh b (by simp)
    unfold place
    split_ifs with hlt
    · refine List.pairwise_cons.mpr ⟨?_, hs⟩
      intro r hr
      rcases List.mem_cons.mp hr with rfl | hr
      · exact hlt
      · exact lt_trans hlt (hb r hr)
    · refine List.pairwise_cons.mpr ⟨?_, ih hbs (fun r hr => hfresh r (List.mem_cons_of_mem _ hr))⟩
      intro r hr
      rcases mem_place.mp hr with rfl | hr
      · exact lt_of_le_of_ne (not_lt.mp hlt) hne
      · exact hb r hr

theorem place_of_forall_lt {a : α} {rows : List α} (h : ∀ r ∈ rows, key r < key a) :
    place a rows = rows ++ [a] := by
  induction rows with
  | nil => rfl
  | cons b bs ih =>
    have hb := h b (by simp)
    rw [place, if_neg (lt_asymm hb), ih (fun r hr => h r (List.mem_cons_of_mem _ hr))]
    rfl

/-- `INSERT` of a row with its key: refused when the key is taken. -/
def insert (t : Table α) (a : α) : Option (Table α) :=
  if h : ∀ r ∈ t.rows, key r ≠ key a then
    some ⟨place a t.rows, max t.seq (key a), place_sorted t.sorted h⟩
  else none

theorem le_foldl_max (ks : List ℤ) (m : ℤ) : m ≤ ks.foldl max m ∧ ∀ k ∈ ks, k ≤ ks.foldl max m := by
  induction ks generalizing m with
  | nil => simp
  | cons k ks ih =>
    obtain ⟨hm, hks⟩ := ih (max m k)
    refine ⟨le_trans (le_max_left m k) hm, ?_⟩
    intro j hj
    rcases List.mem_cons.mp hj with rfl | hj
    · exact le_trans (le_max_right m j) hm
    · exact hks j hj

theorem lt_nextKey (t : Table α) : ∀ r ∈ t.rows, key r < t.nextKey := by
  intro r hr
  have h := (le_foldl_max (t.rows.map key) 0).2 (key r) (List.mem_map_of_mem hr)
  have hm := le_max_right t.seq ((t.rows.map key).foldl max 0)
  unfold nextKey
  omega

theorem foldl_max_le {ks : List ℤ} {m b : ℤ} (hm : m ≤ b) (h : ∀ k ∈ ks, k ≤ b) : ks.foldl max m ≤ b := by
  induction ks generalizing m with
  | nil => exact hm
  | cons k ks ih => exact ih (max_le hm (h k List.mem_cons_self)) fun j hj => h j (List.mem_cons_of_mem _ hj)

/-- `INSERT` of a row without its key, which the table gives it. -/
def insertNew (t : Table α) (row : ℤ → α) (hrow : ∀ k, key (row k) = k) : Table α :=
  ⟨t.rows ++ [row t.nextKey], t.nextKey, by
    refine List.pairwise_append.mpr ⟨t.sorted, List.pairwise_singleton _ _, ?_⟩
    intro r hr s hs
    rw [List.mem_singleton.mp hs, hrow]
    exact t.lt_nextKey r hr⟩

/-- `UPDATE` of every row by a function that keeps the key. -/
def update (t : Table α) (f : α → α) (hf : ∀ a, key (f a) = key a) : Table α :=
  ⟨t.rows.map f, t.seq, by
    rw [List.pairwise_map]
    simpa only [hf] using t.sorted⟩

@[simp] theorem rows_empty : (empty : Table α).rows = [] := rfl

@[simp] theorem rows_insertNew (t : Table α) (row : ℤ → α) (hrow : ∀ k, key (row k) = k) :
    (t.insertNew row hrow).rows = t.rows ++ [row t.nextKey] := rfl

@[simp] theorem rows_update (t : Table α) (f : α → α) (hf : ∀ a, key (f a) = key a) :
    (t.update f hf).rows = t.rows.map f := rfl

/-- An accepted insert puts exactly one row in, under a key no row had. -/
theorem insert_some {t t' : Table α} {a : α} (h : t.insert a = some t') :
    (∀ r ∈ t.rows, key r ≠ key a) ∧ t'.rows = place a t.rows := by
  unfold insert at h
  split_ifs at h with hk
  cases h
  exact ⟨hk, rfl⟩

/-- A row whose key is above all others is appended. -/
theorem insert_of_forall_lt {t : Table α} {a : α} (h : ∀ r ∈ t.rows, key r < key a) :
    ∃ t', t.insert a = some t' ∧ t'.rows = t.rows ++ [a] := by
  have hk : ∀ r ∈ t.rows, key r ≠ key a := fun r hr => ne_of_lt (h r hr)
  refine ⟨⟨place a t.rows, max t.seq (key a), place_sorted t.sorted hk⟩, by rw [insert, dif_pos hk], ?_⟩
  exact place_of_forall_lt h

theorem key_injOn (t : Table α) {r s : α} (hr : r ∈ t.rows) (hs : s ∈ t.rows) (h : key r = key s) :
    r = s := eq_of_pairwise_lt t.sorted hr hs h

theorem find?_eq_some {t : Table α} {k : ℤ} {r : α} : t.find? k = some r ↔ r ∈ t.rows ∧ key r = k := by
  constructor
  · intro h
    exact ⟨List.mem_of_find?_eq_some h, by simpa using List.find?_some h⟩
  · rintro ⟨hr, rfl⟩
    cases hf : t.find? (key r) with
    | none =>
      have hn := List.find?_eq_none.mp hf r hr
      simp at hn
    | some s =>
      have hs := List.mem_of_find?_eq_some hf
      have hk : key s = key r := by simpa using List.find?_some hf
      rw [t.key_injOn hs hr hk]

theorem find?_insertNew (t : Table α) (row : ℤ → α) (hrow : ∀ k, key (row k) = k) :
    (t.insertNew row hrow).find? t.nextKey = some (row t.nextKey) :=
  find?_eq_some.mpr ⟨List.mem_append_right _ (List.mem_singleton.mpr rfl), hrow _⟩

/-- A row found after an update is the change of the one before. -/
theorem find?_update {t : Table α} {f : α → α} (hf : ∀ a, key (f a) = key a) {k : ℤ} {r' : α}
    (h : (t.update f hf).find? k = some r') : ∃ r, t.find? k = some r ∧ r' = f r := by
  obtain ⟨hmem, hkey⟩ := find?_eq_some.mp h
  obtain ⟨r, hr, rfl⟩ := List.mem_map.mp hmem
  exact ⟨r, find?_eq_some.mpr ⟨hr, (hf r).symm.trans hkey⟩, rfl⟩

end Table

section Numbered

variable {α β : Type} {row : ℤ → α → β} {xs : List α}

/-- The rows of the items, numbered from one. -/
def numbered (row : ℤ → α → β) (xs : List α) : List β := xs.mapIdx fun j x => row (j + 1) x

theorem mem_numbered {r : β} (h : r ∈ numbered row xs) : ∃ (j : ℕ) (hj : j < xs.length), r = row (j + 1) xs[j] := by
  obtain ⟨j, hj, rfl⟩ := List.mem_mapIdx.mp h
  exact ⟨j, hj, rfl⟩

theorem numbered_concat {x : α} : numbered row (xs ++ [x]) = numbered row xs ++ [row (xs.length + 1) x] :=
  List.mapIdx_concat

theorem map_numbered {γ : Type} {f : β → γ} {g : α → γ} (h : ∀ k x, f (row k x) = g x) :
    (numbered row xs).map f = xs.map g := by
  apply List.ext_getElem?
  intro j
  simp only [numbered, List.getElem?_map, List.getElem?_mapIdx, Option.map_map]
  exact congrArg (Option.map · xs[j]?) (funext fun x => h _ x)

theorem numbered_congr {row' : ℤ → α → β} (h : ∀ k, ∀ x ∈ xs, row' k x = row k x) :
    numbered row' xs = numbered row xs := by
  apply List.ext_getElem
  · simp [numbered]
  · intro j hj hj'
    simp only [numbered, List.getElem_mapIdx]
    exact h _ _ (List.getElem_mem _)

variable [Keyed β]

/-- The table holds the rows of the items, and has given out no other key. -/
structure Numbers (row : ℤ → α → β) (xs : List α) (t : Table β) : Prop where
  rows : t.rows = numbered row xs
  seq : t.seq = xs.length

theorem numbers_empty : Numbers row [] (.empty : Table β) := ⟨rfl, rfl⟩

variable {t : Table β} (hrow : ∀ k x, key (row k x) = k)

include hrow

theorem Numbers.nextKey (h : Numbers row xs t) : t.nextKey = xs.length + 1 := by
  have hle : (t.rows.map key).foldl max 0 ≤ (xs.length : ℤ) := by
    refine Table.foldl_max_le (Int.natCast_nonneg _) fun k hk => ?_
    obtain ⟨r, hr, rfl⟩ := List.mem_map.mp hk
    rw [h.rows] at hr
    obtain ⟨j, hj, rfl⟩ := mem_numbered hr
    rw [hrow]
    omega
  unfold Table.nextKey
  rw [h.seq, max_eq_left hle]

theorem Numbers.insertNew {x : α} {new : ℤ → β} (h : Numbers row xs t) (hnew : ∀ k, key (new k) = k)
    (hx : ∀ k, new k = row k x) : Numbers row (xs ++ [x]) (t.insertNew new hnew) := by
  constructor
  · rw [Table.rows_insertNew, h.rows, h.nextKey hrow, hx, numbered_concat]
  · show t.nextKey = _
    rw [h.nextKey hrow, List.length_append]
    rfl

/-- An update of the row under one key changes at most one item. -/
theorem Numbers.update {f : β → β} (hf : ∀ r, key (f r) = key r) {g : α → α} {k : ℤ} (h : Numbers row xs t)
    (hk : ∀ x, f (row k x) = row k (g x)) (hother : ∀ r, key r ≠ k → f r = r) :
    ∃ i, Numbers row (xs.modify i g) (t.update f hf) := by
  obtain ⟨i, hi⟩ : ∃ i : ℕ, ∀ j < xs.length, i = j ↔ (j : ℤ) + 1 = k := by
    rcases lt_or_ge 0 k with hpos | hneg
    · exact ⟨(k - 1).toNat, fun j _ => by omega⟩
    · exact ⟨xs.length, fun j _ => by omega⟩
  refine ⟨i, ?_, by rw [List.length_modify]; exact h.seq⟩
  rw [Table.rows_update, h.rows]
  apply List.ext_getElem
  · simp [numbered]
  · intro j hj hj'
    have hlen : j < xs.length := by simpa [numbered] using hj
    simp only [numbered, List.getElem_map, List.getElem_mapIdx, List.getElem_modify]
    split
    · rename_i hij
      obtain rfl := (hi j hlen).mp hij
      exact hk _
    · rename_i hij
      exact hother _ fun hkey => hij ((hi j hlen).mpr ((hrow _ _).symm.trans hkey))

end Numbered
end NexusCone.KeyedTable
