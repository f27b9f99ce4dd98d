import NexusCone.Canonical
import NexusCone.ExceptResults
import NexusCone.JsonKeyOrder

/-!
# Payloads that read back as they are

What `json.loads` makes of a canonical payload equals the payload exactly if it has no tuple, no key that is
not a string, and no string with a surrogate pair. JSON turns tuples into lists and such keys into strings, and
its decoder makes one character of a pair.
-/
namespace NexusCone.PayloadRoundTrip
open ExceptResults CodePoints JsonText JsonKeyOrder PyValue Canonical

section Equality

/-- `==` of dict keys: `False` and `True` are the numbers 0 and 1. -/
def keyEq : PyKey → PyKey → Bool
  | .none, .none => true
  | .str s, .str t => s = t
  | k, l =>
    match k.number?, l.number? with
    | some m, some n => m = n
    | _, _ => false

mutual
/-- `==` of values. Floats are compared as they are written. -/
def valEq : PyVal → PyVal → Bool
  | .none, .none => true
  | .bool a, .bool b => a = b
  | .bool a, .int n => a.toNat = n
  | .int m, .bool b => m = b.toNat
  | .int m, .int n => m = n
  | .float x, .float y => x.chars = y.chars
  | .str s, .str t => s = t
  | .list xs, .list ys => elementsEq xs ys
  | .tuple xs, .tuple ys => elementsEq xs ys
  | .dict kvs, .dict kws => kvs.length = kws.length && membersEq kvs kws
  | _, _ => false

def elementsEq : List PyVal → List PyVal → Bool
  | [], [] => true
  | x :: xs, y :: ys => valEq x y && elementsEq xs ys
  | _, _ => false

/-- Every key is there with an equal value. -/
def membersEq : List (PyKey × PyVal) → List (PyKey × PyVal) → Bool
  | [], _ => true
  | (k, v) :: kvs, kws =>
    (match kws.find? fun p => keyEq p.1 k with
    | some p => valEq v p.2
    | none => false) && membersEq kvs kws
end

end Equality

section Values

mutual
/-- No tuple, strings for keys, and no surrogate pair in a string. -/
def plain : PyVal → Bool
  | .str s => unpaired s
  | .list xs => plainElements xs
  | .tuple _ => false
  | .dict kvs => plainMembers kvs
  | _ => true

def plainElements : List PyVal → Bool
  | [] => true
  | x :: xs => plain x && plainElements xs

def plainMembers : List (PyKey × PyVal) → Bool
  | [] => true
  | (.str k, v) :: kvs => (unpaired k && plain v) && plainMembers kvs
  | _ :: _ => false
end

mutual
/-- A value without floats whose dicts have every key once. -/
def Storable : PyVal → Prop
  | .float _ => False
  | .list xs | .tuple xs => StorableElements xs
  | .dict kvs => kvs.Pairwise (fun p q => keyEq p.1 q.1 = false) ∧ StorableMembers kvs
  | _ => True

def StorableElements : List PyVal → Prop
  | [] => True
  | x :: xs => Storable x ∧ StorableElements xs

def StorableMembers : List (PyKey × PyVal) → Prop
  | [] => True
  | (_, v) :: kvs => Storable v ∧ StorableMembers kvs
end

/-- Induction over a value with a hypothesis for each element and each member. -/
@[elab_as_elim]
theorem pyVal_induction {motive : PyVal → Prop} (none : motive .none) (bool : ∀ b, motive (.bool b))
    (int : ∀ n, motive (.int n)) (float : ∀ x, motive (.float x)) (str : ∀ s, motive (.str s))
    (list : ∀ xs, (∀ x ∈ xs, motive x) → motive (.list xs))
    (tuple : ∀ xs, (∀ x ∈ xs, motive x) → motive (.tuple xs))
    (dict : ∀ kvs, (∀ p ∈ kvs, motive p.2) → motive (.dict kvs)) (v : PyVal) : motive v := by
  refine @PyVal.rec motive (fun xs => ∀ x ∈ xs, motive x) (fun kvs => ∀ p ∈ kvs, motive p.2) (fun p => motive p.2)
    none bool int float str list tuple dict ?_ ?_ ?_ ?_ ?_ v
  · simp
  · exact fun x xs hx hxs => List.forall_mem_cons.mpr ⟨hx, hxs⟩
  · simp
  · exact fun p kvs hp hkvs => List.forall_mem_cons.mpr ⟨hp, hkvs⟩
  · exact fun k v hv => hv

theorem plainElements_iff {xs : List PyVal} : plainElements xs ↔ ∀ x ∈ xs, plain x := by
  induction xs with
  | nil => simp [plainElements]
  | cons x xs ih => rw [plainElements, Bool.and_eq_true, ih, List.forall_mem_cons]

theorem plainMembers_iff {kvs : List (PyKey × PyVal)} :
    plainMembers kvs ↔ ∀ p ∈ kvs, (∃ s, p.1 = .str s ∧ unpaired s) ∧ plain p.2 := by
  induction kvs with
  | nil => simp [plainMembers]
  | cons p kvs ih =>
    obtain ⟨k, v⟩ := p
    rw [List.forall_mem_cons, ← ih]
    cases k with
    | str s => simp [plainMembers]
    | _ => simp [plainMembers]

theorem storableElements_iff {xs : List PyVal} : StorableElements xs ↔ ∀ x ∈ xs, Storable x := by
  induction xs with
  | nil => simp [StorableElements]
  | cons x xs ih => rw [StorableElements, ih, List.forall_mem_cons]

theorem storableMembers_iff {kvs : List (PyKey × PyVal)} : StorableMembers kvs ↔ ∀ p ∈ kvs, Storable p.2 := by
  induction kvs with
  | nil => simp [StorableMembers]
  | cons p kvs ih => rw [StorableMembers, ih, List.forall_mem_cons]

theorem ofElements_eq (xs : List Json) : ofElements xs = xs.map ofJson := by
  induction xs with
  | nil => rfl
  | cons x xs ih => rw [ofElements, ih, List.map_cons]

theorem ofMembers_eq (kvs : List (PyStr × Json)) : ofMembers kvs = kvs.map fun p => (.str p.1, ofJson p.2) := by
  induction kvs with
  | nil => rfl
  | cons p kvs ih => rw [ofMembers, ih, List.map_cons]

theorem exists_of_elementsEq {xs ys : List PyVal} (h : elementsEq xs ys) : ∀ x ∈ xs, ∃ y ∈ ys, valEq x y := by
  induction xs generalizing ys with
  | nil => simp
  | cons x xs ih =>
    cases ys with
    | nil => cases h
    | cons y ys =>
      rw [elementsEq, Bool.and_eq_true] at h
      refine List.forall_mem_cons.mpr ⟨⟨y, List.mem_cons_self, h.1⟩, fun x' hx' => ?_⟩
      obtain ⟨y', hy', hxy'⟩ := ih h.2 x' hx'
      exact ⟨y', List.mem_cons_of_mem _ hy', hxy'⟩

theorem membersEq_iff {kvs kws : List (PyKey × PyVal)} :
    membersEq kvs kws ↔ ∀ p ∈ kvs, ∃ q, kws.find? (fun q => keyEq q.1 p.1) = some q ∧ valEq p.2 q.2 := by
  induction kvs with
  | nil => simp [membersEq]
  | cons p kvs ih =>
    obtain ⟨k, v⟩ := p
    rw [membersEq, Bool.and_eq_true, ih, List.forall_mem_cons]
    refine and_congr_left' ?_
    cases kws.find? fun q => keyEq q.1 k <;> simp

end Values

section Decoded

/-- What equals a decoded value is plain. -/
theorem plain_of_valEq {p : PyVal} {v : Json} (hv : Unpaired v) (h : valEq p (ofJson v)) : plain p := by
  induction p using pyVal_induction generalizing v with
  | str s =>
    cases v with
    | str t =>
      have hst : s = t := of_decide_eq_true h
      rw [plain, hst]
      exact hv
    | _ => cases h
  | list xs ih =>
    cases v with
    | arr ys =>
      rw [ofJson, valEq, ofElements_eq] at h
      rw [Unpaired, unpairedElements_iff] at hv
      rw [plain, plainElements_iff]
      intro x hx
      obtain ⟨y, hy, hxy⟩ := exists_of_elementsEq h x hx
      obtain ⟨w, hw, rfl⟩ := List.mem_map.mp hy
      exact ih x hx (hv w hw) hxy
    | _ => cases h
  | tuple xs ih => cases v <;> cases h
  | dict kvs ih =>
    cases v with
    | obj kws =>
      rw [ofJson, valEq, Bool.and_eq_true, membersEq_iff, ofMembers_eq] at h
      rw [Unpaired, unpairedMembers_iff] at hv
      rw [plain, plainMembers_iff]
      intro p hp
      obtain ⟨q, hfind, hq⟩ := h.2 p hp
      obtain ⟨w, hw, rfl⟩ := List.mem_map.mp (List.mem_of_find?_eq_some hfind)
      have hkey := List.find?_some hfind
      refine ⟨?_, ih p hp (hv w hw).2 hq⟩
      cases hk : p.1 with
      | str s =>
        rw [hk] at hkey
        have hws : w.1 = s := of_decide_eq_true hkey
        exact ⟨s, rfl, hws ▸ (hv w hw).1⟩
      | _ =>
        rw [hk] at hkey
        cases hkey
    | _ => cases h
  | _ => rfl

/-- The rendered members, in the order of the dict. -/
theorem sortedMembers_ok {kvs : List (PyKey × PyVal)} {ms : List (PyKey × Json)} (h : sortedMembers kvs = .ok ms) :
    List.Forall₂ (fun p m => m.1 = p.1 ∧ p.2.sorted = .ok m.2) kvs ms := by
  induction kvs generalizing ms with
  | nil =>
    cases h
    exact .nil
  | cons p kvs ih =>
    obtain ⟨v, hv, h'⟩ := bind_ok h
    obtain ⟨rest, hrest, h''⟩ := bind_ok h'
    cases h''
    exact .cons ⟨rfl, hv⟩ (ih hrest)

theorem sortedElements_ok {xs : List PyVal} {ys : List Json} (h : sortedElements xs = .ok ys) :
    List.Forall₂ (fun x y => x.sorted = .ok y) xs ys := by
  induction xs generalizing ys with
  | nil =>
    cases h
    exact .nil
  | cons x xs ih =>
    obtain ⟨y, hy, h'⟩ := bind_ok h
    obtain ⟨rest, hrest, h''⟩ := bind_ok h'
    cases h''
    exact .cons hy (ih hrest)

theorem sortItems_perm {ms items : List (PyKey × Json)} (h : sortItems ms = .ok items) : items.Perm ms := by
  unfold sortItems at h
  split at h <;> cases h
  exact List.perm_insertionSort _ _

theorem find?_of_unique {α : Type} {P : α → Bool} {l : List α} {a : α} (ha : a ∈ l) (hP : P a)
    (hunique : ∀ b ∈ l, P b → b = a) : l.find? P = some a := by
  obtain ⟨b, hb⟩ := Option.isSome_iff_exists.mp (List.find?_isSome.mpr ⟨a, ha, hP⟩)
  rw [hb, hunique b (List.mem_of_find?_eq_some hb) (List.find?_some hb)]

/-- The members are rendered under the keys they have. -/
theorem texts_eq {kvs : List (PyKey × PyVal)} {ms : List (PyKey × Json)}
    (h : List.Forall₂ (fun p m => m.1 = p.1 ∧ p.2.sorted = .ok m.2) kvs ms) :
    (ms.map fun m => m.1.text) = kvs.map fun p => p.1.text := by
  induction h with
  | nil => rfl
  | cons hm _ ih => rw [List.map_cons, List.map_cons, ih, hm.1]

theorem texts_nodup {kvs : List (PyKey × PyVal)} (hstr : ∀ p ∈ kvs, ∃ s, p.1 = .str s ∧ unpaired s)
    (h : kvs.Pairwise fun p q => keyEq p.1 q.1 = false) : (kvs.map fun p => p.1.text).Nodup := by
  refine List.pairwise_map.mpr (h.imp_of_mem fun {p q} hp hq hne heq => ?_)
  obtain ⟨s, hs, -⟩ := hstr p hp
  obtain ⟨t, ht, -⟩ := hstr q hq
  rw [hs, ht] at hne heq
  exact of_decide_eq_false hne heq

/-- A plain value reads back equal to itself, with its keys once and its strings as they are. -/
theorem valEq_of_plain {p : PyVal} {v : Json} (hp : plain p) (hs : Storable p) (h : p.sorted = .ok v) :
    valEq p (ofJson v) ∧ DistinctKeys v ∧ Unpaired v := by
  induction p using pyVal_induction generalizing v with
  | list xs ih =>
    rw [plain, plainElements_iff] at hp
    rw [Storable, storableElements_iff] at hs
    obtain ⟨ys, hys, h'⟩ := bind_ok h
    cases h'
    rw [ofJson, valEq, DistinctKeys, distinctElements_iff, Unpaired, unpairedElements_iff]
    have hsorted := sortedElements_ok hys
    clear h hys
    induction hsorted with
    | nil => simp [elementsEq, ofElements]
    | cons hxy _ ihs =>
      rw [List.forall_mem_cons] at hp hs ih
      obtain ⟨heq, hdistinct, hpairs⟩ := ih.1 hp.1 hs.1 hxy
      obtain ⟨heqs, hdistincts, hpairss⟩ := ihs ih.2 hp.2 hs.2
      rw [ofElements, elementsEq, Bool.and_eq_true, List.forall_mem_cons, List.forall_mem_cons]
      exact ⟨⟨heq, heqs⟩, ⟨hdistinct, hdistincts⟩, hpairs, hpairss⟩
  | dict kvs ih =>
    rw [plain, plainMembers_iff] at hp
    rw [Storable, storableMembers_iff] at hs
    obtain ⟨ms, hms, h'⟩ := bind_ok h
    obtain ⟨items, hitems, h''⟩ := bind_ok h'
    cases h''
    have hmembers := sortedMembers_ok hms
    have hperm := sortItems_perm hitems
    have hvalue : ∀ m ∈ items, ∃ p ∈ kvs, m.1 = p.1 ∧ p.2.sorted = .ok m.2 := fun m hm =>
      exists_of_forall₂ hmembers.flip m (hperm.mem_iff.mp hm)
    have hkeys : (items.map fun m => m.1.text).Nodup := by
      rw [(hperm.map _).nodup_iff, texts_eq hmembers]
      exact texts_nodup (fun p hpm => (hp p hpm).1) hs.1
    rw [ofJson, valEq, Bool.and_eq_true, decide_eq_true_eq, membersEq_iff, ofMembers_eq, DistinctKeys,
      distinctMembers_iff, Unpaired, unpairedMembers_iff, List.map_map, List.map_map, List.length_map]
    refine ⟨⟨hmembers.length_eq.trans hperm.length_eq.symm, fun p hpm => ?_⟩, ⟨hkeys, ?_⟩, ?_⟩
    · obtain ⟨m, hm, hkey, hsort⟩ := exists_of_forall₂ hmembers p hpm
      obtain ⟨s, hstr, -⟩ := (hp p hpm).1
      have htext : m.1.text = s := by rw [hkey, hstr, PyKey.text]
      refine ⟨(.str m.1.text, ofJson m.2), find?_of_unique ?_ ?_ ?_, (ih p hpm (hp p hpm).2 (hs.2 p hpm) hsort).1⟩
      · exact List.mem_map_of_mem (hperm.mem_iff.mpr hm)
      · rw [htext, hstr]
        exact decide_eq_true rfl
      · intro r hr heq
        obtain ⟨m', hm', rfl⟩ := List.mem_map.mp hr
        have htext' : m'.1.text = m.1.text := by
          rw [hstr] at heq
          rw [htext]
          exact of_decide_eq_true heq
        rw [List.inj_on_of_nodup_map hkeys hm' (hperm.mem_iff.mpr hm) htext']
        rfl
    · refine List.forall_mem_map.mpr fun m hm => ?_
      obtain ⟨p, hpm, -, hsort⟩ := hvalue m hm
      exact (ih p hpm (hp p hpm).2 (hs.2 p hpm) hsort).2.1
    · refine List.forall_mem_map.mpr fun m hm => ?_
      obtain ⟨p, hpm, hkey, hsort⟩ := hvalue m hm
      obtain ⟨s, hstr, hs'⟩ := (hp p hpm).1
      refine ⟨?_, (ih p hpm (hp p hpm).2 (hs.2 p hpm) hsort).2.2⟩
      rw [hkey, hstr]
      exact hs'
  | tuple xs => cases hp
  | float x => exact hs.elim
  | none =>
    cases h
    exact ⟨rfl, trivial, trivial⟩
  | bool b =>
    cases h
    exact ⟨by simp [ofJson, valEq], trivial, trivial⟩
  | int n =>
    cases h
    exact ⟨by simp [ofJson, valEq], trivial, trivial⟩
  | str s =>
    cases h
    exact ⟨by simp [ofJson, valEq], trivial, hp⟩

/-- What is read back from a canonical payload equals the payload exactly if it is plain. -/
theorem valEq_loads_iff {p : PyVal} {text : String} (hs : Storable p) (h : canonicalJson p = .ok text) :
    ∃ v, loads text = some v ∧ (valEq p (ofJson v) ↔ plain p) := by
  obtain ⟨v, hv, h'⟩ := bind_ok h
  cases h'
  refine ⟨mergeKeys (decoded v), loads_dumps v, plain_of_valEq (unpaired_mergeKeys (unpaired_decoded v)), fun hp => ?_⟩
  obtain ⟨heq, hdistinct, hpairs⟩ := valEq_of_plain hp hs hv
  rwa [decoded_of_unpaired hpairs, mergeKeys_of_distinct hdistinct]

end Decoded
end NexusCone.PayloadRoundTrip
