import NexusCone.JsonRoundTrip

/-!
# JSON values up to the order of their keys

Values with distinct keys are equal up to the order of the members of their objects exactly if they sort
to the same value. The decoder leaves such a value as it is if its strings have no surrogate pairs to join.
-/
namespace NexusCone.JsonKeyOrder
open CodePoints JsonText

/-- Equal up to the order of the members: the least equivalence that allows another order in an object,
and replaces an element or a member by an equivalent one. -/
inductive Reordered : Json → Json → Prop
  | refl (v : Json) : Reordered v v
  | symm {u v : Json} : Reordered u v → Reordered v u
  | trans {u v w : Json} : Reordered u v → Reordered v w → Reordered u w
  | order {kvs kws : List (PyStr × Json)} : kvs.Perm kws → Reordered (.obj kvs) (.obj kws)
  | element {u v : Json} (xs ys : List Json) : Reordered u v →
    Reordered (.arr (xs ++ u :: ys)) (.arr (xs ++ v :: ys))
  | member {u v : Json} (k : PyStr) (kvs kws : List (PyStr × Json)) : Reordered u v →
    Reordered (.obj (kvs ++ (k, u) :: kws)) (.obj (kvs ++ (k, v) :: kws))

mutual
/-- Every object has its keys once. -/
def DistinctKeys : Json → Prop
  | .arr xs => DistinctElements xs
  | .obj kvs => (kvs.map Prod.fst).Nodup ∧ DistinctMembers kvs
  | _ => True

def DistinctElements : List Json → Prop
  | [] => True
  | x :: xs => DistinctKeys x ∧ DistinctElements xs

def DistinctMembers : List (PyStr × Json) → Prop
  | [] => True
  | (_, v) :: kvs => DistinctKeys v ∧ DistinctMembers kvs
end

mutual
/-- No string, key or value, has a high surrogate right before a low one. -/
def Unpaired : Json → Prop
  | .str s => unpaired s
  | .arr xs => UnpairedElements xs
  | .obj kvs => UnpairedMembers kvs
  | _ => True

def UnpairedElements : List Json → Prop
  | [] => True
  | x :: xs => Unpaired x ∧ UnpairedElements xs

def UnpairedMembers : List (PyStr × Json) → Prop
  | [] => True
  | (k, v) :: kvs => (unpaired k ∧ Unpaired v) ∧ UnpairedMembers kvs
end

section Trees

theorem distinctElements_iff {xs : List Json} : DistinctElements xs ↔ ∀ x ∈ xs, DistinctKeys x := by
  induction xs with
  | nil => simp [DistinctElements]
  | cons x xs ih => rw [DistinctElements, ih, List.forall_mem_cons]

theorem distinctMembers_iff {kvs : List (PyStr × Json)} : DistinctMembers kvs ↔ ∀ p ∈ kvs, DistinctKeys p.2 := by
  induction kvs with
  | nil => simp [DistinctMembers]
  | cons p kvs ih => rw [DistinctMembers, ih, List.forall_mem_cons]

theorem unpairedElements_iff {xs : List Json} : UnpairedElements xs ↔ ∀ x ∈ xs, Unpaired x := by
  induction xs with
  | nil => simp [UnpairedElements]
  | cons x xs ih => rw [UnpairedElements, ih, List.forall_mem_cons]

theorem unpairedMembers_iff {kvs : List (PyStr × Json)} :
    UnpairedMembers kvs ↔ ∀ p ∈ kvs, unpaired p.1 ∧ Unpaired p.2 := by
  induction kvs with
  | nil => simp [UnpairedMembers]
  | cons p kvs ih => rw [UnpairedMembers, ih, List.forall_mem_cons]

theorem decodedElements_eq (xs : List Json) : decodedElements xs = xs.map decoded := by
  induction xs with
  | nil => rfl
  | cons x xs ih => rw [decodedElements, ih, List.map_cons]

theorem decodedMembers_eq (kvs : List (PyStr × Json)) :
    decodedMembers kvs = kvs.map fun p => (joinPairs p.1, decoded p.2) := by
  induction kvs with
  | nil => rfl
  | cons p kvs ih => rw [decodedMembers, ih, List.map_cons]

/-- The value with its own members sorted within. -/
def sortMember (p : PyStr × Json) : PyStr × Json := (p.1, sortKeys p.2)

theorem sortElements_eq (xs : List Json) : sortElements xs = xs.map sortKeys := by
  induction xs with
  | nil => rfl
  | cons x xs ih => rw [sortElements, ih, List.map_cons]

theorem sortMembers_eq (kvs : List (PyStr × Json)) : sortMembers kvs = kvs.map sortMember := by
  induction kvs with
  | nil => rfl
  | cons p kvs ih => rw [sortMembers, ih, List.map_cons, sortMember]

theorem keys_sortMember (kvs : List (PyStr × Json)) : (kvs.map sortMember).map Prod.fst = kvs.map Prod.fst := by
  rw [List.map_map]
  rfl

/-- Induction over a value with a hypothesis for each element and each member. -/
@[elab_as_elim]
theorem json_induction {motive : Json → Prop} (null : motive .null) (bool : ∀ b, motive (.bool b))
    (int : ∀ n, motive (.int n)) (float : ∀ x, motive (.float x)) (str : ∀ s, motive (.str s))
    (arr : ∀ xs, (∀ x ∈ xs, motive x) → motive (.arr xs))
    (obj : ∀ kvs, (∀ p ∈ kvs, motive p.2) → motive (.obj kvs)) (v : Json) : motive v := by
  refine @Json.rec motive (fun xs => ∀ x ∈ xs, motive x) (fun kvs => ∀ p ∈ kvs, motive p.2) (fun p => motive p.2)
    null bool int float str arr obj ?_ ?_ ?_ ?_ ?_ v
  · simp
  · exact fun x xs hx hxs => List.forall_mem_cons.mpr ⟨hx, hxs⟩
  · simp
  · exact fun p kvs hp hkvs => List.forall_mem_cons.mpr ⟨hp, hkvs⟩
  · exact fun k v hv => hv

end Trees

section Sorting

instance : Std.Total keyLe := ⟨fun p q => le_total p.1 q.1⟩

instance : IsTrans (PyStr × Json) keyLe := ⟨fun _ _ _ h h' => le_trans h h'⟩

/-- With distinct keys the sorted order is the only one. -/
theorem insertionSort_of_perm {kvs kws : List (PyStr × Json)} (h : kvs.Perm kws) (hkeys : (kvs.map Prod.fst).Nodup) :
    kvs.insertionSort keyLe = kws.insertionSort keyLe := by
  have hperm : (kvs.insertionSort keyLe).Perm (kws.insertionSort keyLe) :=
    (List.perm_insertionSort keyLe kvs).trans (h.trans (List.perm_insertionSort keyLe kws).symm)
  refine hperm.eq_of_pairwise (fun p q hp hq hpq hqp => ?_) (List.pairwise_insertionSort keyLe kvs)
    (List.pairwise_insertionSort keyLe kws)
  have hp' : p ∈ kvs := (List.mem_insertionSort keyLe).mp hp
  have hq' : q ∈ kvs := h.mem_iff.mpr ((List.mem_insertionSort keyLe).mp hq)
  exact List.inj_on_of_nodup_map hkeys hp' hq' (le_antisymm hpq hqp)

theorem distinctKeys_of_reordered {u v : Json} (h : Reordered u v) : DistinctKeys u ↔ DistinctKeys v := by
  induction h with
  | refl v => rfl
  | symm _ ih => exact ih.symm
  | trans _ _ ih ih' => exact ih.trans ih'
  | order hperm =>
    simp only [DistinctKeys, distinctMembers_iff]
    exact and_congr (hperm.map Prod.fst).nodup_iff (forall_congr' fun p => imp_congr_left hperm.mem_iff)
  | element xs ys _ ih =>
    simp only [DistinctKeys, distinctElements_iff, List.forall_mem_append, List.forall_mem_cons, ih]
  | member k kvs kws _ ih =>
    simp only [DistinctKeys, distinctMembers_iff, List.forall_mem_append, List.forall_mem_cons, ih, List.map_append,
      List.map_cons]

/-- The order of the members is lost when they are sorted. -/
theorem sortKeys_of_reordered {u v : Json} (h : Reordered u v) (hu : DistinctKeys u) : sortKeys u = sortKeys v := by
  induction h with
  | refl v => rfl
  | symm h ih => exact (ih ((distinctKeys_of_reordered h).mpr hu)).symm
  | trans h _ ih ih' => exact (ih hu).trans (ih' ((distinctKeys_of_reordered h).mp hu))
  | @order kvs kws hperm =>
    rw [DistinctKeys] at hu
    rw [sortKeys, sortKeys, sortMembers_eq, sortMembers_eq]
    refine congrArg Json.obj (insertionSort_of_perm (hperm.map sortMember) ?_)
    rw [keys_sortMember]
    exact hu.1
  | element xs ys _ ih =>
    simp only [DistinctKeys, distinctElements_iff] at hu
    have hsort := ih (hu _ (by simp))
    simp [sortKeys, sortElements_eq, hsort]
  | @member u v k kvs kws _ ih =>
    simp only [DistinctKeys, distinctMembers_iff] at hu
    have hsort := ih (hu.2 (k, u) (by simp))
    simp [sortKeys, sortMembers_eq, sortMember, hsort]

/-- Elements may be replaced one after the other. -/
theorem Reordered.elements {f : Json → Json} {xs : List Json} (ys : List Json) (h : ∀ x ∈ xs, Reordered x (f x)) :
    Reordered (.arr (ys ++ xs)) (.arr (ys ++ xs.map f)) := by
  induction xs generalizing ys with
  | nil => exact .refl _
  | cons x xs ih =>
    obtain ⟨hx, hxs⟩ := List.forall_mem_cons.mp h
    have hrest := ih (ys ++ [f x]) hxs
    rw [List.append_assoc, List.append_assoc] at hrest
    exact (Reordered.element ys xs hx).trans hrest

theorem Reordered.members {f : Json → Json} {kvs : List (PyStr × Json)} (kws : List (PyStr × Json))
    (h : ∀ p ∈ kvs, Reordered p.2 (f p.2)) :
    Reordered (.obj (kws ++ kvs)) (.obj (kws ++ kvs.map fun p => (p.1, f p.2))) := by
  induction kvs generalizing kws with
  | nil => exact .refl _
  | cons p kvs ih =>
    obtain ⟨hp, hkvs⟩ := List.forall_mem_cons.mp h
    have hrest := ih (kws ++ [(p.1, f p.2)]) hkvs
    rw [List.append_assoc, List.append_assoc] at hrest
    exact (Reordered.member p.1 kws kvs hp).trans hrest

/-- Sorting changes the order of the members only. -/
theorem reordered_sortKeys (v : Json) : Reordered v (sortKeys v) := by
  induction v using json_induction with
  | arr xs ih =>
    rw [sortKeys, sortElements_eq]
    exact Reordered.elements [] ih
  | obj kvs ih =>
    rw [sortKeys, sortMembers_eq]
    exact (Reordered.members [] ih).trans (.order (List.perm_insertionSort keyLe _).symm)
  | _ => exact .refl _

theorem distinctKeys_sortKeys {v : Json} : DistinctKeys (sortKeys v) ↔ DistinctKeys v :=
  (distinctKeys_of_reordered (reordered_sortKeys v)).symm

theorem sortKeys_eq_iff {u v : Json} (hu : DistinctKeys u) : sortKeys u = sortKeys v ↔ Reordered u v := by
  refine ⟨fun h => ?_, fun h => sortKeys_of_reordered h hu⟩
  exact (reordered_sortKeys u).trans (h ▸ (reordered_sortKeys v).symm)

theorem sortKeys_sortKeys {v : Json} (hv : DistinctKeys v) : sortKeys (sortKeys v) = sortKeys v :=
  (sortKeys_of_reordered (reordered_sortKeys v) hv).symm

end Sorting

section Pairs

theorem unpaired_decoded (v : Json) : Unpaired (decoded v) := by
  induction v using json_induction with
  | str s => exact unpaired_joinPairs s
  | arr xs ih =>
    rw [decoded, Unpaired, unpairedElements_iff, decodedElements_eq]
    exact List.forall_mem_map.mpr ih
  | obj kvs ih =>
    rw [decoded, Unpaired, unpairedMembers_iff, decodedMembers_eq]
    exact List.forall_mem_map.mpr fun p hp => ⟨unpaired_joinPairs p.1, ih p hp⟩
  | _ => trivial

theorem decoded_of_unpaired {v : Json} (h : Unpaired v) : decoded v = v := by
  induction v using json_induction with
  | str s => rw [decoded, joinPairs_of_unpaired h]
  | arr xs ih =>
    rw [Unpaired, unpairedElements_iff] at h
    rw [decoded, decodedElements_eq, List.map_congr_left fun x hx => ih x hx (h x hx), List.map_id']
  | obj kvs ih =>
    rw [Unpaired, unpairedMembers_iff] at h
    have hmember : ∀ p ∈ kvs, (joinPairs p.1, decoded p.2) = p := fun p hp =>
      Prod.ext (joinPairs_of_unpaired (h p hp).1) (ih p hp (h p hp).2)
    rw [decoded, decodedMembers_eq, List.map_congr_left hmember, List.map_id']
  | _ => rfl

theorem unpaired_of_reordered {u v : Json} (h : Reordered u v) : Unpaired u ↔ Unpaired v := by
  induction h with
  | refl v => rfl
  | symm _ ih => exact ih.symm
  | trans _ _ ih ih' => exact ih.trans ih'
  | order hperm =>
    simp only [Unpaired, unpairedMembers_iff]
    exact forall_congr' fun p => imp_congr_left hperm.mem_iff
  | element xs ys _ ih =>
    simp only [Unpaired, unpairedElements_iff, List.forall_mem_append, List.forall_mem_cons, ih]
  | member k kvs kws _ ih =>
    simp only [Unpaired, unpairedMembers_iff, List.forall_mem_append, List.forall_mem_cons, ih]

theorem unpaired_sortKeys {v : Json} : Unpaired (sortKeys v) ↔ Unpaired v :=
  (unpaired_of_reordered (reordered_sortKeys v)).symm

/-- Without pairs the text determines the value. -/
theorem dumps_injective {u v : Json} (hu : Unpaired u) (hv : Unpaired v) (h : dumps u = dumps v) : u = v := by
  have hparse := parse_dumps u
  rw [h, parse_dumps v, decoded_of_unpaired hu, decoded_of_unpaired hv] at hparse
  exact (Option.some.inj hparse).symm

end Pairs

section Decoding

theorem setKey_of_fresh {k : PyStr} {v : Json} {kvs : List (PyStr × Json)} (h : k ∉ kvs.map Prod.fst) :
    setKey k v kvs = kvs ++ [(k, v)] := by
  induction kvs with
  | nil => rfl
  | cons p kvs ih =>
    rw [List.map_cons, List.mem_cons, not_or] at h
    rw [setKey, if_neg (Ne.symm h.1), ih h.2]
    rfl

theorem foldl_setKey {kvs kws : List (PyStr × Json)} (h : ((kws ++ kvs).map Prod.fst).Nodup) :
    kvs.foldl (fun d p => setKey p.1 p.2 d) kws = kws ++ kvs := by
  induction kvs generalizing kws with
  | nil => rw [List.foldl_nil, List.append_nil]
  | cons p kvs ih =>
    have hfresh : p.1 ∉ kws.map Prod.fst := by
      rw [List.map_append, List.map_cons] at h
      intro hmem
      exact List.disjoint_of_nodup_append h hmem List.mem_cons_self
    rw [List.foldl_cons, setKey_of_fresh hfresh, ih (by rwa [List.append_assoc]), List.append_assoc]
    rfl

theorem mergeElements_eq (xs : List Json) : mergeElements xs = xs.map mergeKeys := by
  induction xs with
  | nil => rfl
  | cons x xs ih => rw [mergeElements, ih, List.map_cons]

theorem mergeMembers_eq (kvs : List (PyStr × Json)) : mergeMembers kvs = kvs.map fun p => (p.1, mergeKeys p.2) := by
  induction kvs with
  | nil => rfl
  | cons p kvs ih => rw [mergeMembers, ih, List.map_cons]

/-- No value is set twice. -/
theorem mergeKeys_of_distinct {v : Json} (h : DistinctKeys v) : mergeKeys v = v := by
  induction v using json_induction with
  | arr xs ih =>
    rw [DistinctKeys, distinctElements_iff] at h
    have helements : mergeElements xs = xs := by
      rw [mergeElements_eq]
      conv_rhs => rw [← List.map_id xs]
      exact List.map_congr_left fun x hx => ih x hx (h x hx)
    rw [mergeKeys, helements]
  | obj kvs ih =>
    rw [DistinctKeys, distinctMembers_iff] at h
    have hmembers : mergeMembers kvs = kvs := by
      rw [mergeMembers_eq]
      conv_rhs => rw [← List.map_id kvs]
      exact List.map_congr_left fun p hp => Prod.ext rfl (ih p hp (h.2 p hp))
    rw [mergeKeys, hmembers, foldl_setKey (by exact h.1), List.nil_append]
  | _ => rfl

theorem loads_dumps (v : Json) : loads (String.ofList (dumps v)) = some (mergeKeys (decoded v)) := by
  rw [loads, String.toList_ofList, parse_dumps, Option.map_some]

/-- What is written in sorted order reads back in sorted order. -/
theorem loads_sortKeys {v : Json} (h : DistinctKeys v) (hpairs : Unpaired v) :
    loads (String.ofList (dumps (sortKeys v))) = some (sortKeys v) := by
  rw [loads_dumps, decoded_of_unpaired (unpaired_sortKeys.mpr hpairs),
    mergeKeys_of_distinct (distinctKeys_sortKeys.mpr h)]

theorem unpaired_setKey {k : PyStr} {v : Json} {kvs : List (PyStr × Json)} (hk : unpaired k) (hv : Unpaired v)
    (h : ∀ p ∈ kvs, unpaired p.1 ∧ Unpaired p.2) : ∀ p ∈ setKey k v kvs, unpaired p.1 ∧ Unpaired p.2 := by
  induction kvs with
  | nil => exact List.forall_mem_singleton.mpr ⟨hk, hv⟩
  | cons p kvs ih =>
    obtain ⟨hp, hkvs⟩ := List.forall_mem_cons.mp h
    rw [setKey]
    split
    · exact List.forall_mem_cons.mpr ⟨⟨hk, hv⟩, hkvs⟩
    · exact List.forall_mem_cons.mpr ⟨hp, ih hkvs⟩

theorem unpaired_foldl_setKey {kvs kws : List (PyStr × Json)} (h : ∀ p ∈ kvs, unpaired p.1 ∧ Unpaired p.2)
    (h' : ∀ p ∈ kws, unpaired p.1 ∧ Unpaired p.2) :
    ∀ p ∈ kvs.foldl (fun d p => setKey p.1 p.2 d) kws, unpaired p.1 ∧ Unpaired p.2 := by
  induction kvs generalizing kws with
  | nil => exact h'
  | cons p kvs ih =>
    obtain ⟨hp, hkvs⟩ := List.forall_mem_cons.mp h
    exact ih hkvs (unpaired_setKey hp.1 hp.2 h')

/-- The dicts of a decoded tree have no other strings. -/
theorem unpaired_mergeKeys {v : Json} (h : Unpaired v) : Unpaired (mergeKeys v) := by
  induction v using json_induction with
  | arr xs ih =>
    rw [Unpaired, unpairedElements_iff] at h
    rw [mergeKeys, Unpaired, unpairedElements_iff, mergeElements_eq]
    exact List.forall_mem_map.mpr fun x hx => ih x hx (h x hx)
  | obj kvs ih =>
    rw [Unpaired, unpairedMembers_iff] at h
    rw [mergeKeys, Unpaired, unpairedMembers_iff, mergeMembers_eq]
    apply unpaired_foldl_setKey
    · exact List.forall_mem_map.mpr fun p hp => ⟨(h p hp).1, ih p hp (h p hp).2⟩
    · simp
  | _ => exact h

end Decoding
end NexusCone.JsonKeyOrder
