import Mathlib.Data.List.Basic
import Mathlib.Data.List.Nodup
import Mathlib.Data.List.Sort
import NexusCone.ExceptResults

/-!
# Trees of operations on messages

A node holds a message, a set of attestations of it, and operations on it in the order in which
they were added, each leading to a node that holds the operation's result. Merging adds what the
other tree has; a tree that is written with everything sorted reads back in that order.
-/
namespace NexusCone.OpTrees
open ExceptResults

/-- A finite set that lists its elements in an order of its own. -/
class FiniteSet (σ : Type) (α : outParam Type) where
  elements : σ → List α
  empty : σ
  add : σ → α → σ
  update : σ → σ → σ
  nodup_elements : ∀ s, (elements s).Nodup
  elements_empty : elements empty = []
  mem_add : ∀ s a b, b ∈ elements (add s a) ↔ b = a ∨ b ∈ elements s
  mem_update : ∀ s t a, a ∈ elements (update s t) ↔ a ∈ elements s ∨ a ∈ elements t

export FiniteSet (elements)

/-- The elements in the order of a list. -/
abbrev ListSet (α : Type) : Type := {l : List α // l.Nodup}

instance {α : Type} [DecidableEq α] : FiniteSet (ListSet α) α where
  elements := Subtype.val
  empty := ⟨[], List.nodup_nil⟩
  add s a := ⟨s.1.insert a, s.2.insert⟩
  update s t := ⟨t.1 ∪ s.1, s.2.union t.1⟩
  nodup_elements := Subtype.prop
  elements_empty := rfl
  mem_add _ _ _ := List.mem_insert_iff
  mem_update _ _ _ := List.mem_union_iff.trans or_comm

/-- Operations on messages, and the error of merging trees of different messages. -/
class Operation (ω : Type) (μ ε : outParam Type) where
  apply : ω → μ → Except ε μ
  mismatch : ε

inductive OpTree (ω μ σ : Type) where
  | node (msg : μ) (attestations : σ) (ops : List (ω × OpTree ω μ σ))

namespace OpTree

variable {ω μ σ α ε : Type}

def msg : OpTree ω μ σ → μ
  | .node m _ _ => m

def attestations : OpTree ω μ σ → σ
  | .node _ s _ => s

def ops : OpTree ω μ σ → List (ω × OpTree ω μ σ)
  | .node _ _ ops => ops

@[simp] theorem msg_node (m : μ) (s : σ) (ops : List (ω × OpTree ω μ σ)) : (node m s ops).msg = m := rfl

theorem induct {motive : OpTree ω μ σ → Prop}
    (node : ∀ m s ops, (∀ p ∈ ops, motive p.2) → motive (.node m s ops)) (t : OpTree ω μ σ) : motive t :=
  @OpTree.rec ω μ σ motive (fun ops => ∀ p ∈ ops, motive p.2) (fun p => motive p.2) node
    (fun _ h => absurd h List.not_mem_nil)
    (fun _ _ hp hops _ hq => (List.mem_cons.mp hq).elim (fun h => h ▸ hp) (hops _))
    (fun _ _ h => h) t

/-- The longest path of operations. -/
def depth : OpTree ω μ σ → ℕ
  | .node _ _ ops => depthOps ops
where
  depthOps : List (ω × OpTree ω μ σ) → ℕ
    | [] => 0
    | (_, t) :: ops => max (t.depth + 1) (depthOps ops)

section Comparing

variable [DecidableEq ω] [DecidableEq μ] [DecidableEq σ]

def same : OpTree ω μ σ → OpTree ω μ σ → Bool
  | .node m s ops, .node m' s' ops' => m = m' && s = s' && sameOps ops ops'
where
  sameOps : List (ω × OpTree ω μ σ) → List (ω × OpTree ω μ σ) → Bool
    | [], [] => true
    | (op, t) :: ops, (op', t') :: ops' => op = op' && t.same t' && sameOps ops ops'
    | _, _ => false

theorem eq_of_same {t u : OpTree ω μ σ} (h : t.same u) : t = u := by
  induction t using OpTree.induct generalizing u with
  | node m s ops ih =>
    obtain ⟨m', s', ops'⟩ := u
    simp only [same, Bool.and_eq_true, decide_eq_true_eq] at h
    obtain ⟨⟨rfl, rfl⟩, hops⟩ := h
    suffices ops = ops' by rw [this]
    induction ops generalizing ops' with
    | nil =>
      cases ops' with
      | nil => rfl
      | cons q ops' => simp [same.sameOps] at hops
    | cons p ops ihops =>
      cases ops' with
      | nil => simp [same.sameOps] at hops
      | cons q ops' =>
        simp only [same.sameOps, Bool.and_eq_true, decide_eq_true_eq] at hops
        obtain ⟨⟨hop, ht⟩, hops⟩ := hops
        rw [Prod.ext hop (ih p List.mem_cons_self ht),
          ihops (fun q hq => ih q (List.mem_cons_of_mem _ hq)) ops' hops]

end Comparing

section Listing

variable [FiniteSet σ α]

/-- A node's own attestations, and then those below its operations in their order. -/
def allAttestations : OpTree ω μ σ → List (μ × α)
  | .node m s ops => (elements s).map (m, ·) ++ below ops
where
  below : List (ω × OpTree ω μ σ) → List (μ × α)
    | [] => []
    | (_, t) :: ops => t.allAttestations ++ below ops

/-- The tree that reads back from the sorted attestations and operations of every node. -/
def sorted [LinearOrder α] [LinearOrder ω] : OpTree ω μ σ → OpTree ω μ σ
  | .node m s ops =>
    .node m (((elements s).insertionSort (· ≤ ·)).foldl FiniteSet.add FiniteSet.empty)
      ((sortedOps ops).insertionSort (fun p q => p.1 ≤ q.1))
where
  sortedOps : List (ω × OpTree ω μ σ) → List (ω × OpTree ω μ σ)
    | [] => []
    | (op, t) :: ops => (op, t.sorted) :: sortedOps ops

end Listing

section Merging

variable [DecidableEq ω] [DecidableEq μ] [FiniteSet σ α] [Operation ω μ ε]

/-- The node below the operation, or a new one. -/
def child (m : μ) (ops : List (ω × OpTree ω μ σ)) (op : ω) : Except ε (OpTree ω μ σ) :=
  match ops.lookup op with
  | some t => .ok t
  | none => do return .node (← Operation.apply op m) FiniteSet.empty []

/-- An operation that is there keeps its place. -/
def setOp (op : ω) (t : OpTree ω μ σ) : List (ω × OpTree ω μ σ) → List (ω × OpTree ω μ σ)
  | [] => [(op, t)]
  | (op', t') :: ops => if op' = op then (op, t) :: ops else (op', t') :: setOp op t ops

/-- Add the attestations and the operations of another tree of the same message. -/
def merge (t : OpTree ω μ σ) : OpTree ω μ σ → Except ε (OpTree ω μ σ)
  | .node m s ops =>
    if t.msg = m then do return .node t.msg (FiniteSet.update t.attestations s) (← mergeOps t.msg t.ops ops)
    else .error (Operation.mismatch ω)
where
  mergeOps (m : μ) (ours : List (ω × OpTree ω μ σ)) :
      List (ω × OpTree ω μ σ) → Except ε (List (ω × OpTree ω μ σ))
    | [] => .ok ours
    | (op, u) :: ops => do
      let t ← child m ours op
      mergeOps m (setOp op (← t.merge u) ours) ops

end Merging

section Keys

variable [DecidableEq ω] {op : ω} {t : OpTree ω μ σ} {ops : List (ω × OpTree ω μ σ)}

theorem mem_of_lookup (h : ops.lookup op = some t) : (op, t) ∈ ops := by
  induction ops with
  | nil => simp at h
  | cons p ops ih =>
    obtain ⟨op', t'⟩ := p
    rw [List.lookup_cons] at h
    by_cases hop : op = op'
    · subst hop
      simp only [beq_self_eq_true] at h
      cases h
      exact List.mem_cons_self
    · simp only [beq_false_of_ne hop] at h
      exact List.mem_cons_of_mem _ (ih h)

theorem mem_setOp {p : ω × OpTree ω μ σ} (h : p ∈ setOp op t ops) : p = (op, t) ∨ p ∈ ops := by
  induction ops with
  | nil => exact .inl (List.mem_singleton.mp h)
  | cons q ops ih =>
    obtain ⟨op', t'⟩ := q
    unfold setOp at h
    split at h
    · exact (List.mem_cons.mp h).imp_right (List.mem_cons_of_mem _)
    · rcases List.mem_cons.mp h with rfl | h
      · exact .inr List.mem_cons_self
      · exact (ih h).imp_right (List.mem_cons_of_mem _)

theorem nodup_setOp (h : (ops.map Prod.fst).Nodup) : ((setOp op t ops).map Prod.fst).Nodup := by
  induction ops with
  | nil => simp [setOp]
  | cons q ops ih =>
    obtain ⟨op', t'⟩ := q
    obtain ⟨hnot, hrest⟩ := List.nodup_cons.mp h
    unfold setOp
    split
    · rename_i heq
      exact List.nodup_cons.mpr ⟨heq ▸ hnot, hrest⟩
    · rename_i hne
      refine List.nodup_cons.mpr ⟨?_, ih hrest⟩
      intro hmem
      obtain ⟨p, hp, hkey⟩ := List.mem_map.mp hmem
      rcases mem_setOp hp with rfl | hp
      · exact hne hkey.symm
      · exact hnot (List.mem_map.mpr ⟨p, hp, hkey⟩)

end Keys

section Gathering

variable {β : Type}

/-- What every node has, and then what those below its operations have. -/
def gather (f : μ → σ → List β) : OpTree ω μ σ → List β
  | .node m s ops => f m s ++ below ops
where
  below : List (ω × OpTree ω μ σ) → List β
    | [] => []
    | (_, t) :: ops => t.gather f ++ below ops

/-- The messages of all nodes. -/
def messages : OpTree ω μ σ → List μ :=
  gather fun m _ => [m]

variable {f : μ → σ → List β} {b : β} {op : ω} {t r : OpTree ω μ σ} {ops : List (ω × OpTree ω μ σ)}

theorem mem_below : b ∈ gather.below f ops ↔ ∃ p ∈ ops, b ∈ p.2.gather f := by
  induction ops with
  | nil => simp [gather.below]
  | cons p ops ih => rw [gather.below, List.mem_append, ih, List.exists_mem_cons_iff]

theorem mem_gather {m : μ} {s : σ} : b ∈ (node m s ops).gather f ↔ b ∈ f m s ∨ ∃ p ∈ ops, b ∈ p.2.gather f := by
  rw [gather, List.mem_append, mem_below]

theorem mem_gather_root (h : b ∈ f t.msg t.attestations) : b ∈ t.gather f := by
  cases t
  exact mem_gather.mpr (.inl h)

theorem mem_messages {m m' : μ} {s : σ} :
    m' ∈ (node m s ops).messages ↔ m' = m ∨ ∃ p ∈ ops, m' ∈ p.2.messages := by
  unfold messages
  rw [mem_gather, List.mem_singleton]

/-- Nodes are found from what they have. -/
theorem gather_subset {γ : Type} {g : μ → σ → List γ} {c : γ} (h : ∀ m s, b ∈ f m s → c ∈ g m s)
    (hb : b ∈ t.gather f) : c ∈ t.gather g := by
  induction t using OpTree.induct with
  | node m s ops ih =>
    refine mem_gather.mpr ((mem_gather.mp hb).imp (h m s) ?_)
    rintro ⟨p, hp, hbelow⟩
    exact ⟨p, hp, ih p hp hbelow⟩

theorem allAttestations_eq [FiniteSet σ α] :
    t.allAttestations = t.gather fun m s => (elements s).map (m, ·) := by
  induction t using OpTree.induct with
  | node m s ops ih =>
    rw [allAttestations, gather]
    congr 1
    induction ops with
    | nil => rfl
    | cons p ops ihops =>
      rw [allAttestations.below, gather.below, ih p List.mem_cons_self,
        ihops fun q hq => ih q (List.mem_cons_of_mem _ hq)]

/-- What is gathered from a union is what is gathered from either side. -/
structure Joins [FiniteSet σ α] (f : μ → σ → List β) : Prop where
  empty : ∀ m s b, b ∈ f m FiniteSet.empty → b ∈ f m s
  update : ∀ m s s' b, b ∈ f m (FiniteSet.update s s') ↔ b ∈ f m s ∨ b ∈ f m s'

theorem joins_messages [FiniteSet σ α] : Joins fun (m : μ) (_ : σ) => [m] :=
  ⟨fun _ _ _ h => h, fun _ _ _ _ => (or_self_iff).symm⟩

theorem joins_attestations [FiniteSet σ α] : Joins fun (m : μ) (s : σ) => (elements s).map (m, ·) := by
  constructor
  · intro m s b hb
    rw [FiniteSet.elements_empty] at hb
    cases hb
  · intro m s s' b
    simp only [List.mem_map, FiniteSet.mem_update, or_and_right, exists_or]

end Gathering

section Forms

variable [Operation ω μ ε]

/-- No operation stands twice at a node, and every child holds its operation's result. -/
inductive WellFormed : OpTree ω μ σ → Prop
  | node {m : μ} {s : σ} {ops : List (ω × OpTree ω μ σ)} (keys : (ops.map Prod.fst).Nodup)
    (results : ∀ p ∈ ops, Operation.apply p.1 m = .ok p.2.msg) (below : ∀ p ∈ ops, p.2.WellFormed) :
    WellFormed (.node m s ops)

theorem sortedOps_eq [LinearOrder α] [LinearOrder ω] [FiniteSet σ α] (ops : List (ω × OpTree ω μ σ)) :
    sorted.sortedOps ops = ops.map fun p => (p.1, p.2.sorted) := by
  induction ops with
  | nil => rfl
  | cons p ops ih => rw [sorted.sortedOps, ih, List.map_cons]

theorem msg_sorted [LinearOrder α] [LinearOrder ω] [FiniteSet σ α] (t : OpTree ω μ σ) : t.sorted.msg = t.msg := by
  cases t
  rfl

theorem WellFormed.sorted [LinearOrder α] [LinearOrder ω] [FiniteSet σ α] {t : OpTree ω μ σ} (h : t.WellFormed) :
    t.sorted.WellFormed := by
  induction h with
  | @node m s ops keys results below ih =>
    have hperm := List.perm_insertionSort (fun p q : ω × OpTree ω μ σ => p.1 ≤ q.1) (sorted.sortedOps ops)
    have hkeys : (sorted.sortedOps ops).map Prod.fst = ops.map Prod.fst := by
      rw [sortedOps_eq, List.map_map]
      rfl
    have hmem {p : ω × OpTree ω μ σ}
        (hp : p ∈ (sorted.sortedOps ops).insertionSort (fun p q => p.1 ≤ q.1)) : ∃ q ∈ ops, (q.1, q.2.sorted) = p := by
      rw [hperm.mem_iff, sortedOps_eq] at hp
      exact List.mem_map.mp hp
    refine .node ?_ (fun p hp => ?_) fun p hp => ?_
    · rw [(hperm.map Prod.fst).nodup_iff, hkeys]
      exact keys
    · obtain ⟨q, hq, rfl⟩ := hmem hp
      rw [msg_sorted]
      exact results q hq
    · obtain ⟨q, hq, rfl⟩ := hmem hp
      exact ih q hq

variable [DecidableEq ω] [DecidableEq μ] [FiniteSet σ α]
variable {m : μ} {op : ω} {t r u : OpTree ω μ σ} {ops ours : List (ω × OpTree ω μ σ)}

omit [DecidableEq μ] in
theorem child_wellFormed (h : ∀ p ∈ ours, Operation.apply p.1 m = .ok p.2.msg ∧ p.2.WellFormed)
    (hc : child m ours op = .ok t) : Operation.apply op m = .ok t.msg ∧ t.WellFormed := by
  unfold OpTree.child at hc
  split at hc
  · rename_i hlookup
    cases hc
    exact h _ (mem_of_lookup hlookup)
  · obtain ⟨m', happ, hc⟩ := bind_ok hc
    cases hc
    exact ⟨happ, .node (by simp) (by simp) (by simp)⟩

theorem mergeOps_wellFormed (ih : ∀ p ∈ ops, ∀ t r : OpTree ω μ σ, t.WellFormed → t.merge p.2 = .ok r →
      r.msg = t.msg ∧ r.WellFormed)
    (hkeys : (ours.map Prod.fst).Nodup)
    (hours : ∀ p ∈ ours, Operation.apply p.1 m = .ok p.2.msg ∧ p.2.WellFormed)
    {ours' : List (ω × OpTree ω μ σ)} (hm : merge.mergeOps m ours ops = .ok ours') :
    (ours'.map Prod.fst).Nodup ∧ ∀ p ∈ ours', Operation.apply p.1 m = .ok p.2.msg ∧ p.2.WellFormed := by
  induction ops generalizing ours with
  | nil =>
    cases hm
    exact ⟨hkeys, hours⟩
  | cons p ops ihops =>
    obtain ⟨op, u⟩ := p
    obtain ⟨hu, hrest⟩ := List.forall_mem_cons.mp ih
    obtain ⟨t, hchild, hm⟩ := bind_ok hm
    obtain ⟨r, hmerge, hm⟩ := bind_ok hm
    obtain ⟨happ, ht⟩ := child_wellFormed hours hchild
    obtain ⟨hmsg, hr⟩ := hu t r ht hmerge
    refine ihops hrest (nodup_setOp hkeys) (fun q hq => ?_) hm
    rcases mem_setOp hq with rfl | hq
    · exact ⟨by rw [hmsg]; exact happ, hr⟩
    · exact hours q hq

/-- Merging keeps the message and the form of the tree that it changes. -/
theorem merge_wellFormed (h : t.WellFormed) (hm : t.merge u = .ok r) : r.msg = t.msg ∧ r.WellFormed := by
  induction u using OpTree.induct generalizing t r with
  | node m s ops ih =>
    unfold merge at hm
    split at hm
    · obtain ⟨ours, hours, hm⟩ := bind_ok hm
      cases hm
      cases h with
      | node keys results below =>
        obtain ⟨keys', hours'⟩ := mergeOps_wellFormed (fun p hp t r => ih p hp) keys
          (fun p hp => ⟨results p hp, below p hp⟩) hours
        exact ⟨rfl, .node keys' (fun p hp => (hours' p hp).1) fun p hp => (hours' p hp).2⟩
    · cases hm

end Forms

section Unions

variable [DecidableEq ω] [DecidableEq μ] [FiniteSet σ α] [Operation ω μ ε]
variable {β : Type} {f : μ → σ → List β} {b : β} {m : μ} {op : ω} {t t' r u : OpTree ω μ σ}
variable {ops ours ours' : List (ω × OpTree ω μ σ)}

omit [DecidableEq μ] [FiniteSet σ α] [Operation ω μ ε] in
theorem below_setOp_new (h : ours.lookup op = none) :
    b ∈ gather.below f (setOp op t ours) ↔ b ∈ gather.below f ours ∨ b ∈ t.gather f := by
  induction ours with
  | nil => simp [setOp, gather.below]
  | cons p ours ih =>
    obtain ⟨op', t'⟩ := p
    rw [List.lookup_cons] at h
    by_cases hop : op = op'
    · simp [hop] at h
    · simp only [beq_false_of_ne hop] at h
      rw [setOp, if_neg (Ne.symm hop), gather.below, gather.below, List.mem_append, List.mem_append, ih h, or_assoc]

omit [DecidableEq μ] [FiniteSet σ α] [Operation ω μ ε] in
theorem below_setOp_old {P : Prop} (h : ours.lookup op = some t) (hr : b ∈ r.gather f ↔ b ∈ t.gather f ∨ P) :
    b ∈ gather.below f (setOp op r ours) ↔ b ∈ gather.below f ours ∨ P := by
  induction ours with
  | nil => simp at h
  | cons p ours ih =>
    obtain ⟨op', t'⟩ := p
    rw [List.lookup_cons] at h
    by_cases hop : op = op'
    · subst hop
      simp only [beq_self_eq_true] at h
      cases h
      rw [setOp, if_pos rfl, gather.below, gather.below, List.mem_append, List.mem_append, hr, or_right_comm]
    · simp only [beq_false_of_ne hop] at h
      rw [setOp, if_neg (Ne.symm hop), gather.below, gather.below, List.mem_append, List.mem_append, ih h, or_assoc]

theorem mergeOps_error {P : ε → Prop} (happly : ∀ (op : ω) m e, Operation.apply op m = .error e → P e)
    (ih : ∀ p ∈ ops, ∀ (t : OpTree ω μ σ) e, t.merge p.2 = .error e → P e) {e : ε}
    (h : merge.mergeOps m ours ops = .error e) : P e := by
  induction ops generalizing ours with
  | nil => cases h
  | cons p ops ihops =>
    obtain ⟨op, u⟩ := p
    obtain ⟨hu, hrest⟩ := List.forall_mem_cons.mp ih
    rcases bind_error h with h | ⟨t, -, h⟩
    · unfold OpTree.child at h
      split at h
      · cases h
      · rcases bind_error h with h | ⟨m', -, h⟩
        · exact happly _ _ _ h
        · cases h
    rcases bind_error h with h | ⟨r, -, h⟩
    · exact hu t e h
    · exact ihops hrest h

/-- The errors of a merge are those of an operation, or of different messages. -/
theorem merge_error {P : ε → Prop} (hmismatch : P (Operation.mismatch ω))
    (happly : ∀ (op : ω) m e, Operation.apply op m = .error e → P e) {e : ε} (h : t.merge u = .error e) : P e := by
  induction u using OpTree.induct generalizing t e with
  | node m s ops ih =>
    unfold merge at h
    split at h
    · rcases bind_error h with h | ⟨ours, -, h⟩
      · exact mergeOps_error happly (fun p hp t e => ih p hp) h
      · cases h
    · cases h
      exact hmismatch

theorem msg_of_merge (h : t.merge u = .ok r) : t.msg = u.msg := by
  obtain ⟨m, s, ops⟩ := u
  unfold merge at h
  split at h
  · assumption
  · cases h

/-- One operation of the other tree: below it comes what the other tree has there. -/
theorem below_merged (hf : Joins f) (hc : child m ours op = .ok t) (hm : t.merge u = .ok r)
    (hr : b ∈ r.gather f ↔ b ∈ t.gather f ∨ b ∈ u.gather f) :
    b ∈ gather.below f (setOp op r ours) ↔ b ∈ gather.below f ours ∨ b ∈ u.gather f := by
  unfold child at hc
  split at hc
  · rename_i hlookup
    cases hc
    exact below_setOp_old hlookup hr
  · rename_i hlookup
    obtain ⟨m', happly, hc⟩ := bind_ok hc
    cases hc
    have hnew : b ∈ (OpTree.node m' FiniteSet.empty [] : OpTree ω μ σ).gather f → b ∈ u.gather f := by
      intro hb
      rcases mem_gather.mp hb with hb | ⟨p, hp, -⟩
      · refine mem_gather_root (hf.empty _ _ _ ?_)
        rw [← msg_of_merge hm]
        exact hb
      · cases hp
    rw [below_setOp_new hlookup, hr, or_iff_right_of_imp hnew]

theorem mem_mergeOps (hf : Joins f)
    (ih : ∀ p ∈ ops, ∀ t r : OpTree ω μ σ, t.merge p.2 = .ok r →
      (b ∈ r.gather f ↔ b ∈ t.gather f ∨ b ∈ p.2.gather f))
    (h : merge.mergeOps m ours ops = .ok ours') :
    b ∈ gather.below f ours' ↔ b ∈ gather.below f ours ∨ b ∈ gather.below f ops := by
  induction ops generalizing ours with
  | nil =>
    cases h
    simp [gather.below]
  | cons p ops ihops =>
    obtain ⟨op, u⟩ := p
    obtain ⟨hu, hrest⟩ := List.forall_mem_cons.mp ih
    obtain ⟨t, hchild, h⟩ := bind_ok h
    obtain ⟨r, hmerge, h⟩ := bind_ok h
    rw [ihops hrest h, below_merged hf hchild hmerge (hu t r hmerge), or_assoc, gather.below, List.mem_append]

/-- The merged tree has what either tree has. -/
theorem mem_merge (hf : Joins f) (h : t.merge u = .ok r) :
    b ∈ r.gather f ↔ b ∈ t.gather f ∨ b ∈ u.gather f := by
  induction u using OpTree.induct generalizing t r with
  | node m s ops ih =>
    have hmsg : t.msg = m := msg_of_merge h
    unfold merge at h
    rw [if_pos hmsg] at h
    obtain ⟨ours, hours, h⟩ := bind_ok h
    cases h
    obtain ⟨m', s', ops'⟩ := t
    obtain rfl : m' = m := hmsg
    have hbelow := mem_mergeOps hf (fun p hp t r => ih p hp) hours
    simp only [gather, List.mem_append, msg_node, attestations, OpTree.ops, hf.update] at hbelow ⊢
    rw [hbelow, or_or_or_comm]

theorem mergeOps_ok (ih : ∀ p ∈ ops, ∀ t : OpTree ω μ σ, t.WellFormed → t.msg = p.2.msg → ∃ r, t.merge p.2 = .ok r)
    (hkeys : (ours.map Prod.fst).Nodup)
    (hours : ∀ p ∈ ours, Operation.apply p.1 m = .ok p.2.msg ∧ p.2.WellFormed)
    (hops : ∀ p ∈ ops, Operation.apply p.1 m = .ok p.2.msg) : ∃ ours', merge.mergeOps m ours ops = .ok ours' := by
  induction ops generalizing ours with
  | nil => exact ⟨ours, rfl⟩
  | cons p ops ihops =>
    obtain ⟨op, u⟩ := p
    obtain ⟨hu, hrest⟩ := List.forall_mem_cons.mp ih
    obtain ⟨happly, hops⟩ := List.forall_mem_cons.mp hops
    obtain ⟨t, hchild⟩ : ∃ t, child m ours op = .ok t := by
      unfold child
      split
      · exact ⟨_, rfl⟩
      · rw [happly]
        exact ⟨_, rfl⟩
    obtain ⟨happ, ht⟩ := child_wellFormed hours hchild
    obtain ⟨r, hmerge⟩ := hu t ht (Except.ok.inj (happ.symm.trans happly))
    obtain ⟨hmsg, hr⟩ := merge_wellFormed ht hmerge
    obtain ⟨ours', hours'⟩ : ∃ ours', merge.mergeOps m (setOp op r ours) ops = .ok ours' := by
      refine ihops hrest (nodup_setOp hkeys) (fun q hq => ?_) hops
      rcases mem_setOp hq with rfl | hq
      · exact ⟨by rw [hmsg]; exact happ, hr⟩
      · exact hours q hq
    refine ⟨ours', ?_⟩
    show (do let t ← child m ours op; merge.mergeOps m (setOp op (← t.merge u) ours) ops) = _
    rw [hchild]
    show (do merge.mergeOps m (setOp op (← t.merge u) ours) ops) = _
    rw [hmerge]
    exact hours'

/-- Well-formed trees of one message can be merged. -/
theorem merge_ok (ht : t.WellFormed) (hu : u.WellFormed) (hmsg : t.msg = u.msg) : ∃ r, t.merge u = .ok r := by
  induction u using OpTree.induct generalizing t with
  | node m s ops ih =>
    obtain ⟨m', s', ops'⟩ := t
    obtain rfl : m' = m := hmsg
    obtain ⟨-, results, below⟩ := hu
    obtain ⟨keys, results', below'⟩ := ht
    obtain ⟨ours, hours⟩ := mergeOps_ok (fun p hp t ht hmsg => ih p hp ht (below p hp) hmsg) keys
      (fun p hp => ⟨results' p hp, below' p hp⟩) results
    refine ⟨.node m' (FiniteSet.update s' s) ours, ?_⟩
    unfold merge
    rw [if_pos (msg_node m' s' ops'), msg_node, OpTree.ops, hours]
    rfl

end Unions

end OpTree
end NexusCone.OpTrees
