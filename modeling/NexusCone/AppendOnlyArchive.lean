import Mathlib.Data.List.Basic
import Mathlib.Data.List.Nodup
import Mathlib.Logic.Relation

/-!
# An archive that forgets nothing

Entries are appended, facts about an entry are filed under the number of that entry, and witnesses
are registered under a label and a key of their own. What is filed stays: an anchor may only be
confirmed, a witness only be retired, and each retirement is final.
-/
namespace NexusCone.AppendOnlyArchive

/-- What the archive keeps of each thing. -/
structure Kinds where
  Entry : Type
  Anchor : Type
  Confirmation : Type
  Label : Type
  Key : Type
  Witness : Type
  Retirement : Type
  Attestation : Type

variable {κ : Kinds}

structure Anchored (κ : Kinds) where
  head : ℕ
  proof : κ.Anchor
  confirmation : Option κ.Confirmation

structure Registered (κ : Kinds) where
  label : κ.Label
  publicKey : κ.Key
  details : κ.Witness
  retirement : Option κ.Retirement

structure Attested (κ : Kinds) where
  witness : ℕ
  head : ℕ
  statement : κ.Attestation

/-- The anchor as it was, perhaps confirmed. -/
structure Anchored.Kept (x x' : Anchored κ) : Prop where
  head : x'.head = x.head
  proof : x'.proof = x.proof
  confirmed : x.confirmation.isSome → x'.confirmation.isSome

/-- The witness as it was, perhaps retired. -/
structure Registered.Kept (x x' : Registered κ) : Prop where
  label : x'.label = x.label
  publicKey : x'.publicKey = x.publicKey
  details : x'.details = x.details
  retired : ∀ r, x.retirement = some r → x'.retirement = some r

theorem Anchored.Kept.refl (x : Anchored κ) : x.Kept x := ⟨rfl, rfl, id⟩

theorem Registered.Kept.refl (x : Registered κ) : x.Kept x := ⟨rfl, rfl, rfl, fun _ => id⟩

theorem Anchored.Kept.trans {x y z : Anchored κ} (h : x.Kept y) (h' : y.Kept z) : x.Kept z :=
  ⟨h'.head.trans h.head, h'.proof.trans h.proof, fun hx => h'.confirmed (h.confirmed hx)⟩

theorem Registered.Kept.trans {x y z : Registered κ} (h : x.Kept y) (h' : y.Kept z) : x.Kept z :=
  ⟨h'.label.trans h.label, h'.publicKey.trans h.publicKey, h'.details.trans h.details,
    fun r hr => h'.retired r (h.retired r hr)⟩

/-- Everything stands under its position. -/
structure Archive (κ : Kinds) where
  entries : List κ.Entry
  anchors : List (Anchored κ)
  witnesses : List (Registered κ)
  attestations : List (Attested κ)

namespace Archive

def empty : Archive κ := ⟨[], [], [], []⟩

/-- The names of a new witness are taken by no other. -/
def Unnamed (a : Archive κ) (label : κ.Label) (publicKey : κ.Key) : Prop :=
  ∀ x ∈ a.witnesses, x.label ≠ label ∧ x.publicKey ≠ publicKey

inductive Step : Archive κ → Archive κ → Prop
  | append (a : Archive κ) (e : κ.Entry) : Step a { a with entries := a.entries ++ [e] }
  | anchor (a : Archive κ) (head : ℕ) (proof : κ.Anchor) (h : head < a.entries.length) :
      Step a { a with anchors := a.anchors ++ [⟨head, proof, none⟩] }
  | confirm (a : Archive κ) (j : ℕ) (c : κ.Confirmation) :
      Step a { a with anchors := a.anchors.modify j fun x => { x with confirmation := some c } }
  | register (a : Archive κ) (label : κ.Label) (publicKey : κ.Key) (details : κ.Witness)
      (h : a.Unnamed label publicKey) :
      Step a { a with witnesses := a.witnesses ++ [⟨label, publicKey, details, none⟩] }
  | retire (a : Archive κ) (j : ℕ) (r : κ.Retirement) :
      Step a { a with witnesses := a.witnesses.modify j fun x => { x with retirement := some (x.retirement.getD r) } }
  | attest (a : Archive κ) (witness head : ℕ) (statement : κ.Attestation) (hw : witness < a.witnesses.length)
      (hh : head < a.entries.length) :
      Step a { a with attestations := a.attestations ++ [⟨witness, head, statement⟩] }

abbrev Steps : Archive κ → Archive κ → Prop := Relation.ReflTransGen Step

/-- No two witnesses share a name, and what is filed names what is there. -/
structure WellFormed (a : Archive κ) : Prop where
  labels : (a.witnesses.map Registered.label).Nodup
  publicKeys : (a.witnesses.map Registered.publicKey).Nodup
  anchors : ∀ x ∈ a.anchors, x.head < a.entries.length
  attestations : ∀ x ∈ a.attestations, x.witness < a.witnesses.length ∧ x.head < a.entries.length

/-- The later archive holds the earlier one. -/
structure Continues (a a' : Archive κ) : Prop where
  entries : a.entries <+: a'.entries
  attestations : a.attestations <+: a'.attestations
  anchors : ∀ (j : ℕ) x, a.anchors[j]? = some x → ∃ x', a'.anchors[j]? = some x' ∧ x.Kept x'
  witnesses : ∀ (j : ℕ) x, a.witnesses[j]? = some x → ∃ x', a'.witnesses[j]? = some x' ∧ x.Kept x'

variable {a a' a'' : Archive κ}

theorem wellFormed_empty : (empty : Archive κ).WellFormed where
  labels := List.nodup_nil
  publicKeys := List.nodup_nil
  anchors _ h := absurd h List.not_mem_nil
  attestations _ h := absurd h List.not_mem_nil

theorem map_modify_of_eq {α β : Type} {f : α → β} {g : α → α} (hg : ∀ x, f (g x) = f x) (l : List α) (j : ℕ) :
    (l.modify j g).map f = l.map f := by
  refine List.ext_getElem? fun i => ?_
  rw [List.getElem?_map, List.getElem?_map, List.getElem?_modify]
  cases l[i]? with
  | none => split <;> rfl
  | some x =>
    split
    · exact congrArg some (hg x)
    · rfl

theorem mem_modify {α : Type} {g : α → α} {l : List α} {j : ℕ} {y : α} (h : y ∈ l.modify j g) :
    ∃ x ∈ l, y = x ∨ y = g x := by
  obtain ⟨i, hi⟩ := List.mem_iff_getElem?.mp h
  rw [List.getElem?_modify] at hi
  cases hx : l[i]? with
  | none =>
    rw [hx] at hi
    cases hi
  | some x =>
    rw [hx] at hi
    refine ⟨x, List.mem_of_getElem? hx, ?_⟩
    split at hi <;> cases hi
    · exact .inr rfl
    · exact .inl rfl

theorem Step.wellFormed (hs : Step a a') (h : a.WellFormed) : a'.WellFormed := by
  cases hs with
  | append e =>
    have hlt {k : ℕ} (hk : k < a.entries.length) : k < (a.entries ++ [e]).length := by
      rw [List.length_append]
      exact Nat.lt_add_right _ hk
    exact ⟨h.labels, h.publicKeys, fun x hx => hlt (h.anchors x hx),
      fun x hx => ⟨(h.attestations x hx).1, hlt (h.attestations x hx).2⟩⟩
  | anchor head proof hhead =>
    refine ⟨h.labels, h.publicKeys, fun x hx => ?_, h.attestations⟩
    rcases List.mem_append.mp hx with hx | hx
    · exact h.anchors x hx
    · rw [List.mem_singleton.mp hx]
      exact hhead
  | confirm j c =>
    refine ⟨h.labels, h.publicKeys, fun x hx => ?_, h.attestations⟩
    obtain ⟨y, hy, rfl | rfl⟩ := mem_modify hx
    · exact h.anchors _ hy
    · exact h.anchors y hy
  | register label publicKey details hnew =>
    refine ⟨?_, ?_, h.anchors, fun x hx => ⟨?_, (h.attestations x hx).2⟩⟩
    · rw [List.map_append, List.nodup_append]
      refine ⟨h.labels, List.nodup_singleton _, ?_⟩
      intro l hl l' hl' heq
      obtain ⟨x, hx, rfl⟩ := List.mem_map.mp hl
      exact (hnew x hx).1 (heq.trans (List.mem_singleton.mp hl'))
    · rw [List.map_append, List.nodup_append]
      refine ⟨h.publicKeys, List.nodup_singleton _, ?_⟩
      intro k hk k' hk' heq
      obtain ⟨x, hx, rfl⟩ := List.mem_map.mp hk
      exact (hnew x hx).2 (heq.trans (List.mem_singleton.mp hk'))
    · rw [List.length_append]
      exact Nat.lt_add_right _ (h.attestations x hx).1
  | retire j r =>
    refine ⟨?_, ?_, h.anchors, fun x hx => ⟨?_, (h.attestations x hx).2⟩⟩
    · rw [map_modify_of_eq]
      · exact h.labels
      · exact fun _ => rfl
    · rw [map_modify_of_eq]
      · exact h.publicKeys
      · exact fun _ => rfl
    · rw [List.length_modify]
      exact (h.attestations x hx).1
  | attest witness head statement hw hh =>
    refine ⟨h.labels, h.publicKeys, h.anchors, fun x hx => ?_⟩
    rcases List.mem_append.mp hx with hx | hx
    · exact h.attestations x hx
    · rw [List.mem_singleton.mp hx]
      exact ⟨hw, hh⟩

theorem Steps.wellFormed (hs : Steps a a') (h : a.WellFormed) : a'.WellFormed := by
  induction hs with
  | refl => exact h
  | tail _ hlast ih => exact hlast.wellFormed ih

theorem Continues.refl (a : Archive κ) : a.Continues a :=
  ⟨List.prefix_rfl, List.prefix_rfl, fun _ x hx => ⟨x, hx, .refl x⟩, fun _ x hx => ⟨x, hx, .refl x⟩⟩

theorem Continues.trans (h : a.Continues a') (h' : a'.Continues a'') : a.Continues a'' where
  entries := h.entries.trans h'.entries
  attestations := h.attestations.trans h'.attestations
  anchors j x hx := by
    obtain ⟨y, hy, hxy⟩ := h.anchors j x hx
    obtain ⟨z, hz, hyz⟩ := h'.anchors j y hy
    exact ⟨z, hz, hxy.trans hyz⟩
  witnesses j x hx := by
    obtain ⟨y, hy, hxy⟩ := h.witnesses j x hx
    obtain ⟨z, hz, hyz⟩ := h'.witnesses j y hy
    exact ⟨z, hz, hxy.trans hyz⟩

theorem getElem?_append_some {α : Type} {l m : List α} {j : ℕ} {x : α} (h : l[j]? = some x) : (l ++ m)[j]? = some x :=
  (List.getElem?_append_left (List.getElem?_eq_some_iff.mp h).1).trans h

theorem getElem?_modify_some {α : Type} {l : List α} {g : α → α} {i j : ℕ} {x : α} (h : l[j]? = some x) :
    (l.modify i g)[j]? = some (if i = j then g x else x) := by
  rw [List.getElem?_modify, h]
  split <;> rfl

theorem Step.continues (hs : Step a a') : a.Continues a' := by
  have hsame := Continues.refl a
  cases hs with
  | append e => exact { hsame with entries := List.prefix_append _ _ }
  | anchor head proof hhead => exact { hsame with anchors := fun j x hx => ⟨x, getElem?_append_some hx, .refl x⟩ }
  | confirm i c =>
    refine { hsame with anchors := fun j x hx => ⟨_, getElem?_modify_some hx, ?_⟩ }
    split
    · exact ⟨rfl, rfl, fun _ => rfl⟩
    · exact .refl x
  | register label publicKey details hnew =>
    exact { hsame with witnesses := fun j x hx => ⟨x, getElem?_append_some hx, .refl x⟩ }
  | retire i r =>
    refine { hsame with witnesses := fun j x hx => ⟨_, getElem?_modify_some hx, ?_⟩ }
    split
    · exact ⟨rfl, rfl, rfl, fun d hd => by rw [hd]; rfl⟩
    · exact .refl x
  | attest witness head statement hw hh => exact { hsame with attestations := List.prefix_append _ _ }

theorem Steps.continues (hs : Steps a a') : a.Continues a' := by
  induction hs with
  | refl => exact .refl a
  | tail _ hlast ih => exact ih.trans hlast.continues

end Archive
end NexusCone.AppendOnlyArchive
