import NexusCone.PyValue
import NexusCone.Sha256
import NexusCone.JsonKeyOrder

/-!
# Canonical JSON and its digest

`canonicalText` is the canonical text of a value with string keys; `canonicalJson` is the
function on Python values, which agrees with it there.
-/
namespace NexusCone.Canonical
open HexBytes Sha256 CodePoints JsonText JsonKeyOrder PyValue

def canonicalText (v : Json) : String := String.ofList (dumps (sortKeys v))

/-- JSON with keys sorted and no whitespace between separators. -/
def canonicalJson (payload : PyVal) : Except PyError String :=
  return String.ofList (dumps (← payload.sorted))

def utf8 (text : String) : Bytes := text.toUTF8.data.toList

/-- The SHA-256 hex digest of the UTF-8 encoding of a text. -/
def sha256Hex (text : String) : String := hex (sha256 (utf8 text))

/-- No two of these texts have the same digest. -/
def NoCollision (texts : String → Prop) : Prop :=
  ∀ a b, texts a → texts b → sha256Hex a = sha256Hex b → a = b

@[simp] theorem fromHex_sha256Hex (text : String) : fromHex (sha256Hex text) = some (sha256 (utf8 text)) :=
  fromHex_hex _

theorem utf8_injective {a b : String} (h : utf8 a = utf8 b) : a = b := by
  rw [← String.toByteArray_inj]
  exact ByteArray.ext (Array.toList_inj.mp h)

theorem utf8_ofList (cs : List Char) : utf8 (String.ofList cs) = cs.flatMap String.utf8EncodeChar := by
  unfold utf8
  rw [String.toUTF8_eq_toByteArray, String.toByteArray_ofList]
  simp [List.utf8Encode]

/-- ASCII text has a byte for each character. -/
theorem length_utf8_ofList {cs : List Char} (h : ∀ c ∈ cs, c.toNat < 128) :
    (utf8 (String.ofList cs)).length = cs.length := by
  rw [utf8_ofList]
  induction cs with
  | nil => rfl
  | cons c cs ih =>
    obtain ⟨hc, hcs⟩ := List.forall_mem_cons.mp h
    have hsize : c.utf8Size = 1 := by
      rw [Char.utf8Size_eq_one_iff]
      exact UInt32.le_iff_toNat_le.mpr (by show c.toNat ≤ 127; omega)
    rw [List.flatMap_cons, List.length_append, ih hcs, String.length_utf8EncodeChar, hsize, List.length_cons]
    omega

theorem length_utf8_sha256Hex (text : String) : (utf8 (sha256Hex text)).length = 64 := by
  unfold sha256Hex hex
  rw [length_utf8_ofList (hexChars_ascii _), length_hexChars, length_sha256]

theorem canonicalText_injective {u v : Json} (hu : Unpaired u) (hv : Unpaired v)
    (h : canonicalText u = canonicalText v) : sortKeys u = sortKeys v :=
  dumps_injective (unpaired_sortKeys.mpr hu) (unpaired_sortKeys.mpr hv) (String.ofList_injective h)

/-- What has been written as canonical JSON reads back. -/
theorem loads_canonicalJson {payload : PyVal} {text : String} (h : canonicalJson payload = .ok text) :
    ∃ v, loads text = some v := by
  unfold canonicalJson at h
  cases hs : payload.sorted with
  | error e => rw [hs] at h; cases h
  | ok v =>
    rw [hs] at h
    cases h
    exact ⟨mergeKeys (decoded v), loads_dumps v⟩

private theorem sortItems_str (kvs : List (PyStr × Json)) :
    sortItems (kvs.map fun p => (PyKey.str p.1, p.2)) =
      .ok ((kvs.insertionSort keyLe).map fun p => (PyKey.str p.1, p.2)) := by
  have hpw : (kvs.map fun p => (PyKey.str p.1, p.2)).Pairwise
      (fun p q => PyKey.comparable p.1 q.1 = true) := by
    rw [List.pairwise_map]
    exact List.pairwise_iff_getElem.mpr fun _ _ _ _ _ => rfl
  have hsort := List.map_insertionSort (r := keyLe) (s := fun p q : PyKey × Json => p.1.le q.1 = true)
    (fun p => (PyKey.str p.1, p.2)) kvs (by intro p _ q _; simp [keyLe, PyKey.le])
  rw [sortItems, if_pos hpw, hsort]

mutual
theorem sorted_ofJson : ∀ v : Json, (ofJson v).sorted = .ok (sortKeys v)
  | .null | .bool _ | .int _ | .float _ | .str _ => rfl
  | .arr xs => by
    simp only [ofJson, PyVal.sorted, sortedElements_ofElements xs, sortKeys]
    rfl
  | .obj kvs => by
    simp only [ofJson, PyVal.sorted, sortedMembers_ofMembers kvs, sortKeys]
    show (sortItems _ >>= _) = _
    rw [sortItems_str]
    show Except.ok _ = _
    simp [List.map_map, Function.comp_def, PyKey.text]

theorem sortedElements_ofElements : ∀ xs : List Json, sortedElements (ofElements xs) = .ok (sortElements xs)
  | [] => rfl
  | x :: xs => by
    simp only [ofElements, sortedElements, sorted_ofJson x, sortedElements_ofElements xs, sortElements]
    rfl

theorem sortedMembers_ofMembers : ∀ kvs : List (PyStr × Json),
    sortedMembers (ofMembers kvs) = .ok ((sortMembers kvs).map fun p => (PyKey.str p.1, p.2))
  | [] => rfl
  | (k, v) :: kvs => by
    simp only [ofMembers, sortedMembers, sorted_ofJson v, sortedMembers_ofMembers kvs, sortMembers]
    rfl
end

theorem canonicalJson_ofJson (v : Json) : canonicalJson (ofJson v) = .ok (canonicalText v) := by
  rw [canonicalJson, sorted_ofJson]
  rfl

end NexusCone.Canonical
