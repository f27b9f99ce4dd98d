import NexusCone.WitnessChain

/-!
# The cursor over the attestations

`async for` awaits a fetch of at most 64 rows at a time, and other tasks of the ledger write to the
same connection between two fetches. Every row that the table had when the query started is handed
over; SQLite leaves open whether a row inserted since is. The rows come in the order of the query,
and of each witness the first ones: a new row has the greatest key, and so comes after those of its
witness.
-/
namespace NexusCone.WitnessCursor
open HashChain KeyedTable LedgerSchema EntryChain WitnessChain

/-- The fetches to come, each in the table of its moment; the last one finds no row. -/
inductive Scan where
  | last
  | fetch (rows : Table AttestationRow → List AttestationRow) (rest : Table AttestationRow → Scan)

/-- The rows that fetches in these tables hand over. -/
def Scan.handed : Scan → List (Table AttestationRow) → List AttestationRow
  | .last, _ => []
  | .fetch _ _, [] => []
  | .fetch rows rest, now :: later => rows now ++ (rest now).handed later

/-- Fetches in these tables come to the end of the scan. -/
def Scan.Exhausts : Scan → List (Table AttestationRow) → Prop
  | .last, nows => nows.length = 1
  | .fetch rows rest, now :: later => if rows now = [] then later = [] else (rest now).Exhausts later
  | .fetch _ _, [] => False

/-- Of each witness the first rows. -/
def Firsts (handed rows : List AttestationRow) : Prop := ∀ w, ofWitness w handed <+: ofWitness w rows

/-- A fetch after the rows handed over before. -/
structure Fetched (now : Table AttestationRow) (before rows : List AttestationRow) : Prop where
  length_le : rows.length ≤ 64
  sorted : (before ++ rows).Pairwise byWitness
  firsts : Firsts (before ++ rows) now.rows

/-- The scan that started in the table hands over all of its rows, whatever is inserted meanwhile. -/
def Scan.HandsOver (opened : Table AttestationRow) : Table AttestationRow → List AttestationRow → Scan → Prop
  | _, before, .last => opened.rows ⊆ before
  | seen, before, .fetch rows rest => ∀ now : Table AttestationRow, seen.rows <+: now.rows →
      Fetched now before (rows now) ∧ (rows now = [] → opened.rows ⊆ before) ∧
        (rest now).HandsOver opened now (before ++ rows now)

structure Cursor where
  scan : Table AttestationRow → Scan
  handsOver : ∀ opened, (scan opened).HandsOver opened opened []

section Handed

variable {before rows rows' : List AttestationRow} {t : Table AttestationRow}

theorem mem_ofWitness {w : ℤ} {a : AttestationRow} : a ∈ ofWitness w rows ↔ a ∈ rows ∧ a.witnessId = w := by
  simp [ofWitness]

theorem firsts_nil (rows : List AttestationRow) : Firsts [] rows := fun _ => List.nil_prefix

theorem Firsts.subset (h : Firsts before rows) : before ⊆ rows := by
  intro a ha
  have hmem : a ∈ ofWitness a.witnessId before := mem_ofWitness.mpr ⟨ha, rfl⟩
  exact (mem_ofWitness.mp ((h a.witnessId).subset hmem)).1

theorem Firsts.trans_prefix (h : Firsts before rows) (hrows : rows <+: rows') : Firsts before rows' :=
  fun w => (h w).trans (hrows.filter _)

theorem nodup_rows (t : Table AttestationRow) : t.rows.Nodup :=
  t.sorted.imp fun hlt heq => absurd (congrArg key heq) (ne_of_lt hlt)

theorem Firsts.nodup (h : Firsts before t.rows) : before.Nodup := by
  refine List.nodup_iff_count_le_one.mpr fun a => ?_
  have hcount : before.count a = (ofWitness a.witnessId before).count a :=
    (List.count_filter (by simp)).symm
  rw [hcount]
  exact List.nodup_iff_count_le_one.mp ((List.Nodup.filter _ (nodup_rows t)).sublist (h _).sublist) a

theorem Firsts.length_le (h : Firsts before t.rows) : before.length ≤ t.rows.length :=
  (h.nodup.subperm h.subset).length_le

/-- All the rows of a table, of each witness the first ones, in the order of the query. -/
theorem eq_insertionSort (hfirsts : Firsts before t.rows) (hsorted : before.Pairwise byWitness)
    (hall : t.rows ⊆ before) : before = t.rows.insertionSort byWitness := by
  have hperm : before.Perm (t.rows.insertionSort byWitness) :=
    ((List.perm_ext_iff_of_nodup hfirsts.nodup (nodup_rows t)).mpr
      fun a => ⟨fun h => hfirsts.subset h, fun h => hall h⟩).trans (List.perm_insertionSort _ _).symm
  refine hperm.eq_of_pairwise ?_ hsorted (List.pairwise_insertionSort _ _)
  intro a b ha hb hab hba
  refine t.key_injOn (hfirsts.subset ha) ((List.mem_insertionSort _).mp hb) ?_
  show a.attestationId = b.attestationId
  unfold byWitness at hab hba
  omega

end Handed

section Growing

variable {opened seen : Table AttestationRow} {before : List AttestationRow} {scan : Scan}
variable {nows : List (Table AttestationRow)}

@[simp] theorem handed_nil (scan : Scan) : scan.handed [] = [] := by
  cases scan <;> rfl

/-- No row is inserted out of order. -/
def Grow (t t' : Table AttestationRow) : Prop := t.rows <+: t'.rows

/-- Over a growing table the fetches hand over the first rows of each witness. -/
theorem Scan.HandsOver.firsts (h : scan.HandsOver opened seen before) (hgrow : List.IsChain Grow (seen :: nows))
    (hbefore : Firsts before seen.rows) : ∃ t ∈ seen :: nows, Firsts (before ++ scan.handed nows) t.rows := by
  induction scan generalizing seen before nows with
  | last => exact ⟨seen, List.mem_cons_self, by rw [Scan.handed, List.append_nil]; exact hbefore⟩
  | fetch rows rest ih =>
    cases nows with
    | nil => exact ⟨seen, List.mem_cons_self, by rw [handed_nil, List.append_nil]; exact hbefore⟩
    | cons now later =>
      obtain ⟨hnow, hlater⟩ := List.isChain_cons_cons.mp hgrow
      obtain ⟨hfetched, -, hrest⟩ := h now hnow
      obtain ⟨t, ht, hfirsts⟩ := ih now hrest hlater hfetched.firsts
      rw [List.append_assoc] at hfirsts
      exact ⟨t, List.mem_cons_of_mem _ ht, hfirsts⟩

/-- In the end all the rows of the start have been handed over. -/
theorem Scan.HandsOver.subset (h : scan.HandsOver opened seen before) (hgrow : List.IsChain Grow (seen :: nows))
    (hend : scan.Exhausts nows) : opened.rows ⊆ before ++ scan.handed nows := by
  induction scan generalizing seen before nows with
  | last => exact List.Subset.trans h (List.subset_append_left _ _)
  | fetch rows rest ih =>
    cases nows with
    | nil => exact hend.elim
    | cons now later =>
      obtain ⟨hnow, hlater⟩ := List.isChain_cons_cons.mp hgrow
      obtain ⟨-, hnone, hrest⟩ := h now hnow
      by_cases hrows : rows now = []
      · exact List.Subset.trans (hnone hrows) (List.subset_append_left _ _)
      · rw [Scan.Exhausts, if_neg hrows] at hend
        have hsub := ih now hrest hlater hend
        rwa [List.append_assoc] at hsub

end Growing

section Sorted

/-- The rows in fetches of 64; `n` is as large as their number. -/
def chunksOf : ℕ → List AttestationRow → Scan
  | 0, _ => .last
  | n + 1, rows => .fetch (fun _ => rows.take 64) (fun _ => chunksOf n (rows.drop 64))

variable {opened t seen : Table AttestationRow} {before rows : List AttestationRow} {n : ℕ}

theorem fetched_of_sorted (ht : t.rows <+: seen.rows) (hrows : before ++ rows = t.rows.insertionSort byWitness) :
    Fetched seen before (rows.take 64) := by
  have hprefix : before ++ rows.take 64 <+: t.rows.insertionSort byWitness := by
    rw [← hrows]
    exact (List.prefix_append_right_inj before).mpr (List.take_prefix 64 rows)
  have hfirsts : Firsts (before ++ rows.take 64) t.rows := by
    intro w
    rw [← ofWitness_insertionSort t w]
    exact hprefix.filter _
  exact ⟨List.length_take_le 64 rows, (List.pairwise_insertionSort byWitness t.rows).sublist hprefix.sublist,
    hfirsts.trans_prefix ht⟩

theorem subset_of_sorted (ho : opened.rows ⊆ t.rows) (hrows : before ++ rows = t.rows.insertionSort byWitness)
    (hnone : rows.take 64 = []) : opened.rows ⊆ before := by
  have hnil : rows = [] := (List.take_eq_nil_iff.mp hnone).resolve_left (by decide)
  rw [hnil, List.append_nil] at hrows
  intro a ha
  rw [hrows]
  exact (List.mem_insertionSort _).mpr (ho ha)

theorem handsOver_chunksOf (ho : opened.rows ⊆ t.rows) (ht : t.rows <+: seen.rows)
    (hrows : before ++ rows = t.rows.insertionSort byWitness) (hn : rows.length ≤ n) :
    (chunksOf n rows).HandsOver opened seen before := by
  induction n generalizing seen before rows with
  | zero => exact subset_of_sorted ho hrows (by rw [List.length_eq_zero_iff.mp (Nat.le_zero.mp hn), List.take_nil])
  | succ n ih =>
    intro now hnow
    refine ⟨fetched_of_sorted (ht.trans hnow) hrows, subset_of_sorted ho hrows, ih (ht.trans hnow) ?_ ?_⟩
    · rw [List.append_assoc, List.take_append_drop]
      exact hrows
    · rw [List.length_drop]
      omega

/-- The query sorts all the rows when it starts. -/
def Cursor.sortedAtOpening : Cursor :=
  ⟨fun opened => chunksOf opened.rows.length (opened.rows.insertionSort byWitness), fun _ =>
    handsOver_chunksOf (List.Subset.refl _) List.prefix_rfl rfl (List.length_insertionSort _ _).le⟩

/-- The query sorts the rows that the first fetch finds. -/
def Cursor.sortedAtFetch : Cursor :=
  ⟨fun _ => .fetch (fun now => (now.rows.insertionSort byWitness).take 64) fun now =>
      chunksOf now.rows.length ((now.rows.insertionSort byWitness).drop 64), fun _ now hnow =>
    handsOver_chunksOf (n := now.rows.length + 1) hnow.subset List.prefix_rfl rfl
      ((List.length_insertionSort _ _).le.trans (Nat.le_succ _)) now List.prefix_rfl⟩

end Sorted
end NexusCone.WitnessCursor
