import Mathlib.Data.List.Dedup
import Mathlib.Data.List.Induction
import Mathlib.Tactic.Common

/-!
# Accumulating records by key

A table of records, each with a key, receives a stream of data. A datum goes to the first record
with its key, which absorbs it; a datum whose key has no record yet opens a fresh one at the end of
the table.

`foldl_record` says what such a table is after any stream: one record for each key, in the order in
which the keys first occurred, and each record is the fold of exactly its own data. The records
therefore advance independently, however the keys were interleaved.

The invariant that carries it is that the keys of the table are distinct. Under it "the first record
with the key" is "the record with the key", a recording either appends or updates one record, and
the fold over the stream splits into one fold for each key.
-/

namespace Keyed

variable {κ δ σ : Type} [DecidableEq κ]

section

variable (key : δ → κ) (keyOf : σ → κ) (fresh : κ → σ) (absorb : σ → δ → σ)

/-- One datum arrives at the table. -/
def record : List σ → δ → List σ
  | [], d => [absorb (fresh (key d)) d]
  | r :: rs, d => if keyOf r = key d then absorb r d :: rs else r :: record rs d

/-- The record of one key: the fold of the data with that key. -/
def recordOf (ds : List δ) (k : κ) : σ := (ds.filter (key · = k)).foldl absorb (fresh k)

/-- The keys of a stream, in the order of their first occurrence. -/
def keys (ds : List δ) : List κ := (ds.map key).eraseDups

end

variable {key : δ → κ} {keyOf : σ → κ} {fresh : κ → σ} {absorb : σ → δ → σ}

theorem keys_append_singleton (ds : List δ) (d : δ) :
    keys key (ds ++ [d]) = if key d ∈ ds.map key then keys key ds else keys key ds ++ [key d] := by
  have hnew : [key d].removeAll (ds.map key) = if key d ∈ ds.map key then [] else [key d] := by
    rw [List.removeAll, List.filter_singleton, List.elem_eq_mem]
    by_cases h : key d ∈ ds.map key <;> simp only [h, decide_true, decide_false, Bool.not_true,
      Bool.not_false, cond_true, cond_false, if_true, if_false]
  rw [keys, List.map_append, List.eraseDups_append, ← keys, List.map_singleton, hnew]
  split <;> simp [List.eraseDups_cons]

theorem nodup_keys (ds : List δ) : (keys key ds).Nodup := by
  induction ds using List.reverseRecOn with
  | nil => simp [keys]
  | append_singleton ds d ih =>
    rw [keys_append_singleton]
    split
    · exact ih
    · next h =>
      refine List.nodup_append.mpr ⟨ih, List.nodup_singleton _, ?_⟩
      rintro a ha b hb rfl
      rw [List.mem_singleton] at hb
      subst hb
      exact h (by rw [keys, List.mem_eraseDups] at ha; exact ha)

section

variable (hfresh : ∀ k, keyOf (fresh k) = k) (habsorb : ∀ r d, keyOf (absorb r d) = keyOf r)

include hfresh habsorb in
theorem keyOf_recordOf (ds : List δ) (k : κ) : keyOf (recordOf key fresh absorb ds k) = k := by
  rw [recordOf]
  generalize ds.filter (key · = k) = own
  induction own using List.reverseRecOn with
  | nil => exact hfresh k
  | append_singleton own d ih => rw [List.foldl_append, List.foldl_cons, List.foldl_nil, habsorb, ih]

theorem recordOf_append_singleton (ds : List δ) (d : δ) (k : κ) :
    recordOf key fresh absorb (ds ++ [d]) k
      = if key d = k then absorb (recordOf key fresh absorb ds k) d
        else recordOf key fresh absorb ds k := by
  rw [recordOf, List.filter_append]
  by_cases h : key d = k
  · simp [h, recordOf]
  · simp [h, recordOf]

/-- Recording into a table without the key appends a record. -/
theorem record_of_not_mem {tbl : List σ} {d : δ} (h : key d ∉ tbl.map keyOf) :
    record key keyOf fresh absorb tbl d = tbl ++ [absorb (fresh (key d)) d] := by
  induction tbl with
  | nil => rfl
  | cons r rs ih =>
    rw [List.map_cons, List.mem_cons, not_or] at h
    rw [record, if_neg (Ne.symm h.1), ih h.2, List.cons_append]

/-- What fresh records have and absorbing keeps, every record of the table keeps. -/
theorem forall_mem_record {P : σ → Prop} {tbl : List σ} (h : ∀ r ∈ tbl, P r)
    (hfreshP : ∀ k, P (fresh k)) (habsorbP : ∀ r, P r → ∀ d, P (absorb r d)) (d : δ) :
    ∀ r ∈ record key keyOf fresh absorb tbl d, P r := by
  induction tbl with
  | nil =>
    intro r hr
    rw [record, List.mem_singleton] at hr
    rw [hr]
    exact habsorbP _ (hfreshP _) d
  | cons r rs ih =>
    have hrs : ∀ r' ∈ rs, P r' := fun r' hr' ↦ h r' (List.mem_cons_of_mem _ hr')
    rw [record]
    split
    · exact List.forall_mem_cons.mpr ⟨habsorbP r (h r List.mem_cons_self) d, hrs⟩
    · exact List.forall_mem_cons.mpr ⟨h r List.mem_cons_self, ih hrs⟩

/-- Recording into a table with the key updates the first record that has it. -/
theorem record_eq_set {tbl : List σ} {d : δ} {i : ℕ}
    (h : tbl.findIdx? (fun r ↦ decide (keyOf r = key d)) = some i) :
    ∃ r, tbl[i]? = some r ∧
      record key keyOf fresh absorb tbl d = tbl.set i (absorb r d) := by
  induction tbl generalizing i with
  | nil => simp at h
  | cons r rs ih =>
    rw [List.findIdx?_cons] at h
    by_cases hr : keyOf r = key d
    · rw [decide_eq_true hr, if_pos rfl, Option.some_inj] at h
      subst h
      exact ⟨r, rfl, by rw [record, if_pos hr, List.set_cons_zero]⟩
    · rw [decide_eq_false hr, if_neg (by simp), Option.map_eq_some_iff] at h
      obtain ⟨j, hj, rfl⟩ := h
      obtain ⟨r', hr', hrec⟩ := ih hj
      exact ⟨r', hr', by rw [record, if_neg hr, hrec, List.set_cons_succ]⟩

/-- Recording into a table whose keys are distinct updates exactly the record of the key. -/
theorem record_of_mem {tbl : List σ} {d : δ} (hnd : (tbl.map keyOf).Nodup)
    (h : key d ∈ tbl.map keyOf) :
    record key keyOf fresh absorb tbl d
      = tbl.map fun r ↦ if keyOf r = key d then absorb r d else r := by
  induction tbl with
  | nil => simp at h
  | cons r rs ih =>
    rw [List.map_cons, List.nodup_cons] at hnd
    rw [record, List.map_cons]
    by_cases hr : keyOf r = key d
    · rw [if_pos hr, if_pos hr]
      have hrest : ∀ r' ∈ rs, keyOf r' ≠ key d := fun r' hr' heq ↦
        hnd.1 (hr ▸ heq ▸ List.mem_map_of_mem hr')
      congr 1
      conv_lhs => rw [← List.map_id rs]
      exact List.map_congr_left fun r' hr' ↦ (if_neg (hrest r' hr')).symm
    · rw [if_neg hr, if_neg hr]
      rw [List.map_cons, List.mem_cons] at h
      rw [ih hnd.2 (h.resolve_left (Ne.symm hr))]

include hfresh habsorb in
theorem map_keyOf_recordOf (ds : List δ) (ks : List κ) :
    (ks.map (recordOf key fresh absorb ds)).map keyOf = ks := by
  rw [List.map_map]
  conv_rhs => rw [← List.map_id ks]
  exact List.map_congr_left fun k _ ↦ keyOf_recordOf hfresh habsorb ds k

include hfresh habsorb in
/-- **The table after a stream**: one independent record for each key, in order of first
occurrence. -/
theorem foldl_record (ds : List δ) :
    ds.foldl (record key keyOf fresh absorb) []
      = (keys key ds).map (recordOf key fresh absorb ds) := by
  have hkeys (ds : List δ) :
      ((keys key ds).map (recordOf key fresh absorb ds)).map keyOf = keys key ds :=
    map_keyOf_recordOf hfresh habsorb ds _
  induction ds using List.reverseRecOn with
  | nil => simp [keys]
  | append_singleton ds d ih =>
    rw [List.foldl_append, List.foldl_cons, List.foldl_nil, ih, keys_append_singleton]
    by_cases h : key d ∈ ds.map key
    · have hmem : key d ∈ keys key ds := by rwa [keys, List.mem_eraseDups]
      rw [if_pos h, record_of_mem (by rw [hkeys]; exact nodup_keys ds) (by rwa [hkeys]),
        List.map_map]
      refine List.map_congr_left fun k _ ↦ ?_
      rw [Function.comp_apply, keyOf_recordOf hfresh habsorb, recordOf_append_singleton]
      simp only [eq_comm]
    · have hmem : key d ∉ keys key ds := by rwa [keys, List.mem_eraseDups]
      have hnone : ds.filter (key · = key d) = [] := by
        rw [List.filter_eq_nil_iff]
        intro d' hd' heq
        exact h (of_decide_eq_true heq ▸ List.mem_map_of_mem hd')
      rw [if_neg h, record_of_not_mem (by rwa [hkeys]), List.map_append, List.map_singleton]
      congr 1
      · refine List.map_congr_left fun k hk ↦ ?_
        rw [recordOf_append_singleton, if_neg]
        rintro rfl
        exact hmem hk
      · rw [recordOf_append_singleton, if_pos rfl, recordOf, hnone, List.foldl_nil]

end

end Keyed
