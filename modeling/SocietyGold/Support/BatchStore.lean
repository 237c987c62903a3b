import SocietyGold.Support.Checked
import SocietyGold.Support.Table

/-!
# A key-value store with one pending write batch

While a batch is open, writes and deletes are collected in it and succeed;
reads look into the batch first.  Committing applies the batch as a whole or,
when the physical write fails, not at all.  Without a batch each write goes to
the disk by itself and may fail.

The outcomes of the physical writes to come are a list of truth values; once it
is used up, physical writes succeed.
-/

namespace Support

universe u v

/-- A pending entry of a batch: a value to put, or `none` for a delete. -/
abbrev BatchEntry (K : Type u) (V : Type v) := K × Option V

structure BatchStore (K : Type u) (V : Type v) where
  disk : Table K V
  activeBatch : Option (List (BatchEntry K V))
  outcomes : List Bool

namespace BatchStore

variable {K : Type u} {V : Type v} [DecidableEq K]

/-! ## Batches -/

/-- Apply one batch entry. -/
def applyEntry (disk : Table K V) (entry : BatchEntry K V) : Table K V :=
  match entry.2 with
  | some v => disk.insert entry.1 v
  | none => disk.erase entry.1

/-- Apply a whole batch, in order. -/
def applyBatch (disk : Table K V) (batch : List (BatchEntry K V)) : Table K V :=
  batch.foldl applyEntry disk

/-- The last entry of a batch for a key, if there is one. -/
def scanBatch (batch : List (BatchEntry K V)) (k : K) : Option (Option V) :=
  batch.foldl (fun found entry => if entry.1 = k then some entry.2 else found) none

theorem scanBatch_append_singleton
    (batch : List (BatchEntry K V)) (k k' : K) (v : Option V) :
    scanBatch (batch ++ [(k, v)]) k' =
      if k' = k then some v else scanBatch batch k' := by
  simp only [scanBatch, List.foldl_append, List.foldl_cons, List.foldl_nil, eq_comm]

theorem lookup_applyEntry (disk : Table K V) (entry : BatchEntry K V) (k : K) :
    (applyEntry disk entry).lookup k =
      if k = entry.1 then entry.2 else disk.lookup k := by
  obtain ⟨k', v⟩ := entry
  cases v with
  | none => simp [applyEntry, Table.lookup_erase_ite]
  | some v => simp [applyEntry, Table.lookup_insert_ite]

/-- Applying a batch installs exactly the last entry of each key. -/
theorem lookup_applyBatch (disk : Table K V) (batch : List (BatchEntry K V)) (k : K) :
    (applyBatch disk batch).lookup k =
      match scanBatch batch k with
      | some v => v
      | none => disk.lookup k := by
  induction batch using List.reverseRecOn with
  | nil => simp [applyBatch, scanBatch]
  | append_singleton batch entry ih =>
      obtain ⟨k', v⟩ := entry
      rw [scanBatch_append_singleton]
      have hApply : applyBatch disk (batch ++ [(k', v)]) =
          applyEntry (applyBatch disk batch) (k', v) := by
        simp [applyBatch]
      rw [hApply, lookup_applyEntry, ih]
      by_cases h : k = k'
      · simp [h]
      · simp [h]

/-! ## Operations -/

/-- The outcome of the next physical write. -/
def physical (st : BatchStore K V) : Bool × BatchStore K V :=
  match st.outcomes with
  | [] => (true, st)
  | b :: bs => (b, { st with outcomes := bs })

/-- The value a read delivers: the batch first, then the disk. -/
def read (st : BatchStore K V) (k : K) : Option V :=
  match st.activeBatch with
  | none => st.disk.lookup k
  | some batch =>
      match scanBatch batch k with
      | some v => v
      | none => st.disk.lookup k

/-- Put a value, or delete the key: into the batch if one is open. -/
def update (st : BatchStore K V) (k : K) (v : Option V) : Bool × BatchStore K V :=
  match st.activeBatch with
  | some batch => (true, { st with activeBatch := some (batch ++ [(k, v)]) })
  | none =>
      let (done, st) := st.physical
      if done then (true, { st with disk := applyEntry st.disk (k, v) })
      else (false, st)

def write (st : BatchStore K V) (k : K) (v : V) : Bool × BatchStore K V :=
  st.update k (some v)

def erase (st : BatchStore K V) (k : K) : Bool × BatchStore K V :=
  st.update k none

def txnBegin (st : BatchStore K V) : Checked (BatchStore K V) :=
  match st.activeBatch with
  | some _ => .error .assertionFailed
  | none => .ok { st with activeBatch := some [] }

def txnCommit (st : BatchStore K V) : Checked (Bool × BatchStore K V) :=
  match st.activeBatch with
  | none => .error .assertionFailed
  | some batch =>
      let (done, st) := st.physical
      let disk := if done then applyBatch st.disk batch else st.disk
      .ok (done, { st with disk := disk, activeBatch := none })

def txnAbort (st : BatchStore K V) : BatchStore K V :=
  { st with activeBatch := none }

/-- A batch is open. -/
def InBatch (st : BatchStore K V) : Prop := st.activeBatch.isSome = true

instance (st : BatchStore K V) : Decidable st.InBatch :=
  inferInstanceAs (Decidable (_ = _))

/-- Will the next physical write succeed? -/
def nextWriteOk (st : BatchStore K V) : Bool := st.outcomes.headD true

/-- Will the physical write after the next one succeed? -/
def secondWriteOk (st : BatchStore K V) : Bool := st.outcomes.tail.headD true

/-! ## What an update does -/

omit [DecidableEq K] in
@[simp] theorem physical_disk (st : BatchStore K V) :
    st.physical.2.disk = st.disk := by
  unfold physical
  cases st.outcomes <;> rfl

omit [DecidableEq K] in
@[simp] theorem physical_activeBatch (st : BatchStore K V) :
    st.physical.2.activeBatch = st.activeBatch := by
  unfold physical
  cases st.outcomes <;> rfl

omit [DecidableEq K] in
theorem physical_fst (st : BatchStore K V) : st.physical.1 = st.nextWriteOk := by
  unfold physical nextWriteOk
  cases st.outcomes <;> rfl

omit [DecidableEq K] in
@[simp] theorem physical_outcomes (st : BatchStore K V) :
    st.physical.2.outcomes = st.outcomes.tail := by
  unfold physical
  cases hOutcomes : st.outcomes <;> simp [hOutcomes]

theorem update_of_inBatch {st : BatchStore K V} (h : st.InBatch) (k : K) (v : Option V) :
    (st.update k v).1 = true := by
  unfold InBatch at h
  obtain ⟨batch, hBatch⟩ := Option.isSome_iff_exists.mp h
  simp [update, hBatch]

@[simp] theorem inBatch_update (st : BatchStore K V) (k : K) (v : Option V) :
    (st.update k v).2.InBatch ↔ st.InBatch := by
  unfold InBatch update
  cases hBatch : st.activeBatch with
  | some batch => simp
  | none => cases hDone : st.physical.1 <;> simp [hDone, hBatch]

theorem disk_update_of_inBatch
    {st : BatchStore K V} (h : st.InBatch) (k : K) (v : Option V) :
    (st.update k v).2.disk = st.disk := by
  unfold InBatch at h
  obtain ⟨batch, hBatch⟩ := Option.isSome_iff_exists.mp h
  simp [update, hBatch]

theorem outcomes_update_of_inBatch
    {st : BatchStore K V} (h : st.InBatch) (k : K) (v : Option V) :
    (st.update k v).2.outcomes = st.outcomes := by
  unfold InBatch at h
  obtain ⟨batch, hBatch⟩ := Option.isSome_iff_exists.mp h
  simp [update, hBatch]

/-- A successful update is what later reads see, and nothing else changes. -/
theorem read_update
    {st : BatchStore K V} {k : K} {v : Option V}
    (h : (st.update k v).1 = true) (k' : K) :
    (st.update k v).2.read k' = if k' = k then v else st.read k' := by
  unfold update at h ⊢
  unfold read
  cases hBatch : st.activeBatch with
  | some batch =>
      simp only [scanBatch_append_singleton]
      by_cases hk : k' = k
      · simp [hk]
      · simp [hk]
  | none =>
      cases hDone : st.physical.1 with
      | false => simp [hBatch, hDone] at h
      | true => simp [hDone, hBatch, lookup_applyEntry]

/-- A failed update leaves every read as it was. -/
theorem read_update_of_failed
    {st : BatchStore K V} {k : K} {v : Option V}
    (h : (st.update k v).1 = false) (k' : K) :
    (st.update k v).2.read k' = st.read k' := by
  unfold update at h ⊢
  unfold read
  cases hBatch : st.activeBatch with
  | some batch => simp [hBatch] at h
  | none =>
      cases hDone : st.physical.1 with
      | false => simp [hDone, hBatch]
      | true => simp [hBatch, hDone] at h

/-- An update leaves the other keys alone, whether it succeeds or not. -/
theorem read_update_of_ne
    (st : BatchStore K V) {k k' : K} (v : Option V) (hk : k' ≠ k) :
    (st.update k v).2.read k' = st.read k' := by
  cases h : (st.update k v).1 with
  | true => simp [read_update h, hk]
  | false => exact read_update_of_failed h k'

/-! ## Transactions -/

omit [DecidableEq K] in
theorem txnBegin_eq_ok {st st' : BatchStore K V} :
    st.txnBegin = .ok st' ↔
      st.activeBatch = none ∧ st' = { st with activeBatch := some [] } := by
  unfold txnBegin
  cases st.activeBatch with
  | none => simp [eq_comm]
  | some batch => simp

theorem read_txnBegin
    {st st' : BatchStore K V} (h : st.txnBegin = .ok st') (k : K) :
    st'.read k = st.read k := by
  obtain ⟨hNone, rfl⟩ := txnBegin_eq_ok.mp h
  simp [read, hNone, scanBatch]

omit [DecidableEq K] in
theorem inBatch_txnBegin
    {st st' : BatchStore K V} (h : st.txnBegin = .ok st') : st'.InBatch := by
  obtain ⟨-, rfl⟩ := txnBegin_eq_ok.mp h
  rfl

/-- A commit succeeds or fails with the physical write. -/
theorem txnCommit_result
    {st st' : BatchStore K V} {done : Bool} (h : st.txnCommit = .ok (done, st')) :
    done = st.nextWriteOk := by
  unfold txnCommit at h
  cases hBatch : st.activeBatch with
  | none => simp [hBatch] at h
  | some batch =>
      simp only [hBatch, Except.ok.injEq, Prod.mk.injEq] at h
      rw [← h.1, physical_fst]

theorem txnCommit_isOk {st : BatchStore K V} (h : st.InBatch) :
    ∃ out, st.txnCommit = .ok out := by
  unfold InBatch at h
  obtain ⟨batch, hBatch⟩ := Option.isSome_iff_exists.mp h
  simp [txnCommit, hBatch]

theorem txnCommit_activeBatch
    {st st' : BatchStore K V} {done : Bool} (h : st.txnCommit = .ok (done, st')) :
    st'.activeBatch = none := by
  unfold txnCommit at h
  cases hBatch : st.activeBatch with
  | none => simp [hBatch] at h
  | some batch =>
      simp only [hBatch, Except.ok.injEq, Prod.mk.injEq] at h
      rw [← h.2]

/-- A commit is one physical write. -/
theorem txnCommit_outcomes
    {st st' : BatchStore K V} {done : Bool} (h : st.txnCommit = .ok (done, st')) :
    st'.outcomes = st.outcomes.tail := by
  unfold txnCommit at h
  cases hBatch : st.activeBatch with
  | none => simp [hBatch] at h
  | some batch =>
      simp only [hBatch, Except.ok.injEq, Prod.mk.injEq] at h
      rw [← h.2]
      exact physical_outcomes st

/-- After a successful commit the disk holds what the reads inside the batch
delivered. -/
theorem read_txnCommit
    {st st' : BatchStore K V} (h : st.txnCommit = .ok (true, st')) (k : K) :
    st'.read k = st.read k := by
  unfold txnCommit at h
  cases hBatch : st.activeBatch with
  | none => simp [hBatch] at h
  | some batch =>
      simp only [hBatch, Except.ok.injEq, Prod.mk.injEq] at h
      obtain ⟨hDone, rfl⟩ := h
      simp [read, hBatch, hDone, lookup_applyBatch]

/-- A failed commit drops the batch: the disk is as it was. -/
theorem disk_txnCommit_of_failed
    {st st' : BatchStore K V} (h : st.txnCommit = .ok (false, st')) :
    st'.disk = st.disk := by
  unfold txnCommit at h
  cases hBatch : st.activeBatch with
  | none => simp [hBatch] at h
  | some batch =>
      simp only [hBatch, Except.ok.injEq, Prod.mk.injEq] at h
      obtain ⟨hDone, rfl⟩ := h
      simp [hDone]

@[simp] theorem read_of_not_inBatch {st : BatchStore K V} (h : st.activeBatch = none) (k : K) :
    st.read k = st.disk.lookup k := by
  simp [read, h]

/-! ## The contents the open batch stands for -/

/-- The disk with the open batch applied to it. -/
def contents (st : BatchStore K V) : Table K V :=
  match st.activeBatch with
  | none => st.disk
  | some batch => applyBatch st.disk batch

theorem lookup_contents (st : BatchStore K V) (k : K) : st.contents.lookup k = st.read k := by
  unfold contents read
  cases st.activeBatch with
  | none => rfl
  | some batch => exact lookup_applyBatch st.disk batch k

/-- Inside a batch an update acts on the contents as it would on the disk itself. -/
theorem contents_update_of_inBatch
    {st : BatchStore K V} (h : st.InBatch) (k : K) (v : Option V) :
    (st.update k v).2.contents = applyEntry st.contents (k, v) := by
  unfold InBatch at h
  obtain ⟨batch, hBatch⟩ := Option.isSome_iff_exists.mp h
  simp [contents, update, hBatch, applyBatch]

theorem contents_txnBegin
    {st st' : BatchStore K V} (h : st.txnBegin = .ok st') : st'.contents = st.disk := by
  obtain ⟨-, rfl⟩ := txnBegin_eq_ok.mp h
  rfl

/-- A successful commit leaves the contents on the disk. -/
theorem disk_txnCommit
    {st st' : BatchStore K V} (h : st.txnCommit = .ok (true, st')) :
    st'.disk = st.contents := by
  unfold txnCommit at h
  cases hBatch : st.activeBatch with
  | none => simp [hBatch] at h
  | some batch =>
      simp only [hBatch, Except.ok.injEq, Prod.mk.injEq] at h
      obtain ⟨hDone, rfl⟩ := h
      simp [contents, hBatch, hDone]

/-! ## Staged stores -/

/-- A store whose batch lies over the disk of another one, with the same physical
writes to come. -/
structure StagedFrom (base st : BatchStore K V) : Prop where
  inBatch : st.InBatch
  disk_eq : st.disk = base.disk
  outcomes_eq : st.outcomes = base.outcomes

section Staged

variable {base st : BatchStore K V}

omit [DecidableEq K] in
theorem StagedFrom.refl (h : st.InBatch) : st.StagedFrom st := ⟨h, rfl, rfl⟩

omit [DecidableEq K] in
theorem stagedFrom_txnBegin {st' : BatchStore K V} (h : st.txnBegin = .ok st') :
    StagedFrom st st' := by
  obtain ⟨-, rfl⟩ := txnBegin_eq_ok.mp h
  exact ⟨rfl, rfl, rfl⟩

theorem StagedFrom.update (h : StagedFrom base st) (k : K) (v : Option V) :
    StagedFrom base (st.update k v).2 where
  inBatch := (inBatch_update st k v).mpr h.inBatch
  disk_eq := (disk_update_of_inBatch h.inBatch k v).trans h.disk_eq
  outcomes_eq := (outcomes_update_of_inBatch h.inBatch k v).trans h.outcomes_eq

omit [DecidableEq K] in
theorem StagedFrom.nextWriteOk_eq (h : StagedFrom base st) :
    st.nextWriteOk = base.nextWriteOk := by
  simp [nextWriteOk, h.outcomes_eq]

/-- The commit of a staged store succeeds or fails with the next physical write of
its base; a failed one leaves the disk of the base. -/
theorem StagedFrom.commit (h : StagedFrom base st) :
    ∃ st', st.txnCommit = .ok (base.nextWriteOk, st') ∧
      st'.nextWriteOk = base.secondWriteOk ∧
      (base.nextWriteOk = false → st'.disk = base.disk) := by
  obtain ⟨⟨done, st'⟩, hCommit⟩ := txnCommit_isOk h.inBatch
  have hDone : done = base.nextWriteOk := (txnCommit_result hCommit).trans h.nextWriteOk_eq
  subst hDone
  have hOutcomes : st'.outcomes = base.outcomes.tail :=
    (txnCommit_outcomes hCommit).trans (by rw [h.outcomes_eq])
  refine ⟨st', hCommit, by simp [nextWriteOk, secondWriteOk, hOutcomes], fun hFailed => ?_⟩
  rw [hFailed] at hCommit
  exact (disk_txnCommit_of_failed hCommit).trans h.disk_eq

end Staged

end BatchStore

end Support
