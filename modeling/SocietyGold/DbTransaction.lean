import SocietyGold.TxDb

/-!
# What a database transaction reads

Between `TxnBegin` and `TxnCommit` or `TxnAbort` every lookup replays the open
batch before it goes to the disk.  `Read` resolves a key to its last pending
operation.  `Exists` does so only for a pending put: for a pending delete it asks
the disk, which still holds the record.
-/

namespace SocietyGold

open Support

/-! ## The calls of a transaction -/

namespace CTxDB

/-- `CTxDB::Exists`. -/
def existsKey (txdb : CTxDB) (key : DbKey) : Bool :=
  match txdb.activeBatch with
  | none => (txdb.disk.lookup key).isSome
  | some batch =>
      match BatchStore.scanBatch batch key with
      | some (some _) => true
      | _ => (txdb.disk.lookup key).isSome

end CTxDB

inductive DbCall
  | write (key : DbKey) (value : DbValue)
  | erase (key : DbKey)
  | read (key : DbKey)
  | existsKey (key : DbKey)
  deriving DecidableEq, Repr

inductive DbAnswer
  | done (ok : Bool)
  | value (found : Option DbValue)
  | found (present : Bool)
  deriving DecidableEq, Repr

def CTxDB.call (txdb : CTxDB) : DbCall → DbAnswer × CTxDB
  | .write key value => (.done (txdb.write key value).1, (txdb.write key value).2)
  | .erase key => (.done (BatchStore.erase txdb key).1, (BatchStore.erase txdb key).2)
  | .read key => (.value (txdb.read key), txdb)
  | .existsKey key => (.found (txdb.existsKey key), txdb)

/-- The answers to a sequence of calls, and the database after them. -/
def CTxDB.runCalls (txdb : CTxDB) : List DbCall → List DbAnswer × CTxDB
  | [] => ([], txdb)
  | call :: calls =>
      let rest := CTxDB.runCalls (txdb.call call).2 calls
      ((txdb.call call).1 :: rest.1, rest.2)

/-! ## The same calls on a map -/

def callOnMap (content : Table DbKey DbValue) : DbCall → DbAnswer × Table DbKey DbValue
  | .write key value => (.done true, content.insert key value)
  | .erase key => (.done true, content.erase key)
  | .read key => (.value (content.lookup key), content)
  | .existsKey key => (.found (content.lookup key).isSome, content)

def runOnMap (content : Table DbKey DbValue) :
    List DbCall → List DbAnswer × Table DbKey DbValue
  | [] => ([], content)
  | call :: calls =>
      let rest := runOnMap (callOnMap content call).2 calls
      ((callOnMap content call).1 :: rest.1, rest.2)

/-- A transaction with these calls reads its own writes: the answers are those of
the map the calls are applied to, a commit that reaches the disk leaves that map
there, and an abort leaves the disk as it was. -/
def ReadsOwnWrites (txdb : CTxDB) (calls : List DbCall) : Prop :=
  ∃ opened : CTxDB, BatchStore.txnBegin txdb = .ok opened ∧
    (opened.runCalls calls).1 = (runOnMap txdb.disk calls).1 ∧
    (txdb.nextWriteOk = true →
      ∃ closed, BatchStore.txnCommit (opened.runCalls calls).2 = .ok (true, closed) ∧
        closed.activeBatch = none ∧ closed.disk = (runOnMap txdb.disk calls).2) ∧
    (BatchStore.txnAbort (opened.runCalls calls).2).activeBatch = none ∧
    (BatchStore.txnAbort (opened.runCalls calls).2).disk = txdb.disk

/-- The last write or erase of the key among the calls is an erase. -/
def erasedLast (calls : List DbCall) (key : DbKey) : Bool :=
  calls.foldl
    (fun erased call =>
      match call with
      | .write k _ => if k = key then false else erased
      | .erase k => if k = key then true else erased
      | _ => erased)
    false

/-! ## The batch after some calls -/

/-- The batch entry a call adds. -/
def DbCall.pending : DbCall → Option (BatchEntry DbKey DbValue)
  | .write key value => some (key, some value)
  | .erase key => some (key, none)
  | .read _ => none
  | .existsKey _ => none

/-- The batch entries the calls add. -/
def pendingEntries (calls : List DbCall) : List (BatchEntry DbKey DbValue) :=
  calls.filterMap DbCall.pending

theorem pendingEntries_append (before after : List DbCall) :
    pendingEntries (before ++ after) = pendingEntries before ++ pendingEntries after :=
  List.filterMap_append

theorem erasedLast_append_singleton (calls : List DbCall) (call : DbCall) (key : DbKey) :
    erasedLast (calls ++ [call]) key =
      (match call.pending with
      | some (k, v) => if k = key then v.isNone else erasedLast calls key
      | none => erasedLast calls key) := by
  cases call <;> simp [erasedLast, DbCall.pending]

theorem erasedLast_iff (calls : List DbCall) (key : DbKey) :
    erasedLast calls key = true ↔
      BatchStore.scanBatch (pendingEntries calls) key = some none := by
  induction calls using List.reverseRecOn with
  | nil => simp [erasedLast, pendingEntries, BatchStore.scanBatch]
  | append_singleton calls call ih =>
      rw [erasedLast_append_singleton, pendingEntries_append]
      cases hCall : call.pending with
      | none => simpa [pendingEntries, hCall] using ih
      | some entry =>
          obtain ⟨k, v⟩ := entry
          have hEntries : pendingEntries [call] = [(k, v)] := by
            simp [pendingEntries, hCall]
          rw [hEntries, BatchStore.scanBatch_append_singleton]
          by_cases hk : k = key
          · simp [hk]
          · simpa [hk, Ne.symm hk] using ih

/-! ## One call inside a batch -/

section InBatch

variable {txdb : CTxDB} {batch : List (BatchEntry DbKey DbValue)}

/-- A call only adds its entry to the batch. -/
theorem call_txdb_eq (h : txdb.activeBatch = some batch) (call : DbCall) :
    (txdb.call call).2 = { txdb with activeBatch := some (batch ++ pendingEntries [call]) } := by
  cases call with
  | write key value =>
      simp [CTxDB.call, BatchStore.write, BatchStore.update, h, pendingEntries, DbCall.pending]
  | erase key =>
      simp [CTxDB.call, BatchStore.erase, BatchStore.update, h, pendingEntries, DbCall.pending]
  | read key =>
      have hNone : pendingEntries [.read key] = [] := rfl
      rw [hNone, List.append_nil, ← h]
      rfl
  | existsKey key =>
      have hNone : pendingEntries [.existsKey key] = [] := rfl
      rw [hNone, List.append_nil, ← h]
      rfl

theorem call_contents (h : txdb.activeBatch = some batch) (call : DbCall) :
    BatchStore.contents (txdb.call call).2 = (callOnMap txdb.contents call).2 := by
  have hIn : BatchStore.InBatch txdb := by simp [BatchStore.InBatch, h]
  cases call with
  | write key value => exact BatchStore.contents_update_of_inBatch hIn key (some value)
  | erase key => exact BatchStore.contents_update_of_inBatch hIn key none
  | read key => rfl
  | existsKey key => rfl

/-- `Exists` is wrong exactly for a record of the disk that the batch deletes. -/
theorem existsKey_eq_iff (h : txdb.activeBatch = some batch) (key : DbKey) :
    txdb.existsKey key = (txdb.contents.lookup key).isSome ↔
      ¬(BatchStore.scanBatch batch key = some none ∧ (txdb.disk.lookup key).isSome = true) := by
  rw [BatchStore.lookup_contents]
  unfold CTxDB.existsKey BatchStore.read
  simp only [h]
  cases hScan : BatchStore.scanBatch batch key with
  | none => simp
  | some pending =>
      cases pending with
      | some value => simp
      | none => simp

theorem call_answer_eq_iff (h : txdb.activeBatch = some batch) (call : DbCall) :
    (txdb.call call).1 = (callOnMap txdb.contents call).1 ↔
      ∀ key, call = .existsKey key →
        ¬(BatchStore.scanBatch batch key = some none ∧
          (txdb.disk.lookup key).isSome = true) := by
  have hIn : BatchStore.InBatch txdb := by simp [BatchStore.InBatch, h]
  cases call with
  | write key value =>
      have hDone := BatchStore.update_of_inBatch hIn key (some value)
      simp [CTxDB.call, callOnMap, BatchStore.write, hDone]
  | erase key =>
      have hDone := BatchStore.update_of_inBatch hIn key none
      simp [CTxDB.call, callOnMap, BatchStore.erase, hDone]
  | read key => simp [CTxDB.call, callOnMap, BatchStore.lookup_contents]
  | existsKey key =>
      have hExists := existsKey_eq_iff h key
      simpa [CTxDB.call, callOnMap] using hExists

/-! ## A run of calls inside a batch -/

theorem runCalls_txdb_eq (h : txdb.activeBatch = some batch) (calls : List DbCall) :
    (txdb.runCalls calls).2 =
      { txdb with activeBatch := some (batch ++ pendingEntries calls) } := by
  induction calls generalizing txdb batch with
  | nil => simp [CTxDB.runCalls, pendingEntries, ← h]
  | cons call calls ih =>
      have hCall := call_txdb_eq h call
      have hAppend := pendingEntries_append [call] calls
      simp only [List.singleton_append] at hAppend
      simp only [CTxDB.runCalls]
      rw [ih (congrArg BatchStore.activeBatch hCall), hCall, hAppend]
      simp

theorem runCalls_contents (h : txdb.activeBatch = some batch) (calls : List DbCall) :
    BatchStore.contents (txdb.runCalls calls).2 = (runOnMap txdb.contents calls).2 := by
  induction calls generalizing txdb batch with
  | nil => rfl
  | cons call calls ih =>
      have hNext := congrArg BatchStore.activeBatch (call_txdb_eq h call)
      simp only [CTxDB.runCalls, runOnMap]
      rw [ih hNext, call_contents h call]

/-- The answers of a run are those of the map exactly when each `Exists` of it is
asked about another key than a record of the disk that the batch then deletes. -/
theorem runCalls_answers_eq_iff (h : txdb.activeBatch = some batch) (calls : List DbCall) :
    (txdb.runCalls calls).1 = (runOnMap txdb.contents calls).1 ↔
      ∀ before key after, calls = before ++ .existsKey key :: after →
        ¬(BatchStore.scanBatch (batch ++ pendingEntries before) key = some none ∧
          (txdb.disk.lookup key).isSome = true) := by
  induction calls generalizing txdb batch with
  | nil => simp [CTxDB.runCalls, runOnMap]
  | cons call calls ih =>
      have hCall := call_txdb_eq h call
      have hTail := ih (congrArg BatchStore.activeBatch hCall)
      rw [call_contents h call, hCall] at hTail
      simp only [CTxDB.runCalls, runOnMap, List.cons.injEq]
      rw [hCall, call_answer_eq_iff h call, hTail]
      constructor
      · rintro ⟨hHead, hRest⟩ before key after hSplit
        cases before with
        | nil =>
            simp only [List.nil_append, List.cons.injEq] at hSplit
            simpa [pendingEntries] using hHead key hSplit.1
        | cons first before =>
            simp only [List.cons_append, List.cons.injEq] at hSplit
            obtain ⟨rfl, hSplit⟩ := hSplit
            have hLater := hRest before key after hSplit
            have hAppend := pendingEntries_append [call] before
            rw [List.append_assoc, ← hAppend] at hLater
            exact hLater
      · intro hAll
        refine ⟨?_, ?_⟩
        · intro key hKey
          simpa [pendingEntries] using hAll [] key calls (by rw [hKey]; rfl)
        · intro before key after hSplit
          have hLater := hAll (call :: before) key after (by rw [hSplit]; rfl)
          have hAppend := pendingEntries_append [call] before
          rw [List.append_assoc, ← hAppend]
          exact hLater

end InBatch

/-! ## Whole transactions -/

/-- A transaction reads its own writes exactly when no `Exists` asks about a record
of the database that the calls before it erased and did not write again. -/
theorem readsOwnWrites_iff
    (txdb : CTxDB) (hIdle : txdb.activeBatch = none) (calls : List DbCall) :
    ReadsOwnWrites txdb calls ↔
      ∀ before key after, calls = before ++ .existsKey key :: after →
        ¬(erasedLast before key = true ∧ (txdb.disk.lookup key).isSome = true) := by
  set opened : CTxDB := { txdb with activeBatch := some [] } with hOpened
  have hBegin : BatchStore.txnBegin txdb = .ok opened :=
    BatchStore.txnBegin_eq_ok.mpr ⟨hIdle, rfl⟩
  have hBatch : opened.activeBatch = some [] := rfl
  have hContents : opened.contents = txdb.disk := BatchStore.contents_txnBegin hBegin
  have hAnswers := runCalls_answers_eq_iff hBatch calls
  have hAfter := runCalls_contents hBatch calls
  rw [hContents] at hAnswers hAfter
  have hState := runCalls_txdb_eq hBatch calls
  simp only [erasedLast_iff]
  constructor
  · rintro ⟨opened', hBegin', hSame, -⟩
    rw [hBegin] at hBegin'
    cases hBegin'
    exact hAnswers.mp hSame
  · intro hCondition
    refine ⟨opened, hBegin, hAnswers.mpr hCondition, ?_, rfl, by rw [hState]; rfl⟩
    intro hWrite
    have hIn : BatchStore.InBatch (opened.runCalls calls).2 := by
      rw [hState]
      rfl
    obtain ⟨⟨done, closed⟩, hCommit⟩ := BatchStore.txnCommit_isOk hIn
    have hDone : done = true := by
      rw [BatchStore.txnCommit_result hCommit, hState]
      exact hWrite
    subst hDone
    exact ⟨closed, hCommit, BatchStore.txnCommit_activeBatch hCommit,
      (BatchStore.disk_txnCommit hCommit).trans hAfter⟩

namespace Sample

/-- A database that holds the hash of the best chain. -/
def storedBest : CTxDB := ⟨AList.insert .hashBestChain (.hash 7) ∅, none, []⟩

end Sample

theorem readsOwnWrites_iff_storedBest :
    Sample.storedBest.activeBatch = none ∧
      ReadsOwnWrites Sample.storedBest
        [.erase .hashBestChain, .write .hashBestChain (.hash 8), .existsKey .hashBestChain] := by
  refine ⟨rfl, (readsOwnWrites_iff Sample.storedBest rfl _).mpr ?_⟩
  intro before key after hSplit
  rintro ⟨hErased, -⟩
  rcases before with _ | ⟨first, _ | ⟨second, _ | ⟨third, rest⟩⟩⟩
  · simp at hSplit
  · simp at hSplit
  · simp only [List.cons_append, List.nil_append, List.cons.injEq, DbCall.existsKey.injEq] at hSplit
    obtain ⟨rfl, rfl, rfl, -⟩ := hSplit
    exact absurd hErased (by decide)
  · simp at hSplit

/-- Erase the record and ask for it in the same transaction: `Read` says it is gone,
`Exists` says it is there. -/
theorem not_readsOwnWrites_erased :
    Sample.storedBest.activeBatch = none ∧
      ¬ReadsOwnWrites Sample.storedBest [.erase .hashBestChain, .existsKey .hashBestChain] := by
  refine ⟨rfl, ?_⟩
  rintro ⟨opened, hBegin, hSame, -⟩
  cases hBegin
  exact absurd hSame (by decide)

end SocietyGold
