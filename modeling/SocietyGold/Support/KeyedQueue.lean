import SocietyGold.Support.Table

/-!
# A queue in a keyed table

Producers put records under keys of their own choice.  One consumer opens a snapshot of the
table and goes through it in key order: it fetches a record, works on it, and then erases
whatever the table has under the key of that record.  The table may change between any two
of these steps.

If no record is put under a key that another record still has, the entries of the snapshot
that are ahead of the consumer stay in the table, so the record that it erases is the one it
has worked on, and every record is worked on before it leaves the table.
-/

namespace Support

universe u v

/-- Where the consumer is in its snapshot. -/
inductive Consumer (K : Type u) (V : Type v)
  | idle
  | reading (rest : List (K × V))
  | fetched (entry : K × V) (rest : List (K × V))
  | worked (entry : K × V) (rest : List (K × V))

/-- The entries that the consumer has not dealt with. -/
def Consumer.ahead {K : Type u} {V : Type v} : Consumer K V → List (K × V)
  | .idle => []
  | .reading rest => rest
  | .fetched entry rest => entry :: rest
  | .worked entry rest => entry :: rest

/-- The table and the consumer, with the records that were put into the table so far and those
that the consumer has worked on. -/
structure KeyedQueue (K : Type u) (V : Type v) where
  table : Table K V
  consumer : Consumer K V
  written : List V
  worked : List V

namespace KeyedQueue

variable {K : Type u} {V : Type v} [LinearOrder K]

/-! ## Steps -/

def empty : KeyedQueue K V := ⟨∅, .idle, [], []⟩

def put (k : K) (v : V) (q : KeyedQueue K V) : KeyedQueue K V :=
  { q with
    table := q.table.insert k v
    written := q.written ++ [v] }

/-- A new snapshot. -/
def openSnapshot (q : KeyedQueue K V) : KeyedQueue K V :=
  { q with consumer := .reading q.table.inKeyOrder }

/-- The next entry of the snapshot, or its end. -/
def fetch (rest : List (K × V)) (q : KeyedQueue K V) : KeyedQueue K V :=
  match rest with
  | [] => { q with consumer := .idle }
  | entry :: rest => { q with consumer := .fetched entry rest }

def work (entry : K × V) (rest : List (K × V)) (q : KeyedQueue K V) : KeyedQueue K V :=
  { q with
    consumer := .worked entry rest
    worked := q.worked ++ [entry.2] }

/-- The consumer stops, and the table stays as it is. -/
def close (q : KeyedQueue K V) : KeyedQueue K V := { q with consumer := .idle }

/-- Go on with the rest of the snapshot, with or without erasing the key. -/
def finish (erased : Bool) (entry : K × V) (rest : List (K × V)) (q : KeyedQueue K V) :
    KeyedQueue K V :=
  { q with
    table := if erased then q.table.erase entry.1 else q.table
    consumer := .reading rest }

omit [LinearOrder K] in
theorem written_fetch (rest : List (K × V)) (q : KeyedQueue K V) :
    (q.fetch rest).written = q.written := by
  cases rest with
  | nil => rfl
  | cons entry rest => rfl

/-! ## What a step leaves in the table -/

/-- A record leaves its place only after the consumer has worked on it, and no other record
takes its place. -/
def Keeps (q q' : KeyedQueue K V) : Prop :=
  ∀ k v, q.table.lookup k = some v →
    q'.table.lookup k = some v ∨ (v ∈ q.worked ∧ q'.table.lookup k = none)

/-- The entries that are ahead of the consumer are in the table, and no record is lost. -/
structure Sound (q : KeyedQueue K V) : Prop where
  nodup : (q.consumer.ahead.map Prod.fst).Nodup
  present : ∀ e ∈ q.consumer.ahead, q.table.lookup e.1 = some e.2
  worked : ∀ e rest, q.consumer = .worked e rest → e.2 ∈ q.worked
  kept : ∀ v ∈ q.written, v ∈ q.worked ∨ ∃ k, q.table.lookup k = some v

theorem keeps_of_table_eq {q q' : KeyedQueue K V} (h : q'.table = q.table) : Keeps q q' := by
  intro k v hFound
  rw [h]
  exact Or.inl hFound

theorem sound_empty : (empty : KeyedQueue K V).Sound where
  nodup := List.nodup_nil
  present := fun _ h => absurd h List.not_mem_nil
  worked := fun _ _ h => nomatch h
  kept := fun _ h => absurd h List.not_mem_nil

variable {q : KeyedQueue K V}

theorem lookup_put
    {k : K} (v : V) (hFree : q.table.lookup k = none) {k' : K} {v' : V}
    (hFound : q.table.lookup k' = some v') : (q.put k v).table.lookup k' = some v' := by
  change (q.table.insert k v).lookup k' = some v'
  rw [Table.lookup_insert_ite, if_neg, hFound]
  rintro rfl
  rw [hFree] at hFound
  exact nomatch hFound

theorem keeps_put {k : K} (v : V) (hFree : q.table.lookup k = none) : Keeps q (q.put k v) :=
  fun _ _ hFound => Or.inl (lookup_put v hFree hFound)

/-- A record under a free key. -/
theorem Sound.put
    (hSound : q.Sound) {k : K} (v : V) (hFree : q.table.lookup k = none) :
    (q.put k v).Sound where
  nodup := hSound.nodup
  present := fun e hMem => lookup_put v hFree (hSound.present e hMem)
  worked := hSound.worked
  kept := by
    intro w hMem
    rcases List.mem_append.mp hMem with hOld | hNew
    · refine (hSound.kept w hOld).imp_right fun hIn => ?_
      obtain ⟨k', hFound⟩ := hIn
      exact ⟨k', lookup_put v hFree hFound⟩
    · refine Or.inr ⟨k, ?_⟩
      change (q.table.insert k v).lookup k = some w
      rw [Table.lookup_insert_ite, if_pos rfl, List.mem_singleton.mp hNew]

theorem Sound.openSnapshot (hSound : q.Sound) : q.openSnapshot.Sound where
  nodup := q.table.nodup_keys_inKeyOrder
  present := fun _ hMem => Table.mem_inKeyOrder.mp hMem
  worked := fun _ _ h => nomatch h
  kept := hSound.kept

theorem Sound.close (hSound : q.Sound) : q.close.Sound where
  nodup := List.nodup_nil
  present := fun _ h => absurd h List.not_mem_nil
  worked := fun _ _ h => nomatch h
  kept := hSound.kept

theorem Sound.fetch
    (hSound : q.Sound) {rest : List (K × V)} (hConsumer : q.consumer = .reading rest) :
    (q.fetch rest).Sound := by
  have hNodup := hSound.nodup
  have hPresent := hSound.present
  rw [hConsumer] at hNodup hPresent
  cases rest with
  | nil => exact hSound.close
  | cons entry rest => exact ⟨hNodup, hPresent, fun _ _ h => (nomatch h), hSound.kept⟩

theorem keeps_fetch (rest : List (K × V)) : Keeps q (q.fetch rest) := by
  apply keeps_of_table_eq
  cases rest with
  | nil => rfl
  | cons entry rest => rfl

theorem Sound.work
    (hSound : q.Sound) {entry : K × V} {rest : List (K × V)}
    (hConsumer : q.consumer = .fetched entry rest) : (q.work entry rest).Sound := by
  have hNodup := hSound.nodup
  have hPresent := hSound.present
  rw [hConsumer] at hNodup hPresent
  refine ⟨hNodup, hPresent, ?_, ?_⟩
  · intro entry' rest' hEq
    obtain ⟨rfl, -⟩ := Consumer.worked.inj hEq
    exact List.mem_append_right _ List.mem_cons_self
  · intro v hMem
    exact (hSound.kept v hMem).imp_left fun h => List.mem_append_left _ h

/-- What the consumer erases is the record that it has worked on. -/
theorem Sound.keeps_finish
    (hSound : q.Sound) {erased : Bool} {entry : K × V} {rest : List (K × V)}
    (hConsumer : q.consumer = .worked entry rest) : Keeps q (q.finish erased entry rest) := by
  cases erased with
  | false => exact keeps_of_table_eq rfl
  | true =>
      intro k v hFound
      change (q.table.erase entry.1).lookup k = some v ∨
        (v ∈ q.worked ∧ (q.table.erase entry.1).lookup k = none)
      rw [Table.lookup_erase_ite]
      by_cases hKey : k = entry.1
      · have hHere : q.table.lookup entry.1 = some entry.2 :=
          hSound.present entry (by rw [hConsumer]; exact List.mem_cons_self)
        rw [hKey, hHere] at hFound
        rw [if_pos hKey, ← Option.some.inj hFound]
        exact Or.inr ⟨hSound.worked entry rest hConsumer, rfl⟩
      · rw [if_neg hKey]
        exact Or.inl hFound

theorem Sound.finish
    (hSound : q.Sound) {erased : Bool} {entry : K × V} {rest : List (K × V)}
    (hConsumer : q.consumer = .worked entry rest) : (q.finish erased entry rest).Sound := by
  have hNodup := hSound.nodup
  have hPresent := hSound.present
  have hKeeps := @keeps_finish _ _ _ _ hSound erased entry rest hConsumer
  rw [hConsumer] at hNodup hPresent
  obtain ⟨hOther, hNodup⟩ := List.nodup_cons.mp hNodup
  refine ⟨hNodup, ?_, fun _ _ h => (nomatch h), ?_⟩
  · intro e hMem
    have hFound := hPresent e (List.mem_cons_of_mem _ hMem)
    have hKey : e.1 ≠ entry.1 := by
      intro hSame
      exact hOther (hSame ▸ List.mem_map_of_mem hMem)
    cases erased with
    | false => exact hFound
    | true =>
        change (q.table.erase entry.1).lookup e.1 = some e.2
        rw [Table.lookup_erase_ite, if_neg hKey, hFound]
  · intro v hMem
    rcases hSound.kept v hMem with hWorked | ⟨k, hFound⟩
    · exact Or.inl hWorked
    · rcases hKeeps k v hFound with hStill | ⟨hWorked, -⟩
      · exact Or.inr ⟨k, hStill⟩
      · exact Or.inl hWorked

end KeyedQueue

end Support
