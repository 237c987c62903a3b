import SocietyGold.AddrIndexRuns
import SocietyGold.WalletCoins
import SocietyGold.Support.Components

/-!
# Address groupings

`GetAddressGroupings` collects sets of addresses that seem to belong together and then merges
those that overlap.  The merged sets live on the heap: `uniqueGroupings` has the pointers to
them, and `setmap` the pointer to the set of each address.
-/

namespace SocietyGold

open Support TxnOutType

/-! ## Ordered sets -/

section OrderedSets

variable {α : Type} [DecidableEq α] (before : α → α → Bool)

/-- `std::set::insert`. -/
def setInsert (a : α) (s : List α) : List α :=
  if a ∈ s then s else List.orderedInsert (fun x y => before x y = true) a s

/-- `std::set::insert` of a range. -/
def setInsertAll (elements s : List α) : List α :=
  elements.foldl (fun s a => setInsert before a s) s

@[simp] theorem mem_setInsert {a b : α} {s : List α} :
    b ∈ setInsert before a s ↔ b = a ∨ b ∈ s := by
  unfold setInsert
  split_ifs with hMem
  · constructor
    · exact Or.inr
    · rintro (rfl | hb)
      · exact hMem
      · exact hb
  · exact List.mem_orderedInsert _

theorem nodup_setInsert {a : α} {s : List α} (h : s.Nodup) : (setInsert before a s).Nodup := by
  unfold setInsert
  split_ifs with hMem
  · exact h
  · rw [(List.perm_orderedInsert _ a s).nodup_iff, List.nodup_cons]
    exact ⟨hMem, h⟩

theorem mem_setInsertAll {elements s : List α} {b : α} :
    b ∈ setInsertAll before elements s ↔ b ∈ elements ∨ b ∈ s := by
  unfold setInsertAll
  induction elements generalizing s with
  | nil => simp
  | cons a elements ih =>
      rw [List.foldl_cons, ih, mem_setInsert, List.mem_cons]
      tauto

end OrderedSets

/-! ## The addresses of transactions -/

namespace CTxDestination

/-- `which()` of the variant. -/
def which : CTxDestination → ℕ
  | .noDestination => 0
  | .keyID _ => 1
  | .scriptID _ => 2
  | .stealthAddress => 3

/-- `operator<`, between keys and scripts. -/
def before (a b : CTxDestination) : Bool :=
  a.which < b.which || (a.which = b.which && a.addrid < b.addrid)

/-- `operator<` of sets. -/
def setBefore (s t : List CTxDestination) : Bool := List.lex s t before

end CTxDestination

/-- `ExtractDestination`. -/
def extractDestination (P : ScriptPrimitives) (scriptPubKey : CScript) : Option CTxDestination :=
  match solver scriptPubKey with
  | some (TX_PUBKEY, vSolutions) =>
      vSolutions.head?.map fun vch => .keyID ((CPubKey.ofBytes vch).getID P)
  | some (TX_PUBKEYHASH, vSolutions) =>
      vSolutions.head?.map fun vch => .keyID (fromBytesLE vch)
  | some (TX_SCRIPTHASH, vSolutions) =>
      vSolutions.head?.map fun vch => .scriptID (fromBytesLE vch)
  | _ => none

/-- What the wallet knows about addresses. -/
structure AddressBook where
  prims : ScriptPrimitives
  keys : WalletKeys
  mapAddressBook : Table CTxDestination String

namespace AddressBook

variable (book : AddressBook)

def destination (txout : CTxOut) : Option CTxDestination :=
  extractDestination book.prims txout.scriptPubKey

def isChange (txout : CTxOut) : Bool :=
  book.keys.isMineOut txout &&
    match book.destination txout with
    | none => true
    | some address => address ∉ book.mapAddressBook

end AddressBook

namespace CWallet

variable (book : AddressBook) (w : CWallet)

/-! ## Base groupings -/

/-- The loop over the inputs: the grouping, and `any_mine`. -/
def groupInputs : List CTxIn → (grouping : List CTxDestination) → (any_mine : Bool) →
    List CTxDestination × Bool
  | [], grouping, any_mine => (grouping, any_mine)
  | txin :: vin, grouping, any_mine =>
      if !w.isMineIn book.keys txin then groupInputs vin grouping any_mine
      else
        match (w.spentBy txin).bind book.destination with
        | none => groupInputs vin grouping any_mine
        | some address => groupInputs vin (setInsert CTxDestination.before address grouping) true

/-- The loop over the outputs that groups the change. -/
def groupChange : List CTxOut → (grouping : List CTxDestination) → List CTxDestination
  | [], grouping => grouping
  | txout :: vout, grouping =>
      if book.isChange txout then
        match book.destination txout with
        | none => groupChange vout grouping
        | some txoutAddr =>
            groupChange vout (setInsert CTxDestination.before txoutAddr grouping)
      else groupChange vout grouping

/-- The loop over the outputs that groups each address by itself. -/
def groupLone : List CTxOut → (groupings : List (List CTxDestination)) →
    List (List CTxDestination)
  | [], groupings => groupings
  | txout :: vout, groupings =>
      if book.keys.isMineOut txout then
        match book.destination txout with
        | none => groupLone vout groupings
        | some address => groupLone vout (setInsert CTxDestination.setBefore [address] groupings)
      else groupLone vout groupings

/-- The grouping of a transaction whose first input is mine. -/
def groupTx (tx : CTransaction) (groupings : List (List CTxDestination)) :
    List (List CTxDestination) :=
  let grouped := w.groupInputs book tx.vin [] false
  let grouping := if grouped.2 then groupChange book tx.vout grouped.1 else grouped.1
  if grouping ≠ [] then setInsert CTxDestination.setBefore grouping groupings else groupings

/-- A round of the loop over the wallet. -/
def addGroupings (groupings : List (List CTxDestination)) (tx : CTransaction) :
    List (List CTxDestination) :=
  let groupings :=
    match tx.vin with
    | [] => groupings
    | txin :: _ => if w.isMineIn book.keys txin then w.groupTx book tx groupings else groupings
  groupLone book tx.vout groupings

/-- The first part of `GetAddressGroupings`. -/
def baseGroupings : List (List CTxDestination) :=
  w.mapWallet.inKeyOrder.foldl
    (fun groupings walletEntry => w.addGroupings book groupings walletEntry.2.wtx.toCTransaction) []

end CWallet

/-! ## Merging -/

/-- Where `new` puts a set. -/
structure SetAllocator (α : Type) where
  next : Table ℕ (List α) → ℕ
  fresh : ∀ heap, next heap ∉ heap

/-- The merged sets and what points to them. -/
structure GroupingState (α : Type) [DecidableEq α] where
  heap : Table ℕ (List α)
  uniqueGroupings : List ℕ
  setmap : Table α ℕ

/-- The order of pointers. -/
def addressBefore (p q : ℕ) : Bool := p < q

section Merging

variable {α : Type} [DecidableEq α]

/-- `*p`. -/
def readSet (heap : Table ℕ (List α)) (p : ℕ) : Checked (List α) :=
  match heap.lookup p with
  | some s => .ok s
  | none => .error .danglingReference

/-- `delete p`. -/
def deleteSet (heap : Table ℕ (List α)) (p : ℕ) : Checked (Table ℕ (List α)) :=
  if p ∈ heap then .ok (heap.erase p) else .error .danglingReference

/-- The groups hit by a grouping. -/
def hitsOf (setmap : Table α ℕ) (grouping : List α) : List ℕ :=
  grouping.foldl
    (fun hits address => (setmap.lookup address).elim hits fun p => setInsert addressBefore p hits)
    []

variable (before : α → α → Bool)

/-- A round of the loop that merges the hit groups. -/
def mergeHit (merged hit : ℕ) (state : GroupingState α) : Checked (GroupingState α) := do
  let elements ← readSet state.heap hit
  let old ← readSet state.heap merged
  let heap ← deleteSet (state.heap.insert merged (setInsertAll before elements old)) hit
  return { state with heap := heap, uniqueGroupings := state.uniqueGroupings.filter (· ≠ hit) }

def mergeHits (merged : ℕ) : (hits : List ℕ) → GroupingState α → Checked (GroupingState α)
  | [], state => .ok state
  | hit :: hits, state => do
      let state ← mergeHit before merged hit state
      mergeHits merged hits state

variable (allocator : SetAllocator α)

/-- A round of the loop over the groupings. -/
def mergeGrouping (grouping : List α) (state : GroupingState α) : Checked (GroupingState α) := do
  let merged := allocator.next state.heap
  let state ← mergeHits before merged (hitsOf state.setmap grouping)
    { state with heap := state.heap.insert merged grouping }
  let elements ← readSet state.heap merged
  return {
    heap := state.heap
    uniqueGroupings := setInsert addressBefore merged state.uniqueGroupings
    setmap := elements.foldl (fun setmap element => setmap.insert element merged) state.setmap }

def mergeGroupings : (groupings : List (List α)) → GroupingState α → Checked (GroupingState α)
  | [], state => .ok state
  | grouping :: groupings, state => do
      let state ← mergeGrouping before allocator grouping state
      mergeGroupings groupings state

variable (beforeSets : List α → List α → Bool)

/-- The last loop: the heap that is left, and the sets. -/
def collectGroupings : (uniqueGroupings : List ℕ) → (heap : Table ℕ (List α)) →
    (ret : List (List α)) → Checked (Table ℕ (List α) × List (List α))
  | [], heap, ret => .ok (heap, ret)
  | p :: uniqueGroupings, heap, ret => do
      let s ← readSet heap p
      let heap ← deleteSet heap p
      collectGroupings uniqueGroupings heap (setInsert beforeSets s ret)

/-- The second part of `GetAddressGroupings`. -/
def mergedGroupings (groupings : List (List α)) :
    Checked (Table ℕ (List α) × List (List α)) := do
  let state ← mergeGroupings before allocator groupings ⟨∅, [], ∅⟩
  collectGroupings beforeSets state.uniqueGroupings state.heap []

end Merging

/-- `GetAddressGroupings`, with what is left on the heap. -/
def CWallet.getAddressGroupings (book : AddressBook) (allocator : SetAllocator CTxDestination)
    (w : CWallet) : Checked (Table ℕ (List CTxDestination) × List (List CTxDestination)) :=
  mergedGroupings CTxDestination.before allocator CTxDestination.setBefore (w.baseGroupings book)

/-! ## One merge -/

section Rounds

variable {α : Type} [DecidableEq α] {before : α → α → Bool} {state : GroupingState α}
  {heap : Table ℕ (List α)} {merged : ℕ}

omit [DecidableEq α] in
theorem readSet_of_lookup {p : ℕ} {s : List α} (h : heap.lookup p = some s) :
    readSet heap p = .ok s := by
  unfold readSet
  rw [h]

omit [DecidableEq α] in
theorem deleteSet_of_mem {p : ℕ} (h : p ∈ heap) : deleteSet heap p = .ok (heap.erase p) := by
  unfold deleteSet
  rw [if_pos h]

theorem nodup_hitsOf {setmap : Table α ℕ} {grouping : List α} :
    (hitsOf setmap grouping).Nodup := by
  unfold hitsOf
  refine List.foldlRecOn grouping _ List.nodup_nil ?_
  intro hits hNodup address _
  cases setmap.lookup address with
  | none => exact hNodup
  | some p => exact nodup_setInsert addressBefore hNodup

theorem mem_hitsOf {setmap : Table α ℕ} {grouping : List α} {p : ℕ} :
    p ∈ hitsOf setmap grouping ↔ ∃ a ∈ grouping, setmap.lookup a = some p := by
  have hLoop : ∀ (grouping : List α) (hits : List ℕ), p ∈ grouping.foldl (fun hits address =>
      (setmap.lookup address).elim hits fun p => setInsert addressBefore p hits) hits ↔
        p ∈ hits ∨ ∃ a ∈ grouping, setmap.lookup a = some p := by
    intro grouping
    induction grouping with
    | nil => simp
    | cons a grouping ih =>
        intro hits
        rw [List.foldl_cons, ih]
        cases hLookup : setmap.lookup a with
        | none => simp [hLookup]
        | some q =>
            simp only [Option.elim_some, mem_setInsert, List.exists_mem_cons_iff, hLookup,
              Option.some.injEq, eq_comm (a := q)]
            tauto
  unfold hitsOf
  rw [hLoop]
  simp

/-- The hits are merged into one set and deleted, and nothing else changes. -/
structure MergedHits (merged : ℕ) (hits : List ℕ) (state state' : GroupingState α) : Prop where
  setmap : state'.setmap = state.setmap
  unique : state'.uniqueGroupings = state.uniqueGroupings.filter (· ∉ hits)
  others : ∀ p, p ≠ merged →
    state'.heap.lookup p = if p ∈ hits then none else state.heap.lookup p
  merged : ∃ s s', state.heap.lookup merged = some s ∧ state'.heap.lookup merged = some s' ∧
    ∀ a, a ∈ s' ↔ a ∈ s ∨ ∃ hit ∈ hits, ∃ t, state.heap.lookup hit = some t ∧ a ∈ t

theorem mergeHit_merges
    {hit : ℕ} (hMerged : merged ∈ state.heap) (hHit : hit ∈ state.heap) (hNe : hit ≠ merged) :
    ∃ state', mergeHit before merged hit state = .ok state' ∧
      MergedHits merged [hit] state state' := by
  obtain ⟨s, hs⟩ := Table.mem_iff_lookup.mp hMerged
  obtain ⟨t, ht⟩ := Table.mem_iff_lookup.mp hHit
  have hStill : hit ∈ state.heap.insert merged (setInsertAll before t s) :=
    AList.mem_insert _ |>.mpr (Or.inr hHit)
  refine ⟨{ state with
    heap := (state.heap.insert merged (setInsertAll before t s)).erase hit
    uniqueGroupings := state.uniqueGroupings.filter (· ≠ hit) }, ?_, ?_⟩
  · unfold mergeHit
    rw [readSet_of_lookup ht, ok_bind, readSet_of_lookup hs, ok_bind, deleteSet_of_mem hStill,
      ok_bind]
    rfl
  · refine ⟨rfl, ?_, ?_, s, setInsertAll before t s, hs, ?_, ?_⟩
    · simp
    · intro p hp
      rw [Table.lookup_erase_ite, Table.lookup_insert_ite, if_neg hp]
      simp
    · rw [Table.lookup_erase_ite, if_neg hNe.symm, Table.lookup_insert_ite, if_pos rfl]
    · intro a
      rw [mem_setInsertAll]
      simp [ht, or_comm]

theorem mergeHits_merges
    {hits : List ℕ} (hNodup : hits.Nodup) (hMerged : merged ∈ state.heap)
    (hHits : ∀ hit ∈ hits, hit ∈ state.heap ∧ hit ≠ merged) :
    ∃ state', mergeHits before merged hits state = .ok state' ∧
      MergedHits merged hits state state' := by
  induction hits generalizing state with
  | nil =>
      obtain ⟨s, hs⟩ := Table.mem_iff_lookup.mp hMerged
      refine ⟨state, rfl, rfl, ?_, ?_, s, s, hs, hs, ?_⟩
      · simp
      · simp
      · simp
  | cons hit hits ih =>
      obtain ⟨hFirst, hRest⟩ := List.nodup_cons.mp hNodup
      obtain ⟨hHit, hNe⟩ := hHits hit List.mem_cons_self
      obtain ⟨mid, hMid, hOne⟩ := @mergeHit_merges _ _ before _ _ _ hMerged hHit hNe
      obtain ⟨s, s', hs, hs', hFold⟩ := hOne.merged
      have hKept : ∀ p ∈ hits, mid.heap.lookup p = state.heap.lookup p := by
        intro p hp
        rw [hOne.others p (hHits p (List.mem_cons_of_mem hit hp)).2, if_neg]
        rw [List.mem_singleton]
        rintro rfl
        exact hFirst hp
      have hHits' : ∀ p ∈ hits, p ∈ mid.heap ∧ p ≠ merged := by
        intro p hp
        obtain ⟨hMem, hOther⟩ := hHits p (List.mem_cons_of_mem hit hp)
        rw [Table.mem_iff_lookup] at hMem ⊢
        rw [hKept p hp]
        exact ⟨hMem, hOther⟩
      obtain ⟨state', hState', hMore⟩ :=
        ih hRest (Table.mem_iff_lookup.mpr ⟨s', hs'⟩) hHits'
      obtain ⟨t, t', ht, ht', hFold'⟩ := hMore.merged
      refine ⟨state', ?_, hMore.setmap.trans hOne.setmap, ?_, ?_, s, t', hs, ht', ?_⟩
      · unfold mergeHits
        rw [hMid, ok_bind, hState']
      · rw [hMore.unique, hOne.unique, List.filter_filter]
        apply List.filter_congr
        intro p _
        simp [Bool.and_comm]
      · intro p hp
        rw [hMore.others p hp, hOne.others p hp]
        simp only [List.mem_cons, List.not_mem_nil, or_false]
        split_ifs <;> tauto
      · intro a
        obtain rfl := Option.some.inj (hs'.symm.trans ht)
        have hRestFold : (∃ p ∈ hits, ∃ t, mid.heap.lookup p = some t ∧ a ∈ t) ↔
            ∃ p ∈ hits, ∃ t, state.heap.lookup p = some t ∧ a ∈ t := by
          refine exists_congr fun p => and_congr_right fun hp => ?_
          rw [hKept p hp]
        rw [hFold', hFold, hRestFold, List.exists_mem_cons_iff, List.exists_mem_cons_iff, or_assoc]
        simp

/-! ## One grouping -/

/-- What belongs to what: the sets are those of the elements with one label, the labels tell
the components apart, and `uniqueGroupings` has the pointers to all sets. -/
structure Grouped (family : Set (Set α)) (state : GroupingState α) : Prop where
  labels : Labels family fun a => state.setmap.lookup a
  sets : ∀ a p, state.setmap.lookup a = some p ↔ ∃ s, state.heap.lookup p = some s ∧ a ∈ s
  unique : ∀ p, p ∈ state.uniqueGroupings ↔ p ∈ state.heap
  nodup : state.uniqueGroupings.Nodup
  nonempty : ∀ p s, state.heap.lookup p = some s → s ≠ []

theorem grouped_empty : Grouped ∅ (⟨∅, [], ∅⟩ : GroupingState α) := by
  refine ⟨labels_empty, ?_, ?_, List.nodup_nil, ?_⟩
  · simp
  · simp
  · simp

theorem lookup_foldl_insert_const (elements : List α) (setmap : Table α ℕ) (a : α) :
    (elements.foldl (fun setmap element => setmap.insert element merged) setmap).lookup a =
      if a ∈ elements then some merged else setmap.lookup a := by
  induction elements generalizing setmap with
  | nil => simp
  | cons b elements ih =>
      rw [List.foldl_cons, ih, Table.lookup_insert_ite]
      by_cases hMem : a ∈ elements
      · rw [if_pos hMem, if_pos (List.mem_cons_of_mem b hMem)]
      · rw [if_neg hMem]
        by_cases hHead : a = b
        · rw [if_pos hHead, if_pos (hHead ▸ List.mem_cons_self)]
        · rw [if_neg hHead, if_neg (by simp [hHead, hMem])]

/-- A round of the loop: `elements` is the new set. -/
structure MergedGrouping (grouping elements : List α) (merged : ℕ)
    (state state' : GroupingState α) : Prop where
  elements_iff : ∀ a, a ∈ elements ↔
    Hit (fun a => state.setmap.lookup a) {a | a ∈ grouping} a
  created : state'.heap.lookup merged = some elements
  others : ∀ p, p ≠ merged → state'.heap.lookup p =
    if p ∈ hitsOf state.setmap grouping then none else state.heap.lookup p
  setmap : ∀ a, state'.setmap.lookup a =
    if a ∈ elements then some merged else state.setmap.lookup a
  unique : ∀ p, p ∈ state'.uniqueGroupings ↔
    p = merged ∨ (p ∈ state.uniqueGroupings ∧ p ∉ hitsOf state.setmap grouping)
  nodup : state'.uniqueGroupings.Nodup

variable {family : Set (Set α)} {grouping elements : List α} {allocator : SetAllocator α}

theorem Grouped.mem_heap_of_hit
    (h : Grouped family state) {hit : ℕ} (hHit : hit ∈ hitsOf state.setmap grouping) :
    hit ∈ state.heap := by
  obtain ⟨a, _, hLookup⟩ := mem_hitsOf.mp hHit
  obtain ⟨s, hs, _⟩ := (h.sets a hit).mp hLookup
  exact Table.mem_iff_lookup.mpr ⟨s, hs⟩

theorem Grouped.hit_iff (h : Grouped family state) (a : α) :
    Hit (fun a => state.setmap.lookup a) {a | a ∈ grouping} a ↔
      a ∈ grouping ∨ ∃ hit ∈ hitsOf state.setmap grouping,
        ∃ t, state.heap.lookup hit = some t ∧ a ∈ t := by
  apply or_congr_right
  constructor
  · rintro ⟨x, hx, p, hp, ha⟩
    exact ⟨p, mem_hitsOf.mpr ⟨x, hx, hp⟩, (h.sets a p).mp ha⟩
  · rintro ⟨p, hp, hSet⟩
    obtain ⟨x, hx, hLookup⟩ := mem_hitsOf.mp hp
    exact ⟨x, hx, p, hLookup, (h.sets a p).mpr hSet⟩

theorem mergeGrouping_merges (h : Grouped family state) :
    ∃ elements state', mergeGrouping before allocator grouping state = .ok state' ∧
      MergedGrouping grouping elements (allocator.next state.heap) state state' := by
  have hFresh := allocator.fresh state.heap
  generalize hNext : allocator.next state.heap = merged at hFresh
  have hStart : ∀ p, p ≠ merged →
      (state.heap.insert merged grouping).lookup p = state.heap.lookup p := by
    intro p hp
    rw [Table.lookup_insert_ite, if_neg hp]
  have hOther : ∀ hit ∈ hitsOf state.setmap grouping, hit ≠ merged := by
    rintro hit hHit rfl
    exact hFresh (h.mem_heap_of_hit hHit)
  have hHits : ∀ hit ∈ hitsOf state.setmap grouping,
      hit ∈ state.heap.insert merged grouping ∧ hit ≠ merged := fun hit hHit =>
    ⟨AList.mem_insert _ |>.mpr (Or.inr (h.mem_heap_of_hit hHit)), hOther hit hHit⟩
  obtain ⟨mid, hMid, hMerges⟩ :=
    @mergeHits_merges _ _ before { state with heap := state.heap.insert merged grouping } _ _
      nodup_hitsOf (AList.mem_insert _ |>.mpr (Or.inl rfl)) hHits
  obtain ⟨s, s', hs, hs', hFold⟩ := hMerges.merged
  rw [Table.lookup_insert_ite, if_pos rfl] at hs
  obtain rfl := Option.some.inj hs
  refine ⟨s', {
    heap := mid.heap
    uniqueGroupings := setInsert addressBefore merged mid.uniqueGroupings
    setmap := s'.foldl (fun setmap element => setmap.insert element merged) mid.setmap },
    ?_, ?_, hs', ?_, ?_, ?_, ?_⟩
  · unfold mergeGrouping
    dsimp only
    rw [hNext, hMid, ok_bind, readSet_of_lookup hs', ok_bind]
    rfl
  · intro a
    rw [h.hit_iff, hFold]
    apply or_congr_right
    refine exists_congr fun p => and_congr_right fun hp => ?_
    rw [hStart p (hOther p hp)]
  · intro p hp
    rw [hMerges.others p hp, hStart p hp]
  · intro a
    rw [lookup_foldl_insert_const, hMerges.setmap]
  · intro p
    rw [mem_setInsert, hMerges.unique]
    simp
  · apply nodup_setInsert
    rw [hMerges.unique]
    exact h.nodup.filter _

namespace MergedGrouping

variable {merged : ℕ} {state' : GroupingState α}

theorem labels
    (hRound : MergedGrouping grouping elements merged state state') (h : Grouped family state)
    (hFresh : merged ∉ state.heap) :
    Labels (insert {a | a ∈ grouping} family) fun a => state'.setmap.lookup a := by
  refine h.labels.merge (q := merged) ?_ ?_ ?_
  · intro a hLookup
    obtain ⟨s, hs, _⟩ := (h.sets a merged).mp hLookup
    exact hFresh (Table.mem_iff_lookup.mpr ⟨s, hs⟩)
  · intro a hHit
    rw [hRound.setmap, if_pos ((hRound.elements_iff a).mpr hHit)]
  · intro a hMiss
    rw [hRound.setmap, if_neg fun hMem => hMiss ((hRound.elements_iff a).mp hMem)]

theorem sets
    (hRound : MergedGrouping grouping elements merged state state') (h : Grouped family state)
    (hFresh : merged ∉ state.heap) (a : α) (p : ℕ) :
    state'.setmap.lookup a = some p ↔ ∃ s, state'.heap.lookup p = some s ∧ a ∈ s := by
  rw [hRound.setmap]
  by_cases hp : p = merged
  · subst hp
    rw [hRound.created]
    split_ifs with hMem
    · exact iff_of_true rfl ⟨elements, rfl, hMem⟩
    · refine iff_of_false ?_ ?_
      · intro hLookup
        obtain ⟨s, hs, _⟩ := (h.sets a p).mp hLookup
        exact hFresh (Table.mem_iff_lookup.mpr ⟨s, hs⟩)
      · rintro ⟨s, hs, ha⟩
        obtain rfl := Option.some.inj hs
        exact hMem ha
  · rw [hRound.others p hp]
    by_cases hHit : p ∈ hitsOf state.setmap grouping
    · rw [if_pos hHit]
      refine iff_of_false ?_ (by simp)
      split_ifs with hMem
      · intro hSome
        exact hp (Option.some.inj hSome).symm
      · intro hLookup
        apply hMem
        rw [hRound.elements_iff, h.hit_iff]
        exact Or.inr ⟨p, hHit, (h.sets a p).mp hLookup⟩
    · rw [if_neg hHit, ← h.sets a p]
      split_ifs with hMem
      · refine iff_of_false (fun hSome => hp (Option.some.inj hSome).symm) ?_
        intro hLookup
        rcases (hRound.elements_iff a).mp hMem with ha | ⟨x, hx, p', hx', ha'⟩
        · exact hHit (mem_hitsOf.mpr ⟨a, ha, hLookup⟩)
        · obtain rfl := Option.some.inj (ha'.symm.trans hLookup)
          exact hHit (mem_hitsOf.mpr ⟨x, hx, hx'⟩)
      · rfl

theorem grouped
    (hRound : MergedGrouping grouping elements merged state state') (h : Grouped family state)
    (hFresh : merged ∉ state.heap) (hNonempty : grouping ≠ []) :
    Grouped (insert {a | a ∈ grouping} family) state' := by
  refine ⟨hRound.labels h hFresh, hRound.sets h hFresh, ?_, hRound.nodup, ?_⟩
  · intro p
    rw [hRound.unique, Table.mem_iff_lookup]
    by_cases hp : p = merged
    · subst hp
      exact iff_of_true (Or.inl rfl) ⟨elements, hRound.created⟩
    · rw [hRound.others p hp, h.unique, Table.mem_iff_lookup]
      split_ifs with hHit
      · simp [hp, hHit]
      · simp [hp, hHit]
  · intro p s hs
    by_cases hp : p = merged
    · rw [hp, hRound.created] at hs
      obtain rfl := Option.some.inj hs
      obtain ⟨a, ha⟩ := List.exists_mem_of_ne_nil grouping hNonempty
      exact List.ne_nil_of_mem ((hRound.elements_iff a).mpr (Or.inl ha))
    · rw [hRound.others p hp] at hs
      split_ifs at hs
      exact h.nonempty p s hs

end MergedGrouping

/-! ## All groupings -/

/-- The sets that lists stand for. -/
def familyOf (groupings : List (List α)) : Set (Set α) :=
  {s | ∃ grouping ∈ groupings, s = {a | a ∈ grouping}}

theorem mergeGroupings_grouped
    {groupings : List (List α)} (h : Grouped family state) (hNonempty : [] ∉ groupings) :
    ∃ state', mergeGroupings before allocator groupings state = .ok state' ∧
      Grouped (familyOf groupings ∪ family) state' := by
  induction groupings generalizing family state with
  | nil =>
      refine ⟨state, rfl, ?_⟩
      have hFamily : familyOf ([] : List (List α)) ∪ family = family := by
        simp [familyOf]
      rw [hFamily]
      exact h
  | cons grouping groupings ih =>
      rw [List.mem_cons, not_or] at hNonempty
      obtain ⟨elements, mid, hMid, hRound⟩ :=
        @mergeGrouping_merges _ _ before _ _ grouping allocator h
      have hGrouped := hRound.grouped h (allocator.fresh state.heap) (Ne.symm hNonempty.1)
      obtain ⟨state', hState', hAll⟩ := ih hGrouped hNonempty.2
      refine ⟨state', ?_, ?_⟩
      · unfold mergeGroupings
        rw [hMid, ok_bind, hState']
      · have hFamily : familyOf (grouping :: groupings) ∪ family =
            familyOf groupings ∪ insert {a | a ∈ grouping} family := by
          ext s
          simp only [familyOf, Set.mem_union, Set.mem_ofPred_eq, Set.mem_insert_iff,
            List.exists_mem_cons_iff]
          exact or_assoc.trans or_left_comm
        rw [hFamily]
        exact hAll

/-- Every set is collected and deleted. -/
theorem collectGroupings_collects
    {beforeSets : List α → List α → Bool} {uniqueGroupings : List ℕ} {ret : List (List α)}
    (hNodup : uniqueGroupings.Nodup) (hMem : ∀ p ∈ uniqueGroupings, p ∈ heap) :
    ∃ heap' ret', collectGroupings beforeSets uniqueGroupings heap ret = .ok (heap', ret') ∧
      heap.Without (· ∈ uniqueGroupings) heap' ∧
      ∀ s, s ∈ ret' ↔ s ∈ ret ∨ ∃ p ∈ uniqueGroupings, heap.lookup p = some s := by
  induction uniqueGroupings generalizing heap ret with
  | nil =>
      refine ⟨heap, ret, rfl, ?_, ?_⟩
      · exact (Table.Without.refl heap).congr (by simp)
      · simp
  | cons p uniqueGroupings ih =>
      obtain ⟨hFirst, hRest⟩ := List.nodup_cons.mp hNodup
      have hHead := hMem p List.mem_cons_self
      obtain ⟨s, hs⟩ := Table.mem_iff_lookup.mp hHead
      have hErase := Table.Without.erase heap p
      have hStill : ∀ q ∈ uniqueGroupings, q ≠ p := by
        rintro q hq rfl
        exact hFirst hq
      have hMem' : ∀ q ∈ uniqueGroupings, q ∈ heap.erase p := fun q hq =>
        hErase.mem_iff.mpr ⟨hMem q (List.mem_cons_of_mem p hq), hStill q hq⟩
      obtain ⟨heap', ret', hRet, hWithout, hAll⟩ :=
        @ih _ (setInsert beforeSets s ret) hRest hMem'
      refine ⟨heap', ret', ?_, ?_, ?_⟩
      · unfold collectGroupings
        rw [readSet_of_lookup hs, ok_bind, deleteSet_of_mem hHead, ok_bind, hRet]
      · exact (hErase.trans hWithout).congr (by simp)
      · intro t
        have hRestSets : (∃ q ∈ uniqueGroupings, (heap.erase p).lookup q = some t) ↔
            ∃ q ∈ uniqueGroupings, heap.lookup q = some t := by
          refine exists_congr fun q => and_congr_right fun hq => ?_
          rw [hErase.lookup_of_not_gone (hStill q hq)]
        rw [hAll, hRestSets, mem_setInsert, List.exists_mem_cons_iff, hs, Option.some.injEq,
          eq_comm (a := s)]
        tauto

/-- The components of the groupings are returned, and nothing is left on the heap. -/
theorem mergedGroupings_components
    {beforeSets : List α → List α → Bool} {groupings : List (List α)} (hNonempty : [] ∉ groupings) :
    ∃ heap ret, mergedGroupings before allocator beforeSets groupings = .ok (heap, ret) ∧
      (∀ p, p ∉ heap) ∧ AreComponents (familyOf groupings) (familyOf ret) := by
  obtain ⟨state, hState, hGrouped⟩ :=
    @mergeGroupings_grouped _ _ before _ _ allocator _ grouped_empty hNonempty
  rw [Set.union_empty] at hGrouped
  obtain ⟨heap, ret, hRet, hWithout, hAll⟩ :=
    @collectGroupings_collects _ _ _ beforeSets _ [] hGrouped.nodup
      fun p hp => (hGrouped.unique p).mp hp
  refine ⟨heap, ret, ?_, ?_, ?_⟩
  · unfold mergedGroupings
    rw [hState, ok_bind, hRet]
  · intro p hp
    obtain ⟨hOld, hGone⟩ := hWithout.mem_iff.mp hp
    exact hGone ((hGrouped.unique p).mpr hOld)
  · have hComponents := @Labels.areComponents _ _ _ _
      (fun p => {a | ∃ s, state.heap.lookup p = some s ∧ a ∈ s}) (fun p => p ∈ state.heap)
      hGrouped.labels ?_ ?_
    · have hFamily : familyOf ret = {t | ∃ p, p ∈ state.heap ∧
          t = {a | ∃ s, state.heap.lookup p = some s ∧ a ∈ s}} := by
        ext t
        constructor
        · rintro ⟨s, hs, rfl⟩
          rcases (hAll s).mp hs with hNil | ⟨p, hp, hLookup⟩
          · cases hNil
          · refine ⟨p, (hGrouped.unique p).mp hp, ?_⟩
            ext a
            simp [hLookup]
        · rintro ⟨p, hp, rfl⟩
          obtain ⟨s, hs⟩ := Table.mem_iff_lookup.mp hp
          refine ⟨s, (hAll s).mpr (Or.inr ⟨p, (hGrouped.unique p).mpr hp, hs⟩), ?_⟩
          ext a
          simp [hs]
      rw [hFamily]
      exact hComponents
    · intro a p
      rw [hGrouped.sets]
      constructor
      · rintro ⟨s, hs, ha⟩
        exact ⟨Table.mem_iff_lookup.mpr ⟨s, hs⟩, s, hs, ha⟩
      · exact fun h => h.2
    · intro p hp
      obtain ⟨s, hs⟩ := Table.mem_iff_lookup.mp hp
      obtain ⟨a, ha⟩ := List.exists_mem_of_ne_nil s (hGrouped.nonempty p s hs)
      exact ⟨a, s, hs, ha⟩

end Rounds

/-! ## What is grouped -/

namespace AddressBook

variable (book : AddressBook)

/-- The address of an output that is mine. -/
def OwnOutput (tx : CTransaction) (address : CTxDestination) : Prop :=
  ∃ txout ∈ tx.vout, book.keys.isMineOut txout = true ∧ book.destination txout = some address

/-- The address of an output that is change. -/
def ChangeOutput (tx : CTransaction) (address : CTxDestination) : Prop :=
  ∃ txout ∈ tx.vout, book.isChange txout = true ∧ book.destination txout = some address

end AddressBook

namespace CWallet

variable (book : AddressBook) (w : CWallet)

/-- The address of an input that is mine. -/
def OwnInput (tx : CTransaction) (address : CTxDestination) : Prop :=
  ∃ txin ∈ tx.vin, ∃ txout, w.spentBy txin = some txout ∧ book.keys.isMineOut txout = true ∧
    book.destination txout = some address

/-- The own input addresses of a transaction, with the change. -/
def inputGroup (tx : CTransaction) : Set CTxDestination :=
  {address | w.OwnInput book tx address ∨
    ((∃ own, w.OwnInput book tx own) ∧ book.ChangeOutput tx address)}

/-- What is grouped in one transaction, if its inputs count. -/
def groupsOf (counts : CTransaction → Prop) (tx : CTransaction) : Set (Set CTxDestination) :=
  {s | (counts tx ∧ s = w.inputGroup book tx ∧ s.Nonempty) ∨
    ∃ address, book.OwnOutput tx address ∧ s = {address}}

/-- What is grouped in the wallet. -/
def baseGroups (counts : CTransaction → Prop) : Set (Set CTxDestination) :=
  {s | ∃ hash wtx, w.get hash = some wtx ∧ s ∈ w.groupsOf book counts wtx.toCTransaction}

/-- The first input is mine. -/
def FirstIsMine (tx : CTransaction) : Prop :=
  ∃ txin, tx.vin.head? = some txin ∧ w.isMineIn book.keys txin = true

end CWallet

section Loops

variable {book : AddressBook} {w : CWallet} {address : CTxDestination}

theorem isMineIn_and_iff {txin : CTxIn} :
    w.isMineIn book.keys txin = true ∧ (w.spentBy txin).bind book.destination = some address ↔
      ∃ txout, w.spentBy txin = some txout ∧ book.keys.isMineOut txout = true ∧
        book.destination txout = some address := by
  unfold CWallet.isMineIn
  cases w.spentBy txin with
  | none => simp
  | some txout => simp

theorem groupInputs_spec (vin : List CTxIn) (grouping : List CTxDestination) (any_mine : Bool) :
    (∀ a, a ∈ (w.groupInputs book vin grouping any_mine).1 ↔ a ∈ grouping ∨
      ∃ txin ∈ vin, ∃ txout, w.spentBy txin = some txout ∧ book.keys.isMineOut txout = true ∧
        book.destination txout = some a) ∧
    ((w.groupInputs book vin grouping any_mine).2 = true ↔ any_mine = true ∨
      ∃ a, ∃ txin ∈ vin, ∃ txout, w.spentBy txin = some txout ∧ book.keys.isMineOut txout = true ∧
        book.destination txout = some a) := by
  induction vin generalizing grouping any_mine with
  | nil => simp [CWallet.groupInputs]
  | cons txin vin ih =>
      simp only [← isMineIn_and_iff] at ih ⊢
      rw [CWallet.groupInputs]
      cases hMine : w.isMineIn book.keys txin with
      | false =>
          obtain ⟨hMem, hAny⟩ := ih grouping any_mine
          simpa [hMine] using And.intro hMem hAny
      | true =>
          cases hAddress : (w.spentBy txin).bind book.destination with
          | none =>
              obtain ⟨hMem, hAny⟩ := ih grouping any_mine
              simpa [hMine, hAddress] using And.intro hMem hAny
          | some address =>
              obtain ⟨hMem, hAny⟩ := ih (setInsert CTxDestination.before address grouping) true
              refine ⟨?_, ?_⟩
              · intro a
                simp only [Bool.not_true, Bool.false_eq_true, if_false, hMem, mem_setInsert,
                  List.exists_mem_cons_iff, hMine, hAddress, true_and, Option.some.injEq,
                  eq_comm (a := address)]
                tauto
              · refine iff_of_true ?_ (Or.inr ⟨address, txin, List.mem_cons_self, hMine, hAddress⟩)
                simpa using hAny.mpr (Or.inl rfl)

theorem mem_groupChange (vout : List CTxOut) (grouping : List CTxDestination) :
    address ∈ CWallet.groupChange book vout grouping ↔ address ∈ grouping ∨
      ∃ txout ∈ vout, book.isChange txout = true ∧ book.destination txout = some address := by
  induction vout generalizing grouping with
  | nil => simp [CWallet.groupChange]
  | cons txout vout ih =>
      rw [CWallet.groupChange]
      cases hChange : book.isChange txout with
      | false => simp [ih, hChange]
      | true =>
          cases hAddress : book.destination txout with
          | none => simp [ih, hAddress]
          | some a =>
              simp only [if_true, ih, mem_setInsert, List.exists_mem_cons_iff, hChange, hAddress,
                true_and, Option.some.injEq, eq_comm (a := a)]
              tauto

theorem mem_groupLone
    (vout : List CTxOut) (groupings : List (List CTxDestination)) {s : List CTxDestination} :
    s ∈ CWallet.groupLone book vout groupings ↔ s ∈ groupings ∨
      ∃ a, (∃ txout ∈ vout, book.keys.isMineOut txout = true ∧ book.destination txout = some a) ∧
        s = [a] := by
  induction vout generalizing groupings with
  | nil => simp [CWallet.groupLone]
  | cons txout vout ih =>
      rw [CWallet.groupLone]
      cases hMine : book.keys.isMineOut txout with
      | false => simp [ih, hMine]
      | true =>
          cases hAddress : book.destination txout with
          | none => simp [ih, hAddress]
          | some a =>
              simp only [if_true, ih, mem_setInsert, List.exists_mem_cons_iff, hMine, hAddress,
                true_and, Option.some.injEq, or_and_right, exists_or]
              simp only [exists_eq_left', or_assoc, or_left_comm]

/-- The grouping of a transaction is its own input addresses with the change. -/
theorem mem_groupTx {tx : CTransaction} {groupings : List (List CTxDestination)} :
    ∃ grouping, {a | a ∈ grouping} = w.inputGroup book tx ∧
      w.groupTx book tx groupings =
        if grouping ≠ [] then setInsert CTxDestination.setBefore grouping groupings
        else groupings := by
  obtain ⟨hMem, hAny⟩ := @groupInputs_spec book w tx.vin [] false
  refine ⟨_, ?_, rfl⟩
  ext a
  simp only [CWallet.inputGroup, CWallet.OwnInput, AddressBook.ChangeOutput, Set.mem_ofPred_eq]
  simp only [List.not_mem_nil, false_or] at hMem
  simp only [Bool.false_eq_true, false_or] at hAny
  by_cases hOwn : (w.groupInputs book tx.vin [] false).2 = true
  · rw [if_pos hOwn, mem_groupChange, hMem, and_iff_right (hAny.mp hOwn)]
  · rw [if_neg hOwn, hMem, or_iff_left fun h => hOwn (hAny.mpr h.1)]

theorem familyOf_setInsert
    {α : Type} [DecidableEq α] {before : List α → List α → Bool} {grouping : List α}
    {groupings : List (List α)} :
    familyOf (setInsert before grouping groupings) =
      insert {a | a ∈ grouping} (familyOf groupings) := by
  ext s
  simp only [familyOf, Set.mem_ofPred_eq, Set.mem_insert_iff, mem_setInsert, or_and_right,
    exists_or, exists_eq_left]

theorem familyOf_groupLone
    {tx : CTransaction} {groupings : List (List CTxDestination)} {s : Set CTxDestination} :
    s ∈ familyOf (CWallet.groupLone book tx.vout groupings) ↔ s ∈ familyOf groupings ∨
      ∃ address, book.OwnOutput tx address ∧ s = {address} := by
  simp only [familyOf, Set.mem_ofPred_eq, mem_groupLone, or_and_right, exists_or]
  apply or_congr_right
  constructor
  · rintro ⟨_, ⟨a, hOwn, rfl⟩, rfl⟩
    refine ⟨a, hOwn, ?_⟩
    ext b
    simp
  · rintro ⟨a, hOwn, rfl⟩
    refine ⟨[a], ⟨a, hOwn, rfl⟩, ?_⟩
    ext b
    simp

theorem familyOf_groupTx
    {tx : CTransaction} {groupings : List (List CTxDestination)} {s : Set CTxDestination} :
    s ∈ familyOf (w.groupTx book tx groupings) ↔
      (s = w.inputGroup book tx ∧ s.Nonempty) ∨ s ∈ familyOf groupings := by
  obtain ⟨grouping, hGroup, hInsert⟩ := @mem_groupTx book w tx groupings
  rw [hInsert, ← hGroup]
  split_ifs with hEmpty
  · rw [familyOf_setInsert, Set.mem_insert_iff]
    apply or_congr_left
    rw [iff_self_and]
    rintro rfl
    exact List.exists_mem_of_ne_nil grouping hEmpty
  · rw [or_iff_right]
    rintro ⟨rfl, a, ha⟩
    exact hEmpty (List.ne_nil_of_mem ha)

/-- A round of the loop over the wallet adds what is grouped in the transaction. -/
theorem familyOf_addGroupings
    {tx : CTransaction} {groupings : List (List CTxDestination)} {s : Set CTxDestination} :
    s ∈ familyOf (w.addGroupings book groupings tx) ↔
      s ∈ familyOf groupings ∨ s ∈ w.groupsOf book (w.FirstIsMine book) tx := by
  unfold CWallet.addGroupings CWallet.groupsOf
  rw [familyOf_groupLone, Set.mem_ofPred_eq, ← or_assoc]
  apply or_congr_left
  unfold CWallet.FirstIsMine
  cases hVin : tx.vin with
  | nil => simp
  | cons txin vin =>
      dsimp only
      split_ifs with hMine
      · rw [familyOf_groupTx, or_comm]
        simp [hMine]
      · simp [hMine]

theorem nil_notMem_addGroupings
    {tx : CTransaction} {groupings : List (List CTxDestination)} (h : [] ∉ groupings) :
    [] ∉ w.addGroupings book groupings tx := by
  intro hNil
  have hEmpty : (∅ : Set CTxDestination) ∈ familyOf (w.addGroupings book groupings tx) :=
    ⟨[], hNil, by ext a; simp⟩
  rcases familyOf_addGroupings.mp hEmpty with ⟨grouping, hOld, hSet⟩ | hNew
  · have hNone : grouping = [] := by
      apply List.eq_nil_iff_forall_not_mem.mpr
      intro a ha
      have hMem : a ∈ (∅ : Set CTxDestination) := hSet ▸ ha
      exact hMem
    exact h (hNone ▸ hOld)
  · rcases hNew with ⟨_, _, hNonempty⟩ | ⟨address, _, hSet⟩
    · exact Set.not_nonempty_empty hNonempty
    · exact Set.singleton_ne_empty address hSet.symm

theorem baseGroupings_groups :
    [] ∉ w.baseGroupings book ∧
      familyOf (w.baseGroupings book) = w.baseGroups book (w.FirstIsMine book) := by
  have hLoop : ∀ (entries : List (ℕ × WalletEntry)) (groupings : List (List CTxDestination)),
      [] ∉ groupings →
        [] ∉ entries.foldl (fun groupings walletEntry =>
          w.addGroupings book groupings walletEntry.2.wtx.toCTransaction) groupings ∧
        ∀ s, s ∈ familyOf (entries.foldl (fun groupings walletEntry =>
          w.addGroupings book groupings walletEntry.2.wtx.toCTransaction) groupings) ↔
          s ∈ familyOf groupings ∨ ∃ e ∈ entries,
            s ∈ w.groupsOf book (w.FirstIsMine book) e.2.wtx.toCTransaction := by
    intro entries
    induction entries with
    | nil => simp
    | cons e entries ih =>
        intro groupings hNil
        obtain ⟨hNil', hFamily⟩ := ih (w.addGroupings book groupings e.2.wtx.toCTransaction)
          (nil_notMem_addGroupings hNil)
        refine ⟨hNil', fun s => ?_⟩
        rw [List.foldl_cons, hFamily, familyOf_addGroupings, List.exists_mem_cons_iff, or_assoc]
  obtain ⟨hNil, hFamily⟩ := hLoop w.mapWallet.inKeyOrder [] (List.not_mem_nil)
  refine ⟨hNil, ?_⟩
  ext s
  refine (hFamily s).trans ?_
  have hStart : s ∉ familyOf ([] : List (List CTxDestination)) := by
    simp [familyOf]
  rw [or_iff_right hStart]
  constructor
  · rintro ⟨⟨hash, entry⟩, hEntry, hMem⟩
    refine ⟨hash, entry.wtx, ?_, hMem⟩
    rw [CWallet.get, Table.mem_inKeyOrder.mp hEntry]
    rfl
  · rintro ⟨hash, wtx, hGet, hMem⟩
    obtain ⟨entry, hLookup, rfl⟩ := Option.map_eq_some_iff.mp hGet
    exact ⟨(hash, entry), Table.mem_inKeyOrder.mpr hLookup, hMem⟩

end Loops

/-! ## The groupings are the components -/

/-- The sets that are returned are the components of what is grouped: the own input addresses of
each transaction whose first input is mine, with the change, and each own output address.  No
set is used or deleted after it was deleted, and all are. -/
theorem getAddressGroupings_components
    (book : AddressBook) (allocator : SetAllocator CTxDestination) (w : CWallet) :
    ∃ heap ret, w.getAddressGroupings book allocator = .ok (heap, ret) ∧ (∀ p, p ∉ heap) ∧
      AreComponents (w.baseGroups book (w.FirstIsMine book)) (familyOf ret) := by
  obtain ⟨hNil, hFamily⟩ := @baseGroupings_groups book w
  rw [← hFamily]
  exact mergedGroupings_components hNil

namespace Sample

/-- The wallet got two outputs, for two of its keys. -/
def twoKeysTx : CTransaction :=
  { coinbase 1000 11 100 with vout := [⟨60, keyHashScript 7⟩, ⟨40, keyHashScript 8⟩] }

/-- A transaction spends both, behind an input of somebody else. -/
def jointTx : CTransaction :=
  { twoKeysTx with
    vin := [⟨⟨5, 0⟩, [], UINT_MAX⟩, ⟨⟨twoKeysTx.getHash prims, 0⟩, [], UINT_MAX⟩,
      ⟨⟨twoKeysTx.getHash prims, 1⟩, [], UINT_MAX⟩]
    vout := [⟨100, keyHashScript 9⟩] }

def jointWallet : CWallet :=
  ((CWallet.empty false).insertTx (twoKeysTx.getHash prims)
    (CWalletTx.ofMerkleTx (CMerkleTx.ofTransaction twoKeysTx))).insertTx (jointTx.getHash prims)
    (CWalletTx.ofMerkleTx (CMerkleTx.ofTransaction jointTx))

def twoKeysBook : AddressBook where
  prims := scriptPrims
  keys := ⟨fun script => if script = keyHashScript 7 ∨ script = keyHashScript 8 then
    .ISMINE_SPENDABLE else .ISMINE_NO, 0⟩
  mapAddressBook := ∅

/-- An allocator that takes the address behind the last one. -/
def lastAllocator : SetAllocator CTxDestination where
  next := fun heap => heap.keys.foldr max 0 + 1
  fresh := by
    intro heap hMem
    have hBound : ∀ keys : List ℕ, ∀ p ∈ keys, p ≤ keys.foldr max 0 := by
      intro keys p hp
      induction keys with
      | nil => cases hp
      | cons q keys ih =>
          rcases List.mem_cons.mp hp with rfl | hp
          · exact le_max_left _ _
          · exact (ih hp).trans (le_max_right _ _)
    exact absurd (hBound heap.keys _ (AList.mem_keys.mp hMem)) (Nat.not_succ_le_self _)

theorem jointWallet_groupings :
    (jointWallet.getAddressGroupings twoKeysBook lastAllocator).map Prod.snd =
      .ok [[keyHash 7], [keyHash 8]] := by
  decide +kernel

theorem jointTx_owns {b : UInt8} {n : ℕ}
    (hInput : (⟨⟨twoKeysTx.getHash prims, n⟩, [], UINT_MAX⟩ : CTxIn) ∈ jointTx.vin)
    (hSpent : (jointWallet.get (twoKeysTx.getHash prims)).bind (fun prev => prev.vout[n]?) =
      some ⟨if n = 0 then 60 else 40, keyHashScript b⟩)
    (hMine : twoKeysBook.keys.isMineOut ⟨if n = 0 then 60 else 40, keyHashScript b⟩ = true)
    (hAddress : extractDestination scriptPrims (keyHashScript b) = some (keyHash b)) :
    jointWallet.OwnInput twoKeysBook jointTx (keyHash b) :=
  ⟨_, hInput, _, hSpent, hMine, hAddress⟩

/-- Own inputs behind an input of somebody else are not grouped. -/
theorem groupings_need_firstInput :
    ¬∀ (book : AddressBook) (allocator : SetAllocator CTxDestination) (w : CWallet),
      ∃ heap ret, w.getAddressGroupings book allocator = .ok (heap, ret) ∧ (∀ p, p ∉ heap) ∧
        AreComponents (w.baseGroups book fun _ => True) (familyOf ret) := by
  intro h
  obtain ⟨heap, ret, hRet, _, hComponents⟩ := h twoKeysBook lastAllocator jointWallet
  have hEval := jointWallet_groupings
  rw [hRet] at hEval
  obtain rfl : ret = [[keyHash 7], [keyHash 8]] := Except.ok.inj hEval
  have hFirst : jointWallet.OwnInput twoKeysBook jointTx (keyHash 7) :=
    jointTx_owns (n := 0) (by decide +kernel) (by decide +kernel) (by decide +kernel)
      (by decide +kernel)
  have hSecond : jointWallet.OwnInput twoKeysBook jointTx (keyHash 8) :=
    jointTx_owns (n := 1) (by decide +kernel) (by decide +kernel) (by decide +kernel)
      (by decide +kernel)
  have hGroup : jointWallet.inputGroup twoKeysBook jointTx ∈
      jointWallet.baseGroups twoKeysBook fun _ => True :=
    ⟨jointTx.getHash prims, CWalletTx.ofMerkleTx (CMerkleTx.ofTransaction jointTx),
      by decide +kernel, Or.inl ⟨trivial, rfl, keyHash 7, Or.inl hFirst⟩⟩
  have hLinked := Linked.of_shares ⟨_, hGroup, Or.inl hFirst, Or.inl hSecond⟩
  obtain ⟨s, ⟨grouping, hMem, rfl⟩, ha, hb⟩ := (hComponents.same_iff _ _).mpr hLinked
  have hApart : ∀ grouping ∈ [[keyHash 7], [keyHash 8]],
      ¬(keyHash 7 ∈ grouping ∧ keyHash 8 ∈ grouping) := by
    decide +kernel
  exact hApart grouping hMem ⟨ha, hb⟩

end Sample

end SocietyGold
