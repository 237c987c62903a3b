import SocietyGold.CheckSig
import SocietyGold.Support.Trace

/-!
# The key pool

The wallet keeps keys in reserve.  The wallet file has a record for each of them under an index,
and `setKeyPool` holds the indices that are free.  A reservation takes the least index out of
the set and gives it back, or keeps the key and erases the record.  New indices follow the
largest free one: the indices that are reserved are not in the set.
-/

namespace SocietyGold

open Support

/-! ## Data -/

structure CKeyPool where
  nTime : ℤ
  vchPubKey : CPubKey
  deriving DecidableEq

/-- A key that the default constructor makes. -/
def CPubKey.invalid : CPubKey := ⟨[], CPubKey.length_nil⟩

structure CReserveKey where
  nIndex : ℤ
  vchPubKey : CPubKey
  deriving DecidableEq

def CReserveKey.new : CReserveKey := ⟨-1, CPubKey.invalid⟩

/-- The part of the wallet that has to do with the key pool.  Writing to the wallet file
succeeds. -/
structure KeyPool where
  fLocked : Bool
  /-- The ids of the keys in the key store. -/
  keystore : Finset ℕ
  setKeyPool : Finset ℤ
  /-- The pool records of the wallet file. -/
  records : ℤ → Option CKeyPool
  vchDefaultKey : CPubKey
  /-- The `CReserveKey` objects. -/
  holders : ℕ → CReserveKey
  /-- `nIndex` of the calls of `GetOldestKeyPoolTime` that have reserved and not yet returned. -/
  oldest : ℕ → ℤ
  /-- The keys that were taken out of the pool for good. -/
  kept : List CPubKey

/-- What a call takes from outside. -/
structure KeyPoolContext where
  /-- `GetTime()`. -/
  now : ℤ
  fLiteMode : Bool
  /-- The argument `-keypool`. -/
  keypool : Option ℤ
  /-- The keys that `GenerateNewKey` makes during the call, in order. -/
  newKeys : ℕ → CPubKey

/-- The number of keys that `-keypool` asks for. -/
def KeyPoolContext.nKeys (ctx : KeyPoolContext) : ℕ :=
  (max (ctx.keypool.getD (if ctx.fLiteMode then 10 else 100)) 0).toNat

namespace KeyPool

variable (P : ScriptPrimitives) (ctx : KeyPoolContext)

/-! ## Filling the pool -/

/-- `WritePool` and the insertion of the index. -/
def put (nIndex : ℤ) (keypool : CKeyPool) (s : KeyPool) : KeyPool :=
  { s with
    records := Function.update s.records nIndex (some keypool)
    setKeyPool := insert nIndex s.setKeyPool }

/-- `GenerateNewKey`, as far as the key store goes. -/
def addKey (pubkey : CPubKey) (s : KeyPool) : KeyPool :=
  { s with keystore := insert (pubkey.getID P) s.keystore }

/-- The index after the largest free one. -/
def nextIndex (s : KeyPool) : ℤ :=
  if h : s.setKeyPool.Nonempty then s.setKeyPool.max' h + 1 else 1

/-- So many new keys, from the one with number `j` on. -/
def topUpLoop : (remaining j : ℕ) → KeyPool → KeyPool
  | 0, _, s => s
  | remaining + 1, j, s =>
      topUpLoop remaining (j + 1)
        ((s.addKey P (ctx.newKeys j)).put s.nextIndex ⟨ctx.now, ctx.newKeys j⟩)

/-- How many keys `TopUpKeyPool` makes; the target is an `unsigned int`. -/
def missing (nSize : ℕ) (s : KeyPool) : ℕ :=
  let nTargetSize := if nSize > 0 then nSize else ctx.nKeys % 2 ^ 32
  (nTargetSize + 1) % 2 ^ 32 - s.setKeyPool.card

def topUpKeyPool (nSize : ℕ) (s : KeyPool) : Bool × KeyPool :=
  if s.fLocked then (false, s) else (true, s.topUpLoop P ctx (s.missing ctx nSize) 0)

/-- The loop of `NewKeyPool`. -/
def fillLoop : (remaining i : ℕ) → KeyPool → KeyPool
  | 0, _, s => s
  | remaining + 1, i, s =>
      fillLoop remaining (i + 1)
        ((s.addKey P (ctx.newKeys i)).put (i + 1 : ℕ) ⟨ctx.now, ctx.newKeys i⟩)

/-- The free indices lose their records. -/
def eraseFree (s : KeyPool) : KeyPool :=
  { s with
    records := fun nIndex => if nIndex ∈ s.setKeyPool then none else s.records nIndex
    setKeyPool := ∅ }

def newKeyPool (s : KeyPool) : Bool × KeyPool :=
  if s.fLocked then (false, s.eraseFree) else (true, s.eraseFree.fillLoop P ctx ctx.nKeys 0)

def addReserveKey (keypool : CKeyPool) (s : KeyPool) : Checked KeyPool :=
  if s.setKeyPool.Nonempty then .ok (s.put s.nextIndex keypool) else .error .outOfRange

/-! ## Reserving -/

/-- The part of `ReserveKeyFromKeyPool` after the pool was filled. -/
def takeLeast (s : KeyPool) : Checked (Option (ℤ × CKeyPool) × KeyPool) :=
  if h : s.setKeyPool.Nonempty then
    let nIndex := s.setKeyPool.min' h
    match s.records nIndex with
    | none => .error .uncaughtException
    | some keypool =>
        if keypool.vchPubKey.getID P ∉ s.keystore then .error .uncaughtException
        else if !keypool.vchPubKey.isValid then .error .assertionFailed
        else .ok (some (nIndex, keypool), { s with setKeyPool := s.setKeyPool.erase nIndex })
  else .ok (none, s)

/-- `ReserveKeyFromKeyPool`; `none` stands for the index -1. -/
def reserveKeyFromKeyPool (s : KeyPool) : Checked (Option (ℤ × CKeyPool) × KeyPool) :=
  takeLeast P (s.topUpKeyPool P ctx 0).2

def setHolder (h : ℕ) (holder : CReserveKey) (s : KeyPool) : KeyPool :=
  { s with holders := Function.update s.holders h holder }

def setOldest (t : ℕ) (nIndex : ℤ) (s : KeyPool) : KeyPool :=
  { s with oldest := Function.update s.oldest t nIndex }

/-- `CReserveKey::GetReservedKey`. -/
def getReservedKey (h : ℕ) (s : KeyPool) : Checked (Bool × KeyPool) :=
  if (s.holders h).nIndex = -1 then do
    let reserved ← s.reserveKeyFromKeyPool P ctx
    match reserved.1 with
    | some (nIndex, keypool) =>
        .ok (true, reserved.2.setHolder h ⟨nIndex, keypool.vchPubKey⟩)
    | none =>
        if reserved.2.vchDefaultKey.isValid then
          .ok (true, reserved.2.setHolder h ⟨-1, reserved.2.vchDefaultKey⟩)
        else .ok (false, reserved.2)
  else if !(s.holders h).vchPubKey.isValid then .error .assertionFailed
  else .ok (true, s)

/-- `CWallet::KeepKey`, with the key that is kept. -/
def keepIndex (nIndex : ℤ) (pubkey : CPubKey) (s : KeyPool) : KeyPool :=
  { s with
    records := Function.update s.records nIndex none
    kept := s.kept ++ [pubkey] }

/-- `CWallet::ReturnKey`. -/
def returnIndex (nIndex : ℤ) (s : KeyPool) : KeyPool :=
  { s with setKeyPool := insert nIndex s.setKeyPool }

/-- `CReserveKey::KeepKey`. -/
def keepKey (h : ℕ) (s : KeyPool) : KeyPool :=
  let holder := s.holders h
  (if holder.nIndex ≠ -1 then s.keepIndex holder.nIndex holder.vchPubKey else s).setHolder h .new

/-- `CReserveKey::ReturnKey`. -/
def returnKey (h : ℕ) (s : KeyPool) : KeyPool :=
  let holder := s.holders h
  (if holder.nIndex ≠ -1 then s.returnIndex holder.nIndex else s).setHolder h .new

def getKeyFromPool (s : KeyPool) : Checked (Option CPubKey × KeyPool) := do
  let reserved ← s.reserveKeyFromKeyPool P ctx
  match reserved.1 with
  | some (nIndex, keypool) =>
      .ok (some keypool.vchPubKey, reserved.2.keepIndex nIndex keypool.vchPubKey)
  | none =>
      if reserved.2.fLocked then .ok (none, reserved.2)
      else
        .ok (some (ctx.newKeys 0),
          { reserved.2.addKey P (ctx.newKeys 0) with
            kept := reserved.2.kept ++ [ctx.newKeys 0] })

/-- The first part of `GetOldestKeyPoolTime`, in a thread that is not in the call already. -/
def oldestReserve (t : ℕ) (s : KeyPool) : Checked KeyPool :=
  if s.oldest t ≠ -1 then .ok s
  else do
    let reserved ← s.reserveKeyFromKeyPool P ctx
    match reserved.1 with
    | some (nIndex, _) => .ok (reserved.2.setOldest t nIndex)
    | none => .ok reserved.2

/-- Its second part, which takes the lock anew. -/
def oldestReturn (t : ℕ) (s : KeyPool) : KeyPool :=
  (if s.oldest t ≠ -1 then s.returnIndex (s.oldest t) else s).setOldest t (-1)

end KeyPool

/-! ## Calls -/

/-- A step of one of the threads that use the pool.  An object that goes out of scope returns
its key. -/
inductive KeyPoolCall
  | getReservedKey (ctx : KeyPoolContext) (h : ℕ)
  | keepKey (h : ℕ)
  | returnKey (h : ℕ)
  | topUpKeyPool (ctx : KeyPoolContext) (nSize : ℕ)
  | newKeyPool (ctx : KeyPoolContext)
  | addReserveKey (keypool : CKeyPool)
  | getKeyFromPool (ctx : KeyPoolContext)
  | oldestReserve (ctx : KeyPoolContext) (t : ℕ)
  | oldestReturn (t : ℕ)
  | lock
  | unlock

def KeyPoolCall.run (P : ScriptPrimitives) : KeyPoolCall → KeyPool → Checked KeyPool
  | .getReservedKey ctx h, s => do
      let result ← s.getReservedKey P ctx h
      .ok result.2
  | .keepKey h, s => .ok (s.keepKey h)
  | .returnKey h, s => .ok (s.returnKey h)
  | .topUpKeyPool ctx nSize, s => .ok (s.topUpKeyPool P ctx nSize).2
  | .newKeyPool ctx, s => .ok (s.newKeyPool P ctx).2
  | .addReserveKey keypool, s => s.addReserveKey keypool
  | .getKeyFromPool ctx, s => do
      let result ← s.getKeyFromPool P ctx
      .ok result.2
  | .oldestReserve ctx t, s => s.oldestReserve P ctx t
  | .oldestReturn t, s => .ok (s.oldestReturn t)
  | .lock, s => .ok { s with fLocked := true }
  | .unlock, s => .ok { s with fLocked := false }

/-- A wallet before its first key. -/
def KeyPool.initial (fLocked : Bool) (keystore : Finset ℕ) (vchDefaultKey : CPubKey) : KeyPool where
  fLocked := fLocked
  keystore := keystore
  setKeyPool := ∅
  records _ := none
  vchDefaultKey := vchDefaultKey
  holders _ := .new
  oldest _ := -1
  kept := []

end SocietyGold
