import SocietyGold.Support.Refinement

/-!
# The buffer of a stream

`CDataStream` keeps the bytes that have been read in front of the others until the buffer
is cleared or compacted, and remembers where the others begin in an `unsigned int`.  Seen
from outside it is a queue of bytes: writing appends to its end, reading takes from its
front, and bytes can be put back in front.
-/

namespace SocietyGold

open Support

/-! ## The buffer -/

/-- The buffer and the position of the first byte that has not been read. -/
structure CDataStream where
  vch : List UInt8
  nReadPos : ℕ
  le_size : nReadPos ≤ vch.length
  lt_wrap : nReadPos < 2 ^ 32
  deriving DecidableEq, Repr

namespace CDataStream

/-- The constructors, which copy some bytes or none. -/
def ofBytes (bytes : List UInt8) : CDataStream := ⟨bytes, 0, Nat.zero_le _, by norm_num⟩

/-- The bytes from `begin()` to `end()`. -/
def contents (ss : CDataStream) : List UInt8 := ss.vch.drop ss.nReadPos

def size (ss : CDataStream) : ℕ := ss.vch.length - ss.nReadPos

variable (ss : CDataStream)

@[simp] theorem length_contents : ss.contents.length = ss.size := by
  simp [contents, size]

/-- The same buffer, read up to another position. -/
def readTo (pos : ℕ) (hSize : pos ≤ ss.vch.length) (hWrap : pos < 2 ^ 32) : CDataStream :=
  ⟨ss.vch, pos, hSize, hWrap⟩

/-- `write`. -/
def write (pch : List UInt8) : CDataStream where
  vch := ss.vch ++ pch
  nReadPos := ss.nReadPos
  le_size := by
    have hSize := ss.le_size
    rw [List.length_append]
    omega
  lt_wrap := ss.lt_wrap

/-- `operator+=`. -/
def append (b : CDataStream) : CDataStream := ss.write b.contents

/-- `operator<<` for a stream: all of its buffer is written. -/
def shiftLeft (b : CDataStream) : CDataStream := ss.write b.vch

/-- Copy bytes from the read position on. -/
def bytesAt (nSize : ℕ) : Checked (List UInt8) :=
  if ss.nReadPos + nSize ≤ ss.vch.length then .ok ((ss.vch.drop ss.nReadPos).take nSize)
  else .error .outOfRange

/-- The position after some bytes, as an `unsigned int`. -/
def nReadPosNext (nSize : ℕ) : ℕ := (ss.nReadPos + nSize) % 2 ^ 32

theorem nReadPosNext_lt (nSize : ℕ) : ss.nReadPosNext nSize < 2 ^ 32 :=
  Nat.mod_lt _ (by norm_num)

/-- `read`. -/
def read (nSize : ℕ) : Checked (List UInt8 × CDataStream) :=
  if hEnd : ss.nReadPosNext nSize ≥ ss.vch.length then
    if ss.nReadPosNext nSize > ss.vch.length then .error .uncaughtException
    else do
      let pch ← ss.bytesAt nSize
      .ok (pch, ofBytes [])
  else do
    let pch ← ss.bytesAt nSize
    .ok (pch, ss.readTo (ss.nReadPosNext nSize) (not_le.mp hEnd).le (ss.nReadPosNext_lt nSize))

/-- `ignore`. -/
def ignore (nSize : ℤ) : Checked CDataStream :=
  if nSize < 0 then .error .assertionFailed
  else if hEnd : ss.nReadPosNext nSize.toNat ≥ ss.vch.length then
    if ss.nReadPosNext nSize.toNat > ss.vch.length then .error .uncaughtException
    else .ok (ofBytes [])
  else
    .ok (ss.readTo (ss.nReadPosNext nSize.toNat) (not_le.mp hEnd).le (ss.nReadPosNext_lt _))

/-- `erase` of some bytes from `begin()` on, or a fault if there are not so many. -/
def eraseFront (n : ℕ) : Checked CDataStream :=
  if hRange : n ≤ ss.size then
    if n = ss.size then .ok (ofBytes [])
    else .ok (ss.readTo (ss.nReadPosNext n)
      ((Nat.mod_le _ _).trans (by
        have hSize := ss.le_size
        unfold size at hRange
        omega)) (ss.nReadPosNext_lt n))
  else .error .outOfRange

/-- `erase` of the byte at `begin()`. -/
def eraseOne : Checked CDataStream :=
  if ss.size = 0 then .error .outOfRange
  else if hEnd : ss.nReadPosNext 1 ≥ ss.vch.length then .ok (ofBytes [])
  else .ok (ss.readTo (ss.nReadPosNext 1) (not_le.mp hEnd).le (ss.nReadPosNext_lt 1))

/-- `memcpy` of bytes to a position before the bytes that are left, which begin there
afterwards. -/
def overwriteAt (pos : ℕ) (bytes : List UInt8) (hRoom : pos + bytes.length ≤ ss.vch.length)
    (hPos : pos ≤ ss.nReadPos) : CDataStream where
  vch := ss.vch.take pos ++ bytes ++ ss.vch.drop (pos + bytes.length)
  nReadPos := pos
  le_size := by
    simp only [List.length_append, List.length_take, List.length_drop]
    omega
  lt_wrap := hPos.trans_lt ss.lt_wrap

/-- `vch.insert` at the read position. -/
def insertAtReadPos (bytes : List UInt8) : CDataStream where
  vch := ss.vch.take ss.nReadPos ++ bytes ++ ss.vch.drop ss.nReadPos
  nReadPos := ss.nReadPos
  le_size := by
    have hSize := ss.le_size
    simp only [List.length_append, List.length_take, List.length_drop]
    omega
  lt_wrap := ss.lt_wrap

/-- `insert` at `begin()`: bytes that have been read are overwritten if the length, as an
`unsigned int`, is not larger than their number. -/
def insertFront (bytes : List UInt8) : Checked CDataStream :=
  if bytes.length % 2 ^ 32 ≤ ss.nReadPos then
    let pos := ss.nReadPos - bytes.length % 2 ^ 32
    if hRoom : pos + bytes.length ≤ ss.vch.length then
      .ok (ss.overwriteAt pos bytes hRoom (Nat.sub_le _ _))
    else .error .outOfRange
  else .ok (ss.insertAtReadPos bytes)

/-- `Compact`. -/
def compact : CDataStream := ofBytes (ss.vch.drop ss.nReadPos)

/-! ## What the operations do to the contents -/

@[simp] theorem contents_ofBytes (bytes : List UInt8) : (ofBytes bytes).contents = bytes := rfl

theorem contents_write (pch : List UInt8) : (ss.write pch).contents = ss.contents ++ pch :=
  List.drop_append_of_le_length ss.le_size

theorem contents_compact : ss.compact.contents = ss.contents := rfl

variable {ss} {n : ℕ}

theorem nReadPos_add_le (h : n ≤ ss.size) : ss.nReadPos + n ≤ ss.vch.length := by
  have hSize := ss.le_size
  unfold size at h
  omega

/-- The position is exact as long as it does not wrap. -/
theorem nReadPosNext_eq_iff : ss.nReadPosNext n = ss.nReadPos + n ↔ ss.nReadPos + n < 2 ^ 32 := by
  constructor
  · intro hEq
    rw [← hEq]
    exact ss.nReadPosNext_lt n
  · exact Nat.mod_eq_of_lt

/-- Some bytes are gone from the front exactly if the position has moved by as many. -/
theorem contents_readTo_iff
    (h : n ≤ ss.size) {pos : ℕ} (hSize : pos ≤ ss.vch.length) (hWrap : pos < 2 ^ 32) :
    (ss.readTo pos hSize hWrap).contents = ss.contents.drop n ↔ pos = ss.nReadPos + n := by
  have hContents : (ss.readTo pos hSize hWrap).contents = ss.vch.drop pos := rfl
  rw [hContents, contents, List.drop_drop]
  constructor
  · intro hEq
    have hLength := congrArg List.length hEq
    have hBound := nReadPos_add_le h
    rw [List.length_drop, List.length_drop] at hLength
    omega
  · rintro rfl
    rfl

/-- At the end of the buffer nothing wraps. -/
theorem lt_wrap_of_end
    (h : n ≤ ss.size) (hEnd : ss.nReadPosNext n ≥ ss.vch.length) :
    ss.nReadPosNext n = ss.vch.length ∧ n = ss.size ∧ ss.nReadPos + n < 2 ^ 32 := by
  have hBound := nReadPos_add_le h
  have hMod : ss.nReadPosNext n ≤ ss.nReadPos + n := Nat.mod_le _ _
  have hWrap := ss.nReadPosNext_lt n
  refine ⟨by omega, ?_, by omega⟩
  unfold size
  omega

theorem drop_size_contents : ss.contents.drop ss.size = [] := by
  rw [← length_contents, List.drop_length]

theorem bytesAt_of_le (h : n ≤ ss.size) : ss.bytesAt n = .ok (ss.contents.take n) := by
  rw [bytesAt, if_pos (nReadPos_add_le h)]
  rfl

/-- Reading delivers the front of the queue, and removes it unless the position wraps. -/
theorem read_spec (h : n ≤ ss.size) :
    ∃ ss', ss.read n = .ok (ss.contents.take n, ss') ∧
      (ss'.contents = ss.contents.drop n ↔ ss.nReadPos + n < 2 ^ 32) := by
  unfold read
  rw [bytesAt_of_le h]
  by_cases hEnd : ss.nReadPosNext n ≥ ss.vch.length
  · obtain ⟨hNext, hAll, hWrap⟩ := lt_wrap_of_end h hEnd
    rw [dif_pos hEnd, if_neg (by omega)]
    refine ⟨_, rfl, iff_of_true ?_ hWrap⟩
    rw [hAll, drop_size_contents, contents_ofBytes]
  · rw [dif_neg hEnd]
    exact ⟨_, rfl, (contents_readTo_iff h _ _).trans nReadPosNext_eq_iff⟩

theorem ignore_spec (h : n ≤ ss.size) :
    ∃ ss', ss.ignore n = .ok ss' ∧
      (ss'.contents = ss.contents.drop n ↔ ss.nReadPos + n < 2 ^ 32) := by
  unfold ignore
  rw [if_neg (by omega)]
  simp only [Int.toNat_natCast]
  by_cases hEnd : ss.nReadPosNext n ≥ ss.vch.length
  · obtain ⟨hNext, hAll, hWrap⟩ := lt_wrap_of_end h hEnd
    rw [dif_pos hEnd, if_neg (by omega)]
    refine ⟨_, rfl, iff_of_true ?_ hWrap⟩
    rw [hAll, drop_size_contents, contents_ofBytes]
  · rw [dif_neg hEnd]
    exact ⟨_, rfl, (contents_readTo_iff h _ _).trans nReadPosNext_eq_iff⟩

theorem eraseFront_spec (h : n ≤ ss.size) :
    ∃ ss', ss.eraseFront n = .ok ss' ∧
      (ss'.contents = ss.contents.drop n ↔ n = ss.size ∨ ss.nReadPos + n < 2 ^ 32) := by
  unfold eraseFront
  rw [dif_pos h]
  by_cases hAll : n = ss.size
  · rw [if_pos hAll]
    refine ⟨_, rfl, iff_of_true ?_ (Or.inl hAll)⟩
    rw [hAll, drop_size_contents, contents_ofBytes]
  · rw [if_neg hAll]
    refine ⟨_, rfl, ?_⟩
    rw [or_iff_right hAll]
    exact (contents_readTo_iff h _ _).trans nReadPosNext_eq_iff

theorem eraseOne_spec (h : 1 ≤ ss.size) :
    ∃ ss', ss.eraseOne = .ok ss' ∧
      (ss'.contents = ss.contents.drop 1 ↔ ss.nReadPos + 1 < 2 ^ 32) := by
  unfold eraseOne
  rw [if_neg (by omega)]
  by_cases hEnd : ss.nReadPosNext 1 ≥ ss.vch.length
  · obtain ⟨-, hAll, hWrap⟩ := lt_wrap_of_end h hEnd
    rw [dif_pos hEnd]
    refine ⟨_, rfl, iff_of_true ?_ hWrap⟩
    rw [hAll, drop_size_contents, contents_ofBytes]
  · rw [dif_neg hEnd]
    exact ⟨_, rfl, (contents_readTo_iff h _ _).trans nReadPosNext_eq_iff⟩

theorem contents_overwriteAt
    {pos : ℕ} {bytes : List UInt8} (hRoom : pos + bytes.length ≤ ss.vch.length)
    (hPos : pos ≤ ss.nReadPos) :
    (ss.overwriteAt pos bytes hRoom hPos).contents = bytes ++ ss.vch.drop (pos + bytes.length) := by
  have hTake : (ss.vch.take pos).length = pos := List.length_take_of_le (by omega)
  exact (congrArg (List.drop pos) (List.append_assoc _ _ _)).trans (List.drop_left' hTake)

theorem contents_insertAtReadPos (bytes : List UInt8) :
    (ss.insertAtReadPos bytes).contents = bytes ++ ss.contents := by
  have hTake : (ss.vch.take ss.nReadPos).length = ss.nReadPos :=
    List.length_take_of_le ss.le_size
  exact (congrArg (List.drop ss.nReadPos) (List.append_assoc _ _ _)).trans (List.drop_left' hTake)

/-- Bytes come to stand in front of the others unless their number wraps and seems to fit
into the space of those that have been read. -/
theorem insertFront_spec (bytes : List UInt8) :
    (∃ ss', ss.insertFront bytes = .ok ss' ∧ ss'.contents = bytes ++ ss.contents) ↔
      (bytes.length % 2 ^ 32 ≤ ss.nReadPos → bytes.length < 2 ^ 32) := by
  unfold insertFront
  by_cases hSpecial : bytes.length % 2 ^ 32 ≤ ss.nReadPos
  · rw [if_pos hSpecial, imp_iff_right hSpecial]
    have hSize := ss.le_size
    have hWraps : bytes.length < 2 ^ 32 ↔ bytes.length % 2 ^ 32 = bytes.length :=
      ⟨Nat.mod_eq_of_lt, fun hEq => hEq ▸ Nat.mod_lt _ (by norm_num)⟩
    have hMod := Nat.mod_le bytes.length (2 ^ 32)
    rw [hWraps]
    constructor
    · rintro ⟨ss', hInsert, hContents⟩
      dsimp only at hInsert
      split_ifs at hInsert with hRoom
      rw [← Except.ok.inj hInsert, contents_overwriteAt, List.append_cancel_left_eq] at hContents
      have hLength := congrArg List.length hContents
      rw [contents, List.length_drop, List.length_drop] at hLength
      omega
    · intro hEq
      have hAfter : ss.nReadPos - bytes.length % 2 ^ 32 + bytes.length = ss.nReadPos := by
        omega
      dsimp only
      rw [dif_pos (hAfter.le.trans hSize)]
      refine ⟨_, rfl, ?_⟩
      rw [contents_overwriteAt, hAfter]
      rfl
  · rw [if_neg hSpecial]
    refine iff_of_true ⟨_, rfl, contents_insertAtReadPos bytes⟩ ?_
    intro hLe
    exact absurd hLe hSpecial

end CDataStream

/-! ## Runs of operations -/

/-- An operation on a stream, with its arguments. -/
inductive StreamOp
  | write (pch : List UInt8)
  | read (nSize : ℕ)
  | ignore (nSize : ℤ)
  | eraseFront (n : ℕ)
  | eraseOne
  | insertFront (bytes : List UInt8)
  | compact
  | append (b : CDataStream)
  | shiftLeft (b : CDataStream)

namespace StreamOp

/-- What the operation delivers, which is nothing unless it reads, and the stream after
it. -/
def step : StreamOp → CDataStream → Checked (List UInt8 × CDataStream)
  | write pch, ss => .ok ([], ss.write pch)
  | read nSize, ss => ss.read nSize
  | ignore nSize, ss => (ss.ignore nSize).map fun ss => ([], ss)
  | eraseFront n, ss => (ss.eraseFront n).map fun ss => ([], ss)
  | eraseOne, ss => ss.eraseOne.map fun ss => ([], ss)
  | insertFront bytes, ss => (ss.insertFront bytes).map fun ss => ([], ss)
  | compact, ss => .ok ([], ss.compact)
  | append b, ss => .ok ([], ss.append b)
  | shiftLeft b, ss => .ok ([], ss.shiftLeft b)

/-- What the operation is for: `<<` concatenates like `+=`. -/
def queueOp : StreamOp → QueueOp UInt8
  | write pch => .pushBack pch
  | read nSize => .pop nSize
  | ignore nSize => .discard nSize
  | eraseFront n => .discard n
  | eraseOne => .discard 1
  | insertFront bytes => .pushFront bytes
  | compact => .keep
  | append b => .pushBack b.contents
  | shiftLeft b => .pushBack b.contents

/-- The condition on an operation: positions and lengths do not wrap, and what is written
by `<<` has not been read in part. -/
def Unwrapped : StreamOp → CDataStream → Prop
  | read nSize, ss => ss.nReadPos + nSize < 2 ^ 32
  | ignore nSize, ss => ss.nReadPos + nSize.toNat < 2 ^ 32
  | eraseFront n, ss => n = ss.size ∨ ss.nReadPos + n < 2 ^ 32
  | eraseOne, ss => ss.nReadPos + 1 < 2 ^ 32
  | insertFront bytes, ss => bytes.length % 2 ^ 32 ≤ ss.nReadPos → bytes.length < 2 ^ 32
  | shiftLeft b, _ => b.nReadPos = 0
  | _, _ => True

/-- The operation delivers and leaves what it does on the queue. -/
def ActsAsQueue (op : StreamOp) (ss : CDataStream) (r queue : List UInt8) : Prop :=
  ∃ ss', op.step ss = .ok (r, ss') ∧ ss'.contents = queue

variable {ss : CDataStream} {r queue : List UInt8}

/-- There is one outcome, and it acts as its contents say. -/
theorem actsAsQueue_of_step
    {op : StreamOp} {after : CDataStream} (hStep : op.step ss = .ok (r, after)) :
    op.ActsAsQueue ss r queue ↔ after.contents = queue := by
  constructor
  · rintro ⟨ss', hStep', hSame⟩
    rw [hStep] at hStep'
    rwa [(Prod.mk.inj (Except.ok.inj hStep')).2]
  · intro hSame
    exact ⟨after, hStep, hSame⟩

/-- Everything but the front that has been read is written by `<<` and by `+=` alike. -/
theorem contents_shiftLeft_iff (ss b : CDataStream) :
    (ss.shiftLeft b).contents = ss.contents ++ b.contents ↔ b.nReadPos = 0 := by
  have hContents : (ss.shiftLeft b).contents = ss.contents ++ b.vch := ss.contents_write b.vch
  rw [hContents, List.append_cancel_left_eq]
  constructor
  · intro hEq
    have hLength := congrArg List.length hEq
    have hSize := b.le_size
    rw [CDataStream.length_contents, CDataStream.size] at hLength
    omega
  · intro hStart
    rw [CDataStream.contents, hStart, List.drop_zero]

/-- An operation that the queue allows acts as on the queue exactly under the condition. -/
theorem actsAsQueue_iff
    (op : StreamOp) (h : op.queueOp.apply ss.contents = some (r, queue)) :
    op.ActsAsQueue ss r queue ↔ op.Unwrapped ss := by
  have hLength := ss.length_contents
  cases op with
  | write pch =>
      obtain ⟨rfl, rfl⟩ := Prod.mk.inj (Option.some.inj h)
      exact iff_of_true ⟨_, rfl, ss.contents_write pch⟩ trivial
  | read nSize =>
      simp only [queueOp, QueueOp.apply] at h
      split_ifs at h with hEnough
      obtain ⟨rfl, rfl⟩ := Prod.mk.inj (Option.some.inj h)
      rw [hLength] at hEnough
      obtain ⟨after, hRead, hContents⟩ := CDataStream.read_spec hEnough
      have hStep : (read nSize).step ss = .ok (ss.contents.take nSize, after) := hRead
      exact (actsAsQueue_of_step hStep).trans hContents
  | ignore nSize =>
      simp only [queueOp, QueueOp.apply] at h
      split_ifs at h with hEnough
      obtain ⟨rfl, rfl⟩ := Prod.mk.inj (Option.some.inj h)
      obtain ⟨n, rfl⟩ := Int.eq_ofNat_of_zero_le hEnough.1
      rw [hLength] at hEnough
      obtain ⟨after, hIgnore, hContents⟩ := @CDataStream.ignore_spec ss n (by omega)
      exact (actsAsQueue_of_step (by rw [step, hIgnore]; rfl)).trans hContents
  | eraseFront n =>
      simp only [queueOp, QueueOp.apply] at h
      split_ifs at h with hEnough
      obtain ⟨rfl, rfl⟩ := Prod.mk.inj (Option.some.inj h)
      rw [hLength] at hEnough
      obtain ⟨after, hErase, hContents⟩ := @CDataStream.eraseFront_spec ss n (by omega)
      exact (actsAsQueue_of_step (by rw [step, hErase]; rfl)).trans hContents
  | eraseOne =>
      simp only [queueOp, QueueOp.apply] at h
      split_ifs at h with hEnough
      obtain ⟨rfl, rfl⟩ := Prod.mk.inj (Option.some.inj h)
      rw [hLength] at hEnough
      obtain ⟨after, hErase, hContents⟩ := @CDataStream.eraseOne_spec ss (by omega)
      exact (actsAsQueue_of_step (by rw [step, hErase]; rfl)).trans hContents
  | insertFront bytes =>
      obtain ⟨rfl, rfl⟩ := Prod.mk.inj (Option.some.inj h)
      refine Iff.trans ?_ (CDataStream.insertFront_spec bytes)
      unfold ActsAsQueue
      rw [step]
      cases hInsert : ss.insertFront bytes with
      | error e => simp [Except.map]
      | ok after => simp [Except.map]
  | compact =>
      obtain ⟨rfl, rfl⟩ := Prod.mk.inj (Option.some.inj h)
      exact iff_of_true ⟨_, rfl, ss.contents_compact⟩ trivial
  | append b =>
      obtain ⟨rfl, rfl⟩ := Prod.mk.inj (Option.some.inj h)
      exact iff_of_true ⟨_, rfl, ss.contents_write b.contents⟩ trivial
  | shiftLeft b =>
      obtain ⟨rfl, rfl⟩ := Prod.mk.inj (Option.some.inj h)
      exact (actsAsQueue_of_step rfl).trans (contents_shiftLeft_iff ss b)

/-- A stream that starts with some bytes acts as the queue of them, for as long as the
queue allows the operations. -/
def ActAsQueue (ops : List StreamOp) (bytes : List UInt8) : Prop :=
  Refines step (fun op => op.queueOp.apply) CDataStream.contents ops (.ofBytes bytes) bytes

/-- No position or length wraps in the run, and `<<` writes no stream that has been read in
part. -/
def StayUnwrapped (ops : List StreamOp) (bytes : List UInt8) : Prop :=
  HoldsAlong step (fun op => op.queueOp.apply) CDataStream.contents Unwrapped ops (.ofBytes bytes)

end StreamOp

/-- From any constructor and through any operations a stream acts as a queue of bytes
exactly as long as no position or length wraps and no stream is written by `<<` that has
been read in part. -/
theorem dataStream_queue_iff
    (bytes : List UInt8) (ops : List StreamOp) :
    StreamOp.ActAsQueue ops bytes ↔ StreamOp.StayUnwrapped ops bytes := by
  apply refines_iff_holdsAlong
  intro op ss r queue hSpec
  exact op.actsAsQueue_iff hSpec

namespace Sample

/-- Two bytes of which the first one has been read. -/
def partlyRead : CDataStream := ⟨[1, 2], 1, by decide, by decide⟩

/-- What has been read is written again. -/
theorem partlyRead_repeated :
    (CDataStream.ofBytes [1, 2]).read 1 = .ok ([1], partlyRead) ∧
      ((CDataStream.ofBytes []).append partlyRead).contents = [2] ∧
      ((CDataStream.ofBytes []).shiftLeft partlyRead).contents = [1, 2] ∧
      ¬StreamOp.ActAsQueue [.shiftLeft partlyRead] [] := by
  refine ⟨by decide, by decide, by decide, ?_⟩
  rintro ⟨-, hAct⟩
  obtain ⟨ss', hStep, hLater⟩ := hAct [] [2] rfl
  have hSame : (CDataStream.ofBytes []).shiftLeft partlyRead = ss' :=
    (Prod.mk.inj (Except.ok.inj hStep)).2
  have hContents : ss'.contents = [2] := hLater
  rw [← hSame] at hContents
  exact absurd hContents (by decide)

end Sample

end SocietyGold
