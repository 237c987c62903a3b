import SocietyGold.ScriptRuns

/-!
# Building a script and reading it back

`operator<<` appends an opcode, or a byte vector behind the shortest announcement of its
size.  `GetOp` takes them off again one by one.  It compares the size of a push with the
remaining size as an `unsigned int`, so in a script of four gigabytes a push can be taken
for truncated; in any shorter script it is as `getOp2`.
-/

namespace SocietyGold

namespace CScript

/-! ## The code -/

/-- What can be appended to a script. -/
inductive ScriptItem
  | opcode (opcode : Opcodetype)
  | data (vch : Valtype)
  deriving DecidableEq, Repr

/-- Opcodes above the pushes, and vectors whose size is an `unsigned int`. -/
def ScriptItem.WellFormed : ScriptItem → Prop
  | .opcode op => OP_PUSHDATA4 < op
  | .data vch => vch.length < 2 ^ 32

/-- `operator<<`. -/
def appendItem (script : CScript) : ScriptItem → CScript
  | .opcode opcode => script ++ [opcode]
  | .data vch => script.pushBytes vch

/-- The script that is built from items. -/
def build (items : List ScriptItem) : CScript := items.foldl appendItem []

/-- `GetOp`, with the remaining size as the `unsigned int` that the code compares. -/
def getOp (script : CScript) : GetOpResult :=
  match script with
  | [] => ⟨false, OP_INVALIDOPCODE, [], []⟩
  | opcode :: rest =>
      if opcode ≤ OP_PUSHDATA4 then
        match pushSize opcode rest with
        | (none, rest) => ⟨false, OP_INVALIDOPCODE, [], rest⟩
        | (some nSize, rest) =>
            if rest.length % 2 ^ 32 < nSize then ⟨false, OP_INVALIDOPCODE, [], rest⟩
            else ⟨true, opcode, rest.take nSize, rest.drop nSize⟩
      else ⟨true, opcode, [], rest⟩

/-- The item that a call of `GetOp` delivers. -/
def itemOf (op : GetOpResult) : ScriptItem :=
  if op.opcodeRet ≤ OP_PUSHDATA4 then .data op.vchRet else .opcode op.opcodeRet

/-- Call `GetOp` until the end: the items, unless a call fails before. -/
def readItems : (fuel : ℕ) → CScript → Option (List ScriptItem)
  | 0, script => if script = [] then some [] else none
  | fuel + 1, script =>
      if script = [] then some []
      else
        let op := getOp script
        if op.fRet then (readItems fuel op.rest).map (itemOf op :: ·) else none

/-- The items of a whole script. -/
def readBack (script : CScript) : Option (List ScriptItem) := readItems script.length script

/-! ## One call -/

theorem pushSize_suffix (opcode : Opcodetype) (rest : CScript) :
    (pushSize opcode rest).2 <:+ rest := by
  have hOperand (width : ℕ) : (sizeOperand width rest).2 <:+ rest := by
    unfold sizeOperand
    split_ifs
    · exact List.suffix_refl rest
    · exact List.drop_suffix width rest
  unfold pushSize
  split_ifs
  · exact List.suffix_refl rest
  all_goals exact hOperand _

/-- A call that starts before the end moves on by at least one byte and stays within the
script, whether it succeeds or fails. -/
theorem getOp_advances {script : CScript} (h : script ≠ []) :
    ∃ bytes, bytes ≠ [] ∧ script = bytes ++ (getOp script).rest := by
  cases script with
  | nil => exact absurd rfl h
  | cons opcode rest =>
      suffices hSuffix : (getOp (opcode :: rest)).rest <:+ rest by
        obtain ⟨bytes, hBytes⟩ := hSuffix
        exact ⟨opcode :: bytes, by simp, by rw [List.cons_append, hBytes]⟩
      have hAfter := pushSize_suffix opcode rest
      unfold getOp
      dsimp only
      split_ifs with hPush
      · rcases hSize : pushSize opcode rest with ⟨_ | nSize, after⟩
        · rw [hSize] at hAfter
          exact hAfter
        · rw [hSize] at hAfter
          dsimp only
          split_ifs
          · exact hAfter
          · exact (List.drop_suffix nSize after).trans hAfter
      · exact List.suffix_refl rest

theorem getOp_nil : (getOp []).fRet = false := rfl

/-! ## One item -/

/-- The size of a vector, as the code finds it with so many bytes after the vector. -/
def SizeFits (vch : Valtype) (after : ℕ) : Prop := vch.length ≤ (vch.length + after) % 2 ^ 32

theorem getOp_opcode {opcode : Opcodetype} (h : OP_PUSHDATA4 < opcode) (rest : CScript) :
    getOp (opcode :: rest) = ⟨true, opcode, [], rest⟩ := by
  unfold getOp
  dsimp only
  rw [if_neg (UInt8.not_le.mpr h)]

/-- A pushed vector is delivered, if its size fits. -/
theorem getOp_pushBytes {vch : Valtype} (hSize : vch.length < 2 ^ 32) (rest : CScript) :
    ∃ opcode ≤ OP_PUSHDATA4,
      (SizeFits vch rest.length →
        getOp (pushBytes [] vch ++ rest) = ⟨true, opcode, vch, rest⟩) ∧
      (¬SizeFits vch rest.length → (getOp (pushBytes [] vch ++ rest)).fRet = false) := by
  obtain ⟨opcode, hOp, operand, hPush, hOperand⟩ := pushBytes_header hSize
  have hGet : getOp (pushBytes [] vch ++ rest) =
      if (vch.length + rest.length) % 2 ^ 32 < vch.length then
        ⟨false, OP_INVALIDOPCODE, [], vch ++ rest⟩
      else ⟨true, opcode, vch, rest⟩ := by
    rw [hPush, List.cons_append, List.append_assoc]
    unfold getOp
    dsimp only
    rw [if_pos hOp, hOperand]
    dsimp only
    rw [List.length_append, List.take_left' rfl, List.drop_left' rfl]
  refine ⟨opcode, hOp, fun hFits => ?_, fun hFits => ?_⟩
  · rw [hGet, if_neg (not_lt.mpr hFits)]
  · rw [hGet, if_pos (not_le.mp hFits)]

/-! ## All items -/

theorem appendItem_eq_append (script : CScript) (item : ScriptItem) :
    appendItem script item = script ++ appendItem [] item := by
  cases item with
  | opcode opcode => rfl
  | data vch => exact pushBytes_eq_append script vch

theorem build_cons (item : ScriptItem) (items : List ScriptItem) :
    build (item :: items) = appendItem [] item ++ build items := by
  have hFold (start : CScript) : items.foldl appendItem start = start ++ build items := by
    induction items generalizing start with
    | nil => exact (List.append_nil start).symm
    | cons item items ih =>
        have hFirst := ih (appendItem [] item)
        rw [build, List.foldl_cons, List.foldl_cons, ih, hFirst, appendItem_eq_append,
          List.append_assoc]
  exact hFold (appendItem [] item)

theorem appendItem_ne_nil (item : ScriptItem) : appendItem [] item ≠ [] := by
  cases item with
  | opcode opcode => exact List.cons_ne_nil _ _
  | data vch => exact pushBytes_ne_nil vch

/-- The size of every vector fits, with the items after it. -/
def SizesFit : List ScriptItem → Prop
  | [] => True
  | .opcode _ :: items => SizesFit items
  | .data vch :: items => SizeFits vch (build items).length ∧ SizesFit items

theorem readItems_build
    {items : List ScriptItem} (hItems : ∀ item ∈ items, item.WellFormed) {fuel : ℕ}
    (hFuel : (build items).length ≤ fuel) :
    (SizesFit items → readItems fuel (build items) = some items) ∧
      (¬SizesFit items → readItems fuel (build items) = none) := by
  induction items generalizing fuel with
  | nil =>
      refine ⟨fun _ => ?_, fun hNot => absurd trivial hNot⟩
      cases fuel <;> rfl
  | cons item items ih =>
      have hNe : appendItem [] item ++ build items ≠ [] := by
        intro hNil
        exact appendItem_ne_nil item (List.append_eq_nil_iff.mp hNil).1
      have hLength := List.length_pos_of_ne_nil (appendItem_ne_nil item)
      rw [build_cons] at hFuel ⊢
      rw [List.length_append] at hFuel
      obtain ⟨fuel, rfl⟩ : ∃ k, fuel = k + 1 := ⟨fuel - 1, by omega⟩
      obtain ⟨hRead, hFail⟩ := @ih (fun item hMem => hItems item (List.mem_cons_of_mem _ hMem))
        fuel (by omega)
      rw [readItems, if_neg hNe]
      dsimp only
      cases item with
      | opcode opcode =>
          have hOp : OP_PUSHDATA4 < opcode := hItems _ List.mem_cons_self
          have hGet : getOp (appendItem [] (.opcode opcode) ++ build items) =
              ⟨true, opcode, [], build items⟩ := getOp_opcode hOp (build items)
          have hItem : itemOf ⟨true, opcode, [], build items⟩ = .opcode opcode := by
            rw [itemOf, if_neg (UInt8.not_le.mpr hOp)]
          rw [hGet, if_pos rfl, hItem]
          refine ⟨fun hFits => by rw [hRead hFits]; rfl, fun hNot => by rw [hFail hNot]; rfl⟩
      | data vch =>
          have hSize : vch.length < 2 ^ 32 := hItems _ List.mem_cons_self
          obtain ⟨opcode, hOp, hDelivered, hRefused⟩ := getOp_pushBytes hSize (build items)
          have hItem : itemOf ⟨true, opcode, vch, build items⟩ = .data vch := by
            rw [itemOf, if_pos hOp]
          rw [appendItem]
          by_cases hFits : SizeFits vch (build items).length
          · rw [hDelivered hFits, if_pos rfl, hItem]
            refine ⟨fun hAll => by rw [hRead hAll.2]; rfl, fun hNot => ?_⟩
            rw [hFail fun hRest => hNot ⟨hFits, hRest⟩]
            rfl
          · rw [hRefused hFits, if_neg Bool.false_ne_true]
            exact ⟨fun hAll => absurd hAll.1 hFits, fun _ => rfl⟩

/-- In a script of less than four gigabytes all sizes fit. -/
theorem sizesFit_of_length
    {items : List ScriptItem} (h : (build items).length < 2 ^ 32) : SizesFit items := by
  induction items with
  | nil => trivial
  | cons item items ih =>
      rw [build_cons, List.length_append] at h
      have hRest := ih (by omega)
      cases item with
      | opcode opcode => exact hRest
      | data vch =>
          have hPush : vch.length ≤ (appendItem [] (.data vch)).length := by
            simp only [appendItem, pushBytes, List.length_append]
            omega
          have hExact : (vch.length + (build items).length) % 2 ^ 32 =
              vch.length + (build items).length := Nat.mod_eq_of_lt (by omega)
          refine ⟨?_, hRest⟩
          rw [SizeFits, hExact]
          exact Nat.le_add_right _ _

/-- Items are read back in order, up to the end of the script, exactly when the size of
every vector fits, as in all scripts of less than four gigabytes.  A call of `GetOp` on any
byte string fails, or it moves on by at least one byte and not past the end. -/
theorem items_roundTrip
    (items : List ScriptItem) (hItems : ∀ item ∈ items, item.WellFormed) :
    (readBack (build items) = some items ↔ SizesFit items) ∧
      ((build items).length < 2 ^ 32 → SizesFit items) ∧
      ∀ script, (getOp script).fRet = false ∨
        ∃ bytes, bytes ≠ [] ∧ script = bytes ++ (getOp script).rest := by
  obtain ⟨hRead, hFail⟩ := readItems_build hItems le_rfl
  refine ⟨⟨fun hBack => ?_, hRead⟩, sizesFit_of_length, fun script => ?_⟩
  · by_contra hNot
    rw [readBack, hFail hNot] at hBack
    cases hBack
  · by_cases hNil : script = []
    · rw [hNil]
      exact Or.inl getOp_nil
    · exact Or.inr (getOp_advances hNil)

/-- The first of two vectors of two gigabytes is taken for truncated: of the bytes after its
size, two to the power of 32 are not counted. -/
theorem halves_unread {vch : Valtype} (hLength : vch.length = 2 ^ 31) :
    (∀ item ∈ [ScriptItem.data vch, .data vch], item.WellFormed) ∧
      readBack (build [.data vch, .data vch]) ≠ some [.data vch, .data vch] := by
  have hItems : ∀ item ∈ [ScriptItem.data vch, .data vch], item.WellFormed := by
    intro item hMem
    have hItem : item = .data vch := by simpa using hMem
    rw [hItem]
    change vch.length < 2 ^ 32
    rw [hLength]
    norm_num
  refine ⟨hItems, fun hBack => ?_⟩
  obtain ⟨-, hFail⟩ := readItems_build hItems le_rfl
  have hAfter : (build [.data vch]).length = 2 ^ 31 + 5 := by
    have hShort : ¬vch.length < OP_PUSHDATA1.toNat := by
      rw [hLength]
      decide
    have hOne : ¬vch.length ≤ 0xff := by
      rw [hLength]
      norm_num
    have hTwo : ¬vch.length ≤ 0xffff := by
      rw [hLength]
      norm_num
    change (pushBytes [] vch).length = 2 ^ 31 + 5
    unfold pushBytes
    dsimp only
    rw [if_neg hShort, if_neg hOne, if_neg hTwo, List.nil_append, List.length_append, hLength,
      List.length_cons, length_toBytesLE]
    norm_num
  have hNot : ¬SizesFit [.data vch, .data vch] := by
    rintro ⟨hFits, -⟩
    rw [SizeFits, hAfter, hLength] at hFits
    norm_num at hFits
  rw [readBack, hFail hNot] at hBack
  cases hBack

end CScript

namespace Sample

open CScript

/-- A vector and an opcode. -/
theorem shortItems_roundTrip :
    (readBack (build [.data [1, 2, 3], .opcode OP_CHECKSIG]) =
        some [.data [1, 2, 3], .opcode OP_CHECKSIG] ↔
      SizesFit [.data [1, 2, 3], .opcode OP_CHECKSIG]) ∧
    ((build [.data [1, 2, 3], .opcode OP_CHECKSIG]).length < 2 ^ 32 →
      SizesFit [.data [1, 2, 3], .opcode OP_CHECKSIG]) ∧
    ∀ script, (getOp script).fRet = false ∨
      ∃ bytes, bytes ≠ [] ∧ script = bytes ++ (getOp script).rest := by
  apply items_roundTrip
  intro item hMem
  rcases List.mem_pair.mp hMem with rfl | rfl
  · change [1, 2, 3].length < 2 ^ 32
    decide
  · change OP_PUSHDATA4 < OP_CHECKSIG
    decide

theorem halfVectors_unread :
    (∀ item ∈ [ScriptItem.data (List.replicate (2 ^ 31) 0), .data (List.replicate (2 ^ 31) 0)],
        item.WellFormed) ∧
      readBack (build [.data (List.replicate (2 ^ 31) 0), .data (List.replicate (2 ^ 31) 0)]) ≠
        some [.data (List.replicate (2 ^ 31) 0), .data (List.replicate (2 ^ 31) 0)] :=
  halves_unread List.length_replicate

end Sample

end SocietyGold
