import Mathlib.Data.Nat.Bitwise
import Mathlib.Tactic

/-!
# Hash trees stored level by level

A hash tree over a list of leaves is built one level at a time: the nodes of a
level are combined in pairs, and the last node of an odd level is combined with
itself.  The levels lie one after the other in a single list, leaves first, so
that the root is the last element.

An opening of a leaf is the list of the nodes its path to the root is combined
with.  `OpensTo` says which lists are openings, and `climb` recomputes the root
from one.  The combining function is arbitrary throughout.
-/

namespace Support

universe u

variable {α : Type u}

/-! ## Levels -/

section Levels

variable (combine : α → α → α)

/-- One level of the tree from the level below. -/
def levelAbove : List α → List α
  | [] => []
  | [node] => [combine node node]
  | left :: right :: rest => combine left right :: levelAbove rest

/-- All levels above and including the given one, in one list. -/
def levels : (fuel : ℕ) → List α → List α
  | 0, level => level
  | fuel + 1, level =>
      if level.length ≤ 1 then level
      else level ++ levels fuel (levelAbove combine level)

theorem length_levelAbove (level : List α) :
    (levelAbove combine level).length = (level.length + 1) / 2 := by
  fun_induction levelAbove combine level with
  | case1 => simp
  | case2 => simp
  | case3 left right rest ih =>
      simp only [List.length_cons, ih]
      omega

/-- A node is combined from the two nodes below it, or from the last node of the
level below alone. -/
theorem getElem?_levelAbove
    {level : List α} {i : ℕ} {left right : α}
    (hLeft : level[2 * i]? = some left)
    (hRight : level[min (2 * i + 1) (level.length - 1)]? = some right) :
    (levelAbove combine level)[i]? = some (combine left right) := by
  fun_induction levelAbove combine level generalizing i with
  | case1 => simp at hLeft
  | case2 node =>
      have hi : i = 0 := by
        have hLt := (List.getElem?_eq_some_iff.mp hLeft).1
        simp only [List.length_singleton] at hLt
        omega
      subst hi
      simp_all
  | case3 first second rest ih =>
      obtain _ | k := i
      · simp_all
      · rw [List.getElem?_cons_succ]
        apply ih
        · simpa [Nat.mul_add] using hLeft
        · have hLt := (List.getElem?_eq_some_iff.mp hLeft).1
          simp only [List.length_cons] at hLt
          have hIndex : min (2 * (k + 1) + 1) ((first :: second :: rest).length - 1) =
              min (2 * k + 1) (rest.length - 1) + 1 + 1 := by
            simp only [List.length_cons]
            omega
          rw [hIndex] at hRight
          simpa using hRight

theorem levels_eq_append
    {fuel : ℕ} {level : List α} (hLength : 1 < level.length) :
    levels combine (fuel + 1) level =
      level ++ levels combine fuel (levelAbove combine level) := by
  rw [levels, if_neg (by omega)]

theorem levels_of_le_one
    {fuel : ℕ} {level : List α} (hLength : level.length ≤ 1) :
    levels combine fuel level = level := by
  cases fuel with
  | zero => rfl
  | succ fuel => rw [levels, if_pos hLength]

theorem levels_ne_nil (fuel : ℕ) {level : List α} (h : level ≠ []) :
    levels combine fuel level ≠ [] := by
  cases fuel with
  | zero => exact h
  | succ fuel =>
      rw [levels]
      split_ifs
      · exact h
      · simp [h]

/-- The lowest level is a prefix of all levels. -/
theorem getElem?_levels
    (fuel : ℕ) {level : List α} {i : ℕ} (hi : i < level.length) :
    (levels combine fuel level)[i]? = level[i]? := by
  by_cases hLength : level.length ≤ 1
  · rw [levels_of_le_one combine hLength]
  · cases fuel with
    | zero => rfl
    | succ fuel =>
        rw [levels_eq_append combine (by omega), List.getElem?_append_left hi]

end Levels

/-! ## Openings -/

section Openings

variable (combine : α → α → α)

/-- `OpensTo combine level i branch root`: the nodes of `branch` are those that
the path from position `i` of the level is combined with on its way to the
root. -/
inductive OpensTo : List α → ℕ → List α → α → Prop
  | top (node : α) : OpensTo [node] 0 [] node
  | up
      {level branch : List α} {i : ℕ} {sibling root : α}
      (hLength : 1 < level.length)
      (hIndex : i < level.length)
      (hSibling : level[min (i ^^^ 1) (level.length - 1)]? = some sibling)
      (hAbove : OpensTo (levelAbove combine level) (i / 2) branch root) :
      OpensTo level i (sibling :: branch) root

/-- Recompute the root from a node, its position and an opening. -/
def climb : α → List α → ℕ → α
  | node, [], _ => node
  | node, sibling :: branch, i =>
      if i % 2 = 1 then climb (combine sibling node) branch (i / 2)
      else climb (combine node sibling) branch (i / 2)

variable {combine}

/-- An opening from position `i` recomputes the root. -/
theorem OpensTo.climb_eq
    {level branch : List α} {i : ℕ} {node root : α}
    (hOpens : OpensTo combine level i branch root)
    (hNode : level[i]? = some node) :
    climb combine node branch i = root := by
  induction hOpens generalizing node with
  | top node' => simpa [climb, eq_comm] using hNode
  | @up level branch i sibling root hLength hIndex hSibling hAbove ih =>
      rw [climb]
      by_cases hOdd : i % 2 = 1
      · -- an odd node is the right child, and its sibling stands before it
        rw [if_pos hOdd]
        apply ih
        rw [Nat.xor_one_of_odd (Nat.odd_iff.mpr hOdd), min_eq_left (by omega)] at hSibling
        apply getElem?_levelAbove combine
        · rwa [show 2 * (i / 2) = i - 1 by omega]
        · rwa [show min (2 * (i / 2) + 1) (level.length - 1) = i by omega]
      · rw [if_neg hOdd]
        apply ih
        rw [Nat.xor_one_of_even (Nat.even_iff.mpr (by omega))] at hSibling
        apply getElem?_levelAbove combine
        · rwa [show 2 * (i / 2) = i by omega]
        · rwa [show 2 * (i / 2) = i by omega]

/-- The root of an opening is the last of all nodes. -/
theorem OpensTo.getLast?_levels
    {level branch : List α} {i : ℕ} {root : α}
    (hOpens : OpensTo combine level i branch root)
    (fuel : ℕ) (hFuel : level.length ≤ fuel + 1) :
    (levels combine fuel level).getLast? = some root := by
  induction hOpens generalizing fuel with
  | top node => simp [levels_of_le_one]
  | @up level branch i sibling root hLength hIndex hSibling hAbove ih =>
      obtain _ | fuel := fuel
      · omega
      · rw [levels_eq_append combine hLength]
        have hLast := ih fuel (by rw [length_levelAbove]; omega)
        rw [List.getLast?_append, hLast, Option.some_or]

end Openings

end Support

/-!
# What the root of a hash tree commits to

Combining the last node of an odd level with itself makes different lists share a
root: a list and the same list with its last node repeated.  Among lists without
repetition that cannot happen.  As long as no two pairs of nodes that occur collide,
each level determines the one below it, and a leaf that is not itself a combination
of nodes fixes the number of levels.
-/

namespace Support

universe u

variable {α : Type u} (combine : α → α → α)

/-- No two pairs of these nodes are combined to the same node. -/
def CollisionFreeOn (nodes : Set α) : Prop :=
  ∀ a ∈ nodes, ∀ b ∈ nodes, ∀ c ∈ nodes, ∀ d ∈ nodes,
    combine a b = combine c d → a = c ∧ b = d

/-- The level some rounds above the given one. -/
def levelAt (rounds : ℕ) (level : List α) : List α := (levelAbove combine)^[rounds] level

variable {combine}

/-! ## One level -/

theorem exists_of_mem_levelAbove {level : List α} {node : α} (h : node ∈ levelAbove combine level) :
    ∃ left ∈ level, ∃ right ∈ level, node = combine left right := by
  fun_induction levelAbove combine level with
  | case1 => simp at h
  | case2 last => exact ⟨last, by simp, last, by simp, by simpa using h⟩
  | case3 first second rest ih =>
      rcases List.mem_cons.mp h with rfl | h
      · exact ⟨first, by simp, second, by simp, rfl⟩
      · obtain ⟨left, hLeft, right, hRight, rfl⟩ := ih h
        exact ⟨left, by simp [hLeft], right, by simp [hRight], rfl⟩

section OneLevel

variable {nodes : Set α} (hFree : CollisionFreeOn combine nodes)
include hFree

/-- A level above distinct nodes has distinct nodes. -/
theorem nodup_levelAbove
    {level : List α} (hIn : ∀ node ∈ level, node ∈ nodes) (hNodup : level.Nodup) :
    (levelAbove combine level).Nodup := by
  fun_induction levelAbove combine level with
  | case1 => exact List.nodup_nil
  | case2 last => exact List.nodup_singleton _
  | case3 first second rest ih =>
      simp only [List.mem_cons, forall_eq_or_imp] at hIn
      obtain ⟨hFirst, hSecond, hRest⟩ := hIn
      simp only [List.nodup_cons, List.mem_cons, not_or] at hNodup ⊢
      refine ⟨fun hAgain => ?_, ih hRest hNodup.2.2⟩
      obtain ⟨left, hLeft, right, hRight, hSame⟩ := exists_of_mem_levelAbove hAgain
      obtain ⟨rfl, -⟩ := hFree _ hFirst _ hSecond _ (hRest _ hLeft) _ (hRest _ hRight) hSame
      exact hNodup.1.2 hLeft

/-- Distinct nodes are determined by the level above them: the node an odd level is
padded with would be a repetition. -/
theorem levelAbove_injective
    {level level' : List α} (hIn : ∀ node ∈ level, node ∈ nodes)
    (hIn' : ∀ node ∈ level', node ∈ nodes) (hNodup : level.Nodup) (hNodup' : level'.Nodup)
    (hAbove : levelAbove combine level = levelAbove combine level') : level = level' := by
  fun_induction levelAbove combine level generalizing level' with
  | case1 =>
      cases level' with
      | nil => rfl
      | cons first rest => cases rest <;> simp [levelAbove] at hAbove
  | case2 last =>
      simp only [List.mem_singleton, forall_eq] at hIn
      rcases level' with _ | ⟨first, _ | ⟨second, rest⟩⟩
      · simp [levelAbove] at hAbove
      · simp only [levelAbove, List.cons.injEq, and_true] at hAbove
        rw [(hFree _ hIn _ hIn _ (hIn' _ (by simp)) _ (hIn' _ (by simp)) hAbove).1]
      · -- both children would be the one node on the other side
        simp only [levelAbove, List.cons.injEq] at hAbove
        obtain ⟨rfl, rfl⟩ :=
          hFree _ hIn _ hIn _ (hIn' _ (by simp)) _ (hIn' _ (by simp)) hAbove.1
        simp at hNodup'
  | case3 first second rest ih =>
      rcases level' with _ | ⟨first', _ | ⟨second', rest'⟩⟩
      · simp [levelAbove] at hAbove
      · simp only [levelAbove, List.cons.injEq] at hAbove
        obtain ⟨rfl, rfl⟩ :=
          hFree _ (hIn _ (by simp)) _ (hIn _ (by simp)) _ (hIn' _ (by simp)) _
            (hIn' _ (by simp)) hAbove.1
        simp at hNodup
      · simp only [levelAbove, List.cons.injEq] at hAbove
        obtain ⟨rfl, rfl⟩ :=
          hFree _ (hIn _ (by simp)) _ (hIn _ (by simp)) _ (hIn' _ (by simp)) _
            (hIn' _ (by simp)) hAbove.1
        simp only [List.nodup_cons] at hNodup hNodup'
        rw [ih (fun node h => hIn node (by simp [h])) (fun node h => hIn' node (by simp [h]))
          hNodup.2.2 hNodup'.2.2 hAbove.2]

/-! ## Several levels -/

theorem nodup_levelAt
    {level : List α} (rounds : ℕ)
    (hIn : ∀ k < rounds, ∀ node ∈ levelAt combine k level, node ∈ nodes) (hNodup : level.Nodup) :
    (levelAt combine rounds level).Nodup := by
  induction rounds with
  | zero => exact hNodup
  | succ rounds ih =>
      unfold levelAt
      rw [Function.iterate_succ_apply']
      exact nodup_levelAbove hFree (hIn rounds (by omega)) (ih fun k hk => hIn k (by omega))

theorem levelAt_injective
    {level level' : List α} (rounds : ℕ)
    (hIn : ∀ k < rounds, ∀ node ∈ levelAt combine k level, node ∈ nodes)
    (hIn' : ∀ k < rounds, ∀ node ∈ levelAt combine k level', node ∈ nodes)
    (hNodup : level.Nodup) (hNodup' : level'.Nodup)
    (hTop : levelAt combine rounds level = levelAt combine rounds level') : level = level' := by
  induction rounds with
  | zero => exact hTop
  | succ rounds ih =>
      have hBelow : ∀ k < rounds, k < rounds + 1 := fun k hk => by omega
      apply ih (fun k hk => hIn k (hBelow k hk)) (fun k hk => hIn' k (hBelow k hk))
      apply levelAbove_injective hFree (hIn rounds (by omega)) (hIn' rounds (by omega))
      · exact nodup_levelAt hFree rounds (fun k hk => hIn k (hBelow k hk)) hNodup
      · exact nodup_levelAt hFree rounds (fun k hk => hIn' k (hBelow k hk)) hNodup'
      · simpa only [levelAt, Function.iterate_succ_apply'] using hTop

end OneLevel

/-! ## The root -/

/-- The rounds from a level to the root, and the levels they pass. -/
theorem exists_levelAt_eq_root
    (fuel : ℕ) {level : List α} (hNonempty : level ≠ []) (hFuel : level.length ≤ fuel + 1) :
    ∃ rounds root, levelAt combine rounds level = [root] ∧
      (levels combine fuel level).getLast? = some root ∧
      ∀ k ≤ rounds, ∀ node ∈ levelAt combine k level, node ∈ levels combine fuel level := by
  have hPos : 0 < level.length := List.length_pos_of_ne_nil hNonempty
  induction fuel generalizing level with
  | zero =>
      obtain ⟨root, rfl⟩ := List.length_eq_one_iff.mp (show level.length = 1 by omega)
      refine ⟨0, root, rfl, by simp [levels], fun k hk => ?_⟩
      obtain rfl : k = 0 := by omega
      exact fun node hNode => hNode
  | succ fuel ih =>
      by_cases hLength : level.length ≤ 1
      · obtain ⟨root, rfl⟩ := List.length_eq_one_iff.mp (show level.length = 1 by omega)
        rw [levels_of_le_one combine hLength]
        refine ⟨0, root, rfl, by simp, fun k hk => ?_⟩
        obtain rfl : k = 0 := by omega
        exact fun node hNode => hNode
      · have hAbove := length_levelAbove combine level
        have hAbovePos : 0 < (levelAbove combine level).length := by omega
        obtain ⟨rounds, root, hRoot, hLast, hPassed⟩ :=
          ih (List.ne_nil_of_length_pos hAbovePos) (by omega) hAbovePos
        rw [levels_eq_append combine (by omega)]
        refine ⟨rounds + 1, root, hRoot, by rw [List.getLast?_append, hLast]; rfl, ?_⟩
        intro k hk node hNode
        rw [List.mem_append]
        cases k with
        | zero => exact Or.inl hNode
        | succ k => exact Or.inr (hPassed k (by omega) node hNode)

theorem levelAt_add (rounds extra : ℕ) (level : List α) :
    levelAt combine (rounds + extra) level =
      levelAt combine rounds (levelAt combine extra level) :=
  Function.iterate_add_apply _ _ _ _

/-- Leaves that reach the root in fewer rounds than others would be combinations of
nodes, so both reach it together. -/
theorem eq_of_levelAt_eq
    {leaves leaves' top : List α} {rounds extra : ℕ} {nodes : Set α}
    (hFree : CollisionFreeOn combine nodes)
    (hIn : ∀ k ≤ rounds, ∀ node ∈ levelAt combine k leaves, node ∈ nodes)
    (hIn' : ∀ k ≤ rounds + extra, ∀ node ∈ levelAt combine k leaves', node ∈ nodes)
    (hLeaf : ∀ leaf ∈ leaves, ∀ a ∈ nodes, ∀ b ∈ nodes, leaf ≠ combine a b)
    (hNonempty : leaves ≠ []) (hNodup : leaves.Nodup) (hNodup' : leaves'.Nodup)
    (hTop : levelAt combine rounds leaves = top)
    (hTop' : levelAt combine (rounds + extra) leaves' = top) : leaves = leaves' := by
  have hSame : leaves = levelAt combine extra leaves' := by
    apply levelAt_injective hFree rounds
    · exact fun k hk => hIn k (by omega)
    · intro k hk
      rw [← levelAt_add]
      exact hIn' (k + extra) (by omega)
    · exact hNodup
    · exact nodup_levelAt hFree extra (fun k hk => hIn' k (by omega)) hNodup'
    · rw [hTop, ← levelAt_add, hTop']
  cases extra with
  | zero => exact hSame
  | succ extra =>
      obtain ⟨leaf, hMem⟩ := List.exists_mem_of_ne_nil leaves hNonempty
      have hAbove : leaf ∈ levelAbove combine (levelAt combine extra leaves') := by
        rw [hSame] at hMem
        unfold levelAt at hMem
        rwa [Function.iterate_succ_apply'] at hMem
      obtain ⟨left, hLeft, right, hRight, hCombined⟩ := exists_of_mem_levelAbove hAbove
      have hBelow := hIn' extra (by omega)
      exact absurd hCombined (hLeaf leaf hMem left (hBelow left hLeft) right (hBelow right hRight))

/-- Lists without repetition whose trees have the same root are the same, if no two
pairs of nodes of the trees collide and no leaf is a combination of nodes. -/
theorem eq_of_root_eq
    {leaves leaves' : List α} {fuel fuel' : ℕ} {nodes : Set α}
    (hFree : CollisionFreeOn combine nodes)
    (hNodes : ∀ node ∈ levels combine fuel leaves, node ∈ nodes)
    (hNodes' : ∀ node ∈ levels combine fuel' leaves', node ∈ nodes)
    (hLeaf : ∀ leaf ∈ leaves ++ leaves', ∀ a ∈ nodes, ∀ b ∈ nodes, leaf ≠ combine a b)
    (hNonempty : leaves ≠ []) (hNonempty' : leaves' ≠ [])
    (hNodup : leaves.Nodup) (hNodup' : leaves'.Nodup)
    (hFuel : leaves.length ≤ fuel + 1) (hFuel' : leaves'.length ≤ fuel' + 1)
    (hRoot : (levels combine fuel leaves).getLast? = (levels combine fuel' leaves').getLast?) :
    leaves = leaves' := by
  obtain ⟨rounds, root, hTop, hLast, hPassed⟩ := exists_levelAt_eq_root fuel hNonempty hFuel
  obtain ⟨rounds', root', hTop', hLast', hPassed'⟩ :=
    exists_levelAt_eq_root fuel' hNonempty' hFuel'
  obtain rfl : root = root' := by
    rw [hLast, hLast'] at hRoot
    exact Option.some.inj hRoot
  have hIn := fun k hk node hNode => hNodes node (hPassed k hk node hNode)
  have hIn' := fun k hk node hNode => hNodes' node (hPassed' k hk node hNode)
  rcases Nat.le_total rounds rounds' with hLe | hLe
  · obtain ⟨extra, rfl⟩ := Nat.exists_eq_add_of_le hLe
    exact eq_of_levelAt_eq hFree hIn hIn' (fun leaf hMem => hLeaf leaf (by simp [hMem]))
      hNonempty hNodup hNodup' hTop hTop'
  · obtain ⟨extra, rfl⟩ := Nat.exists_eq_add_of_le hLe
    exact (eq_of_levelAt_eq hFree hIn' hIn (fun leaf hMem => hLeaf leaf (by simp [hMem]))
      hNonempty' hNodup' hNodup hTop' hTop).symm

end Support
