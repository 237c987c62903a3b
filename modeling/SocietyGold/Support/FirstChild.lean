import Mathlib.Data.List.Pairwise
import Mathlib.Tactic

/-!
# First come, first served

Nodes of a tree are delivered one by one.  The tip moves to a delivered node exactly
when that is a child of the tip.  If no node comes before its parent, the last tip is
found by going from the first one to the first delivered child for as long as there is
one; so two orders with the same first children end at the same tip.
-/

namespace Support

universe u v

namespace FirstChild

section Path

variable {α : Type u} {β : Type v} {name : β → α}

/-- The end of the path along first children. -/
inductive Follows (name : β → α) (first : α → Option β) : α → α → Prop
  | stop {a : α} (h : first a = none) : Follows name first a a
  | step {a c : α} {node : β} (h : first a = some node)
      (hRest : Follows name first (name node) c) : Follows name first a c

theorem Follows.unique
    {first : α → Option β} {a c c' : α} (h : Follows name first a c)
    (h' : Follows name first a c') : c = c' := by
  induction h with
  | stop hNone =>
      cases h' with
      | stop _ => rfl
      | step hSome _ => simp [hNone] at hSome
  | step hFirst _ ih =>
      cases h' with
      | stop hNone => simp [hFirst] at hNone
      | step hFirst' hRest' =>
          have hSame := Option.some.inj (hFirst.symm.trans hFirst')
          exact ih (hSame ▸ hRest')

end Path

variable {α : Type u} {β : Type v} [DecidableEq α] (parent name : β → α)

/-- The tip after one more node. -/
def advance (tip : α) (node : β) : α := if parent node = tip then name node else tip

/-- The tip after a list of nodes. -/
def walk (tip : α) (nodes : List β) : α := nodes.foldl (advance parent name) tip

/-- The first delivered child. -/
def firstChild (nodes : List β) (a : α) : Option β := nodes.find? fun node => parent node = a

/-- No node is delivered before its parent, and none is its own parent. -/
def ParentsFirst (nodes : List β) : Prop :=
  nodes.Pairwise (fun node later => parent node ≠ name later) ∧
    ∀ node ∈ nodes, parent node ≠ name node

instance (nodes : List β) : Decidable (ParentsFirst parent name nodes) :=
  inferInstanceAs (Decidable (_ ∧ _))

variable {parent name}

@[simp] theorem walk_nil (tip : α) : walk parent name tip [] = tip := rfl

theorem walk_append (tip : α) (nodes later : List β) :
    walk parent name tip (nodes ++ later) =
      walk parent name (walk parent name tip nodes) later :=
  List.foldl_append

/-- The walk over the rest of the nodes, when no child of the tip came before. -/
theorem walk_follows_append
    {past rest : List β} {tip : α} (hOrder : ParentsFirst parent name (past ++ rest))
    (hPast : ∀ node ∈ past, parent node ≠ tip) :
    Follows name (firstChild parent (past ++ rest)) tip (walk parent name tip rest) := by
  induction rest generalizing past tip with
  | nil =>
      refine Follows.stop ?_
      simpa [firstChild] using hPast
  | cons node rest ih =>
      have hSplit : past ++ node :: rest = (past ++ [node]) ++ rest := by simp
      by_cases hChild : parent node = tip
      · have hNone : past.find? (fun node => parent node = tip) = none := by
          simpa using hPast
        have hFirst : firstChild parent (past ++ node :: rest) tip = some node := by
          simp [firstChild, List.find?_append, hNone, hChild]
        have hNext : ∀ other ∈ past ++ [node], parent other ≠ name node := by
          intro other hOther
          rcases List.mem_append.mp hOther with hOld | hSelf
          · exact (List.pairwise_append.mp hOrder.1).2.2 other hOld node (by simp)
          · rw [List.mem_singleton.mp hSelf]
            exact hOrder.2 node (by simp)
        refine Follows.step hFirst ?_
        simp only [walk, List.foldl_cons, advance, if_pos hChild]
        rw [hSplit] at hOrder ⊢
        exact ih hOrder hNext
      · have hNext : ∀ other ∈ past ++ [node], parent other ≠ tip := by
          intro other hOther
          rcases List.mem_append.mp hOther with hOld | hSelf
          · exact hPast other hOld
          · exact List.mem_singleton.mp hSelf ▸ hChild
        simp only [walk, List.foldl_cons, advance, if_neg hChild]
        rw [hSplit] at hOrder ⊢
        exact ih hOrder hNext

theorem walk_follows
    {nodes : List β} (hOrder : ParentsFirst parent name nodes) (tip : α) :
    Follows name (firstChild parent nodes) tip (walk parent name tip nodes) := by
  have hAll : ParentsFirst parent name ([] ++ nodes) := hOrder
  exact walk_follows_append hAll (by simp)

/-- Two orders with the same first children end at the same tip. -/
theorem walk_eq_of_firstChild_eq
    {nodes nodes' : List β} (hOrder : ParentsFirst parent name nodes)
    (hOrder' : ParentsFirst parent name nodes')
    (hFirst : ∀ a, firstChild parent nodes a = firstChild parent nodes' a) (tip : α) :
    walk parent name tip nodes = walk parent name tip nodes' := by
  have hSame : firstChild parent nodes = firstChild parent nodes' := funext hFirst
  have hFollows := walk_follows hOrder tip
  rw [hSame] at hFollows
  exact hFollows.unique (walk_follows hOrder' tip)

end FirstChild

end Support
