import Mathlib.Data.PNat.Defs
import Mathlib.Tactic

/-!
# Bijective numeration

A number is written with digits below a base so that every sequence of digits is the
form of one number: what is left after a digit counts from zero again, one being
subtracted.  Digits come least significant first.
-/

namespace Support

/-- The digits of a number, least significant first. -/
def bijectiveDigits (base : ℕ+) (n : ℕ) : List ℕ :=
  if n < base then [n] else n % base :: bijectiveDigits base (n / base - 1)
termination_by n
decreasing_by
  have hBase := base.pos
  have hDiv := Nat.div_le_self n base
  omega

variable {base : ℕ+} {n : ℕ}

theorem bijectiveDigits_of_lt (h : n < base) : bijectiveDigits base n = [n] := by
  rw [bijectiveDigits, if_pos h]

theorem bijectiveDigits_of_le (h : base ≤ n) :
    bijectiveDigits base n = n % base :: bijectiveDigits base (n / base - 1) := by
  rw [bijectiveDigits, if_neg (not_lt.mpr h)]

theorem bijectiveDigits_ne_nil (base : ℕ+) (n : ℕ) : bijectiveDigits base n ≠ [] := by
  rw [bijectiveDigits]
  split_ifs <;> simp

/-- One was subtracted from what is left after a digit. -/
theorem pred_div_add_one (h : base ≤ n) : n / base - 1 + 1 = n / base :=
  Nat.sub_add_cancel (Nat.div_pos h base.pos)

theorem lt_of_mem_bijectiveDigits
    {d : ℕ} (hMem : d ∈ bijectiveDigits base n) : d < base := by
  induction n using bijectiveDigits.induct base with
  | case1 n hSmall =>
      rw [bijectiveDigits_of_lt hSmall, List.mem_singleton] at hMem
      exact hMem ▸ hSmall
  | case2 n hLarge ih =>
      rw [bijectiveDigits_of_le (not_lt.mp hLarge), List.mem_cons] at hMem
      rcases hMem with rfl | hMem
      · exact Nat.mod_lt n base.pos
      · exact ih hMem

/-- A reader that comes from the most significant digit adds the one after each digit
that another one follows. -/
theorem foldr_bijectiveDigits (base : ℕ+) (n : ℕ) :
    (bijectiveDigits base n).foldr (fun d (acc : ℕ) => acc * base + d + 1) 0 = n + 1 := by
  induction n using bijectiveDigits.induct base with
  | case1 n hSmall =>
      rw [bijectiveDigits_of_lt hSmall]
      simp
  | case2 n hLarge ih =>
      have hLe := not_lt.mp hLarge
      rw [bijectiveDigits_of_le hLe, List.foldr_cons, ih, pred_div_add_one hLe, Nat.div_add_mod']

/-- The number with the digits, least significant first: all digits but the most
significant one are followed by a number that counts from one. -/
def bijectiveNumber (base : ℕ+) : List ℕ → ℕ
  | [] => 0
  | [d] => d
  | d :: ds => base * (bijectiveNumber base ds + 1) + d

theorem bijectiveNumber_cons
    {ds : List ℕ} (h : ds ≠ []) (d : ℕ) :
    bijectiveNumber base (d :: ds) = base * (bijectiveNumber base ds + 1) + d := by
  cases ds with
  | nil => exact absurd rfl h
  | cons next ds => rfl

/-- A digit in front of the most significant one. -/
theorem bijectiveNumber_concat
    {ds : List ℕ} (h : ds ≠ []) (d : ℕ) :
    bijectiveNumber base (ds ++ [d]) =
      (base : ℕ) ^ ds.length * (d + 1) + bijectiveNumber base ds := by
  induction ds with
  | nil => exact absurd rfl h
  | cons first ds ih =>
      by_cases hNil : ds = []
      · subst hNil
        simp [bijectiveNumber]
      · rw [List.cons_append, bijectiveNumber_cons (by simp [hNil]), ih hNil,
          bijectiveNumber_cons hNil, List.length_cons, pow_succ]
        ring

/-- Every sequence of digits is the form of its number, and of no other one. -/
theorem bijectiveDigits_bijectiveNumber
    {ds : List ℕ} (hNe : ds ≠ []) (hBelow : ∀ d ∈ ds, d < base) :
    bijectiveDigits base (bijectiveNumber base ds) = ds := by
  induction ds with
  | nil => exact absurd rfl hNe
  | cons d ds ih =>
      have hDigit : d < base := hBelow d List.mem_cons_self
      by_cases hNil : ds = []
      · subst hNil
        exact bijectiveDigits_of_lt hDigit
      · have hRest := ih hNil fun next hMem => hBelow next (List.mem_cons_of_mem d hMem)
        have hLe : (base : ℕ) ≤ bijectiveNumber base (d :: ds) := by
          rw [bijectiveNumber_cons hNil]
          exact le_add_right (Nat.le_mul_of_pos_right _ (Nat.succ_pos _))
        have hMod : bijectiveNumber base (d :: ds) % base = d := by
          rw [bijectiveNumber_cons hNil, Nat.mul_add_mod, Nat.mod_eq_of_lt hDigit]
        have hDiv : bijectiveNumber base (d :: ds) / base - 1 = bijectiveNumber base ds := by
          rw [bijectiveNumber_cons hNil, Nat.mul_add_div base.pos, Nat.div_eq_of_lt hDigit]
          omega
        rw [bijectiveDigits_of_le hLe, hMod, hDiv, hRest]

/-- Below a power of the base there are no more digits than its exponent. -/
theorem length_bijectiveDigits_le
    {k : ℕ} (hPos : 0 < k) (h : n < (base : ℕ) ^ k) : (bijectiveDigits base n).length ≤ k := by
  induction n using bijectiveDigits.induct base generalizing k with
  | case1 n hSmall =>
      rw [bijectiveDigits_of_lt hSmall]
      exact hPos
  | case2 n hLarge ih =>
      have hLe := not_lt.mp hLarge
      obtain ⟨k, rfl⟩ : ∃ j, k = j + 1 := ⟨k - 1, by omega⟩
      have hDiv : n / base < (base : ℕ) ^ k := by
        rw [Nat.div_lt_iff_lt_mul base.pos, ← pow_succ]
        exact h
      have hMore : 0 < k := by
        by_contra hZero
        obtain rfl : k = 0 := by omega
        have hOne := Nat.div_pos hLe base.pos
        rw [pow_zero] at hDiv
        omega
      have hRest := ih hMore (lt_of_le_of_lt (Nat.sub_le _ _) hDiv)
      rw [bijectiveDigits_of_le hLe, List.length_cons]
      omega

end Support
