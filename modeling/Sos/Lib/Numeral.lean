import Mathlib.Data.Nat.Digits.Lemmas

/-! Numerals: the most significant digit comes first, and only zero begins with a zero. -/

namespace Sos.Lib

variable {α : Type} (digit : ℕ → α) {base : ℕ}

/-- The text is that of digits below the base, the least significant first in this list, of this
value, with no zero in front. -/
def Numeral (base n : ℕ) (s : List α) : Prop :=
  ∃ ds : List ℕ, s = (ds.map digit).reverse ∧ (∀ d ∈ ds, d < base) ∧ Nat.ofDigits base ds = n ∧
    (ds = [0] ∨ ds ≠ [] ∧ ds.getLast? ≠ some 0)

/-- The digits of a number, of which zero has one too. -/
def digitsOf (base n : ℕ) : List ℕ := if n = 0 then [0] else Nat.digits base n

def numeral (base n : ℕ) : List α := ((digitsOf base n).map digit).reverse

theorem digitsOf_lt (positional : 1 < base) (n : ℕ) : ∀ d ∈ digitsOf base n, d < base := by
  intro d member
  unfold digitsOf at member
  split at member
  · have zero : d = 0 := List.mem_singleton.mp member
    omega
  · exact Nat.digits_lt_base positional member

theorem ofDigits_digitsOf (n : ℕ) : Nat.ofDigits base (digitsOf base n) = n := by
  unfold digitsOf
  split
  · next zero =>
    subst zero
    rfl
  · exact Nat.ofDigits_digits base n

/-- The last digit, and the digits before it when there are some. -/
theorem digitsOf_step (positional : 1 < base) (n : ℕ) :
    digitsOf base n = n % base :: if n / base = 0 then [] else digitsOf base (n / base) := by
  by_cases zero : n = 0
  · subst zero
    simp [digitsOf]
  · have step := Nat.digits_def' positional (Nat.pos_of_ne_zero zero)
    by_cases last : n / base = 0
    · simp [digitsOf, zero, last, step]
    · simp [digitsOf, zero, last, step]

theorem numeral_step (positional : 1 < base) (n : ℕ) :
    numeral digit base n =
      (if n / base = 0 then [] else numeral digit base (n / base)) ++ [digit (n % base)] := by
  unfold numeral
  rw [digitsOf_step positional]
  split
  · rfl
  · rw [List.map_cons, List.reverse_cons]

theorem numeral_length_le (positional : 1 < base) {n room : ℕ} (some_room : room ≠ 0) (fits : n < base ^ room) :
    (numeral digit base n).length ≤ room := by
  unfold numeral digitsOf
  rw [List.length_reverse, List.length_map]
  split
  · exact Nat.one_le_iff_ne_zero.mpr some_room
  · exact (Nat.digits_length_le_iff positional n).mpr fits

/-- A number has one numeral. -/
theorem numeral_iff (positional : 1 < base) (n : ℕ) (s : List α) :
    Numeral digit base n s ↔ s = numeral digit base n := by
  constructor
  · rintro ⟨ds, rfl, bounded, value, leading⟩
    have digits : ds = digitsOf base n := by
      rcases leading with rfl | ⟨some_digit, leading⟩
      · have zero : n = 0 := by rw [← value]; rfl
        rw [zero, digitsOf, if_pos rfl]
      · have same : Nat.digits base n = ds := by
          rw [← value]
          apply Nat.digits_ofDigits base positional ds bounded
          intro h zero
          exact leading (by rw [List.getLast?_eq_getLast_of_ne_nil h, zero])
        have nonzero : n ≠ 0 := by
          intro zero
          rw [zero, Nat.digits_zero] at same
          exact some_digit same.symm
        rw [digitsOf, if_neg nonzero, same]
    rw [digits, numeral]
  · rintro rfl
    refine ⟨digitsOf base n, rfl, digitsOf_lt positional n, ofDigits_digitsOf n, ?_⟩
    unfold digitsOf
    split
    · exact .inl rfl
    · next nonzero =>
      have some_digit : Nat.digits base n ≠ [] := Nat.digits_ne_nil_iff_ne_zero.mpr nonzero
      refine .inr ⟨some_digit, ?_⟩
      rw [List.getLast?_eq_getLast_of_ne_nil some_digit]
      intro zero
      exact Nat.getLast_digit_ne_zero base nonzero (Option.some.inj zero)

end Sos.Lib
