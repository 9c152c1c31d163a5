import Mathlib.Tactic.Common
import Mathlib.Tactic.Ring
import Sos.Lib.Bytes

/-! Bit-fields packed without gaps: a width and a value each, the first one in the lowest bits. -/

namespace Sos.Lib.Packed

/-- A value is cut to the width of its field. -/
def pack : List (ℕ × ℕ) → ℕ
  | [] => 0
  | (w, v) :: fields => v % 2 ^ w + 2 ^ w * pack fields

def width (fields : List (ℕ × ℕ)) : ℕ := (fields.map Prod.fst).sum

/-- The field of `w` bits from bit `lo` on. -/
def bits (n lo w : ℕ) : ℕ := n / 2 ^ lo % 2 ^ w

theorem pack_lt (fields : List (ℕ × ℕ)) : pack fields < 2 ^ width fields := by
  induction fields with
  | nil => exact Nat.one_pos
  | cons field fields ih =>
    obtain ⟨w, v⟩ := field
    have low : v % 2 ^ w < 2 ^ w := Nat.mod_lt _ (Nat.two_pow_pos w)
    have total : width ((w, v) :: fields) = w + width fields := List.sum_cons
    rw [pack, total, pow_add]
    calc v % 2 ^ w + 2 ^ w * pack fields < 2 ^ w + 2 ^ w * pack fields := Nat.add_lt_add_right low _
      _ = 2 ^ w * (pack fields + 1) := by ring
      _ ≤ 2 ^ w * 2 ^ width fields := Nat.mul_le_mul_left _ ih

/-- The fields behind the first ones. -/
theorem pack_drop (front rest : List (ℕ × ℕ)) : pack (front ++ rest) / 2 ^ width front = pack rest := by
  induction front with
  | nil => exact Nat.div_one _
  | cons field front ih =>
    obtain ⟨w, v⟩ := field
    have low : v % 2 ^ w < 2 ^ w := Nat.mod_lt _ (Nat.two_pow_pos w)
    have total : width ((w, v) :: front) = w + width front := List.sum_cons
    rw [List.cons_append, pack, total, pow_add, ← Nat.div_div_eq_div_mul, Nat.add_mul_div_left _ _ (Nat.two_pow_pos w),
      Nat.div_eq_of_lt low, Nat.zero_add, ih]

theorem bits_pack (front : List (ℕ × ℕ)) (w v : ℕ) (rest : List (ℕ × ℕ)) :
    bits (pack (front ++ (w, v) :: rest)) (width front) w = v % 2 ^ w := by
  rw [bits, pack_drop, pack, Nat.add_mul_mod_self_left, Nat.mod_mod]

/-- The lowest bits of a zero field, taken by the field in front of it. -/
theorem pack_widen (w v a b : ℕ) (rest : List (ℕ × ℕ)) :
    pack ((w, v) :: (a + b, 0) :: rest) = pack ((w + a, v % 2 ^ w) :: (b, 0) :: rest) := by
  have low : v % 2 ^ w < 2 ^ (w + a) :=
    lt_of_lt_of_le (Nat.mod_lt _ (Nat.two_pow_pos w)) (Nat.pow_le_pow_right Nat.two_pos (Nat.le_add_right w a))
  rw [pack, pack, pack, pack, Nat.zero_mod, Nat.zero_mod, Nat.mod_eq_of_lt low]
  ring

theorem pack_cons_congr {fields fields' : List (ℕ × ℕ)} (field : ℕ × ℕ) (same : pack fields = pack fields') :
    pack (field :: fields) = pack (field :: fields') := by
  obtain ⟨w, v⟩ := field
  rw [pack, pack, same]

/-- The number that the first `k` bytes are for, the lowest byte first. -/
def number (byte : ℕ → UInt8) : ℕ → ℕ
  | 0 => 0
  | k + 1 => number byte k + 256 ^ k * (byte k).toNat

theorem number_mod {byte : ℕ → UInt8} {n k : ℕ} (bytes : ∀ i, i < k → byte i = UInt8.ofNat (n / 256 ^ i)) :
    number byte k = n % 256 ^ k := by
  induction k with
  | zero => exact (Nat.mod_one n).symm
  | succ k ih =>
    rw [number, ih fun i small => bytes i (Nat.lt_succ_of_lt small), bytes k (Nat.lt_succ_self k),
      UInt8.toNat_ofNat', Nat.mod_pow_succ (b := 256)]

end Sos.Lib.Packed
