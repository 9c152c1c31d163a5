import Sos.Kernel.Kprintf
import Sos.Lib.Numeral

/-! The numbers that `kprintf` prints: `itoa` puts out their numerals. -/

namespace Sos.Kernel
open Sos.Lib

/-- The conversions of `kprintf` that print a number. -/
inductive Radix where
  | octal | decimal | lowercase | uppercase
deriving DecidableEq

namespace Radix

/-- The character behind the `%`. -/
def letter : Radix → Int8
  | octal => 0x6F
  | decimal => 0x64
  | lowercase => 0x78
  | uppercase => 0x58

def base : Radix → UInt32
  | octal => 8
  | decimal => 10
  | lowercase => 16
  | uppercase => 16

def flags : Radix → UInt8
  | octal => itoaNull
  | decimal => itoaNull
  | lowercase => itoaLowercase
  | uppercase => itoaUppercase

/-- The characters from `0` to `9`, then the letters of the case from `a` or `A` on. -/
def digit (radix : Radix) (d : ℕ) : Int8 :=
  if d < 10 then Int8.ofNat (0x30 + d)
  else if radix = uppercase then Int8.ofNat (0x41 + (d - 10))
  else Int8.ofNat (0x61 + (d - 10))

end Radix

section
variable (radix : Radix)

theorem convert_number (args : Arguments) :
    convert args radix.letter = nextArgument args >>= fun i => itoa i radix.base radix.flags := by
  cases radix <;> rfl

theorem base_toNat : 1 < radix.base.toNat ∧ radix.base.toNat ≤ 16 := by
  cases radix <;> decide

theorem digit_table : ∀ d : Fin 16, d.val < radix.base.toNat →
    itoaDigit (UInt32.ofNat d.val) radix.base radix.flags = radix.digit d.val := by
  cases radix <;> decide +kernel

/-- Only the remainder by the base says which character it is. -/
theorem itoaDigit_mod (i base : UInt32) (flags : UInt8) : itoaDigit (i % base) base flags = itoaDigit i base flags := by
  have again : i % base % base = i % base := by
    apply UInt32.toNat_inj.mp
    rw [UInt32.toNat_mod, UInt32.toNat_mod, Nat.mod_mod]
  unfold itoaDigit
  rw [again]

theorem itoaDigit_radix (i : UInt32) :
    itoaDigit i radix.base radix.flags = radix.digit (i.toNat % radix.base.toNat) := by
  have bounds := base_toNat radix
  have below : i.toNat % radix.base.toNat < radix.base.toNat := Nat.mod_lt _ (by omega)
  have same : i % radix.base = UInt32.ofNat (i.toNat % radix.base.toNat) := by
    rw [← UInt32.toNat_mod, UInt32.ofNat_toNat]
  rw [← itoaDigit_mod, same]
  exact digit_table radix ⟨i.toNat % radix.base.toNat, by omega⟩ below

/-- With room for its digits a number is stored in front of what was stored before, and nothing is put out. -/
theorem itoaDigits_numeral (room : ℕ) (i : UInt32) (buff : List Int8) (s : Printing)
    (fits : i.toNat < radix.base.toNat ^ (room + 1)) :
    itoaDigits radix.base radix.flags (room + 1) i buff s =
      .done (numeral radix.digit radix.base.toNat i.toNat ++ buff) s := by
  have positional := (base_toNat radix).1
  induction room generalizing i buff with
  | zero =>
    have last : i / radix.base = 0 := by
      apply UInt32.toNat_inj.mp
      rw [UInt32.toNat_div]
      exact Nat.div_eq_of_lt (by simpa using fits)
    have last_number : i.toNat / radix.base.toNat = 0 := by
      rw [← UInt32.toNat_div, last, UInt32.toNat_zero]
    unfold itoaDigits
    dsimp only
    rw [if_neg (not_not.mpr last), itoaDigit_radix, numeral_step _ positional, if_pos last_number]
    rfl
  | succ room ih =>
    unfold itoaDigits
    dsimp only
    rw [itoaDigit_radix, numeral_step _ positional]
    by_cases last : i / radix.base = 0
    · have last_number : i.toNat / radix.base.toNat = 0 := by
        rw [← UInt32.toNat_div, last, UInt32.toNat_zero]
      rw [if_neg (not_not.mpr last), if_pos last_number]
      rfl
    · have more : i.toNat / radix.base.toNat ≠ 0 := by
        intro zero
        apply last
        apply UInt32.toNat_inj.mp
        rw [UInt32.toNat_div, zero, UInt32.toNat_zero]
      have rest : (i / radix.base).toNat < radix.base.toNat ^ (room + 1) := by
        rw [UInt32.toNat_div, Nat.div_lt_iff_lt_mul (by omega), ← Nat.pow_succ]
        exact fits
      rw [if_pos last, if_neg more, ih _ _ rest, UInt32.toNat_div, List.append_assoc, List.singleton_append]

/-- Twenty characters are enough in each base. -/
theorem base_pow_room : 2 ^ 32 ≤ radix.base.toNat ^ itoaBuffLen := by
  cases radix <;> decide

/-- `itoa` puts out the one numeral of its number, from the buffer and within it. -/
theorem itoa_numeral (i : UInt32) :
    ∃ chars : List Int8,
      (∀ text, Numeral radix.digit radix.base.toNat i.toNat text ↔ text = chars) ∧
      chars.length ≤ itoaBuffLen ∧
      (∀ s, itoaDigits radix.base radix.flags itoaBuffLen i [] s = .done chars s) ∧
      itoa i radix.base radix.flags = putBuff chars := by
  have positional := (base_toNat radix).1
  have fits : i.toNat < radix.base.toNat ^ itoaBuffLen := lt_of_lt_of_le i.toNat_lt (base_pow_room radix)
  have stored (s : Printing) : itoaDigits radix.base radix.flags itoaBuffLen i [] s =
      .done (numeral radix.digit radix.base.toNat i.toNat) s := by
    have digits := itoaDigits_numeral radix 19 i [] s fits
    rwa [List.append_nil] at digits
  refine ⟨numeral radix.digit radix.base.toNat i.toNat, numeral_iff _ positional _, ?_, stored, ?_⟩
  · exact numeral_length_le _ positional (by decide) fits
  · funext s
    exact Prog.bind_done _ (stored s)

end

end Sos.Kernel
