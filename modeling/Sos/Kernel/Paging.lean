import Sos.Kernel.Places

/-! The page walk of the processor. -/

namespace Sos.Kernel
open Sos.Lib

/-- Where an address leads, and what may be done there. -/
structure Translation where
  frame : UInt32
  user : Bool
  writable : Bool
  deriving DecidableEq

/-- The walk over two levels; a right is granted when both entries grant it. -/
def pageWalk (m : Mem) (pd va : UInt32) : Option Translation :=
  let pde := m.load (pd + 4 * (va >>> (22 : UInt32)))
  if pde &&& 1 = 0 then none
  else
    let pte := m.load ((pde &&& 0xFFFFF000) + 4 * ((va >>> (12 : UInt32)) &&& 0x3FF))
    if pte &&& 1 = 0 then none
    else some ⟨pte &&& 0xFFFFF000, pde &&& pte &&& 4 ≠ 0, pde &&& pte &&& 2 ≠ 0⟩

theorem directory_index (va : UInt32) : (va >>> 22).toNat = va.toNat / 4194304 := by
  rw [UInt32.toNat_shiftRight]
  simp [Nat.shiftRight_eq_div_pow]

theorem table_index (va : UInt32) : ((va >>> 12) &&& 0x3FF).toNat = va.toNat / 4096 % 1024 := by
  rw [UInt32.toNat_and, UInt32.toNat_shiftRight]
  change (va.toNat >>> 12) &&& (2 ^ 10 - 1) = _
  rw [Nat.and_two_pow_sub_one_eq_mod, Nat.shiftRight_eq_div_pow]

/-- A frame's address with flags in its low bits. -/
theorem flags_toNat {f : Nat} (small : f < 1048576) {a : UInt32} (low : a.toNat < 4096) :
    (frameAddr f + a).toNat = 4096 * f ||| a.toNat := by
  rw [UInt32.toNat_add, frameAddr_toNat small, Nat.mod_eq_of_lt (by omega)]
  exact Nat.two_pow_add_eq_or_of_lt (i := 12) low f

theorem frame_and_low (f : Nat) {b : Nat} (low : b < 4096) : 4096 * f &&& b = 0 := by
  apply Nat.eq_of_testBit_eq
  intro i
  rw [Nat.testBit_and, Nat.testBit_two_pow_mul (i := 12), Nat.zero_testBit]
  by_cases high : 12 ≤ i
  · have clear : b.testBit i = false :=
      Nat.testBit_lt_two_pow (low.trans_le (Nat.pow_le_pow_right (n := 2) (by decide) high))
    rw [clear, Bool.and_false]
  · simp [high]

theorem flags_or {f : Nat} (small : f < 1048576) {a b : UInt32} (lowA : a.toNat < 4096)
    (lowB : b.toNat < 4096) : (frameAddr f + a) ||| b = frameAddr f + (a ||| b) := by
  have low : (a ||| b).toNat < 4096 := by
    rw [UInt32.toNat_or]
    exact Nat.or_lt_two_pow (n := 12) lowA lowB
  apply UInt32.toNat_inj.mp
  rw [UInt32.toNat_or, flags_toNat small lowA, flags_toNat small low, UInt32.toNat_or, Nat.or_assoc]

theorem flags_and {f : Nat} (small : f < 1048576) {a b : UInt32} (lowA : a.toNat < 4096)
    (lowB : b.toNat < 4096) : (frameAddr f + a) &&& b = a &&& b := by
  apply UInt32.toNat_inj.mp
  rw [UInt32.toNat_and, flags_toNat small lowA, UInt32.toNat_and, Nat.and_or_distrib_right,
    frame_and_low f lowB, Nat.zero_or]

theorem flags_frame {f : Nat} (small : f < 1048576) {a : UInt32} (low : a.toNat < 4096) :
    (frameAddr f + a) &&& 0xFFFFF000 = frameAddr f := by
  apply UInt32.toNat_inj.mp
  rw [UInt32.toNat_and, flags_toNat small low, frameAddr_toNat small]
  change (4096 * f ||| a.toNat) &&& (4096 * 1048575) = 4096 * f
  apply Nat.eq_of_testBit_eq
  intro i
  rw [Nat.testBit_and, Nat.testBit_or, Nat.testBit_two_pow_mul (i := 12), Nat.testBit_two_pow_mul (i := 12),
    show 1048575 = 2 ^ 20 - 1 by rfl, Nat.testBit_two_pow_sub_one]
  by_cases high : 12 ≤ i
  · have clear : a.toNat.testBit i = false :=
      Nat.testBit_lt_two_pow (low.trans_le (Nat.pow_le_pow_right (n := 2) (by decide) high))
    by_cases last : i - 12 < 20
    · simp [high, clear, last]
    · have past : f.testBit (i - 12) = false :=
        Nat.testBit_lt_two_pow
        (small.trans_le (Nat.pow_le_pow_right (n := 2) (by decide) (show 20 ≤ i - 12 by omega)))
      simp [high, clear, last, past]
  · simp [high]

/-- Both kinds of entries, for an address of a frame with the lowest bit set or not. -/
theorem frameToPteUser_eq {f : Nat} (small : f < 1048576) :
    frameToPteUser (frameAddr f + 1) = frameAddr f + 7 := by
  unfold frameToPteUser
  rw [flags_or small (by decide) (by decide), flags_or small (by decide) (by decide),
    flags_or small (by decide) (by decide)]
  rfl

theorem frameToPdeUser_eq {f : Nat} (small : f < 1048576) :
    frameToPdeUser (frameAddr f) = frameAddr f + 7 := by
  have plain : frameAddr f = frameAddr f + 0 := (UInt32.add_zero _).symm
  unfold frameToPdeUser
  rw [plain, flags_or small (by decide) (by decide), flags_or small (by decide) (by decide),
    flags_or small (by decide) (by decide), UInt32.add_zero]
  rfl

theorem entry_present {f : Nat} (small : f < 1048576) : (frameAddr f + 7) &&& 1 ≠ 0 := by
  rw [flags_and small (by decide) (by decide)]
  decide

/-- Through a directory entry made by `frame_to_pde_user` the entry of the table decides. -/
theorem pageWalk_entry {m : Mem} {pd va : UInt32} {f : Nat} (small : f < 1048576)
    (entry : m.load (pd + 4 * (va >>> (22 : UInt32))) = frameToPdeUser (frameAddr f)) :
    pageWalk m pd va =
      let pte := m.load (frameAddr f + 4 * ((va >>> (12 : UInt32)) &&& 0x3FF))
      if pte &&& 1 = 0 then none
      else some ⟨pte &&& 0xFFFFF000, (frameAddr f + 7) &&& pte &&& 4 ≠ 0,
        (frameAddr f + 7) &&& pte &&& 2 ≠ 0⟩ := by
  unfold pageWalk
  rw [entry, frameToPdeUser_eq small]
  simp only []
  rw [if_neg (entry_present small), flags_frame small (by decide)]

theorem pageWalk_absent {m : Mem} {pd va : UInt32}
    (entry : m.load (pd + 4 * (va >>> (22 : UInt32))) = 0) : pageWalk m pd va = none := by
  unfold pageWalk
  rw [entry]
  rfl

/-- The walk to a page through entries for its table and itself. -/
theorem pageWalk_mapped {m : Mem} {pd va : UInt32} {f g : Nat} (smallF : f < 1048576) (smallG : g < 1048576)
    (entry : m.load (pd + 4 * (va >>> (22 : UInt32))) = frameToPdeUser (frameAddr f))
    (page : m.load (frameAddr f + 4 * ((va >>> (12 : UInt32)) &&& 0x3FF)) =
      frameToPteUser (frameAddr g + 1)) :
    pageWalk m pd va = some ⟨frameAddr g, true, true⟩ := by
  have right : ∀ b : UInt32, b.toNat < 4096 →
      (frameAddr f + 7) &&& (frameAddr g + 7) &&& b = 7 &&& b := by
    intro b low
    rw [UInt32.and_assoc, flags_and smallG (by decide) low, flags_and smallF (by decide)]
    · rw [← UInt32.and_assoc, UInt32.and_self]
    · rw [UInt32.toNat_and]
      exact Nat.and_lt_two_pow (n := 12) _ low
  rw [pageWalk_entry smallF entry, page, frameToPteUser_eq smallG]
  simp only []
  rw [if_neg (entry_present smallG), flags_frame smallG (by decide), right 4 (by decide),
    right 2 (by decide)]
  rfl

end Sos.Kernel
