import Sos.Efs.Spec

/-! The device as the bytes that `lseek`, `read` and `write` see, and which of them a block
number names. -/

namespace Sos.Efs
open Sos.Lib Sos.Lib.Bytes

namespace Device

/-- The byte at this offset. -/
def byteAt (d : Device) (off : Nat) : UInt8 := (d.block (off / 1024)).byte (off % 1024)

theorem byteAt_put (d : Device) (k : Nat) (x : Block) (off : Nat) : (d.put k x).byteAt off =
    if 1024 * k ≤ off ∧ off < 1024 * k + 1024 then x.byte (off - 1024 * k) else d.byteAt off := by
  rw [byteAt, block_put]
  by_cases same : off / 1024 = k
  · have place : off % 1024 = off - 1024 * k := by omega
    rw [if_pos same, if_pos (by omega), place]
  · rw [if_neg same, if_neg (by omega)]
    rfl

end Device

/-- `x` was stored at `1024 * m`, the product as an exact integer, and nowhere else. -/
structure StoredAt (m : Nat) (x : Block) (d d' : Device) : Prop where
  count : d'.count = d.count
  bytes : ∀ off, d'.byteAt off =
    if 1024 * m ≤ off ∧ off < 1024 * m + 1024 then x.byte (off - 1024 * m) else d.byteAt off

/-- What an array of blocks does: a write to block `m` is refused or stores there and nowhere
else, so that block `n` reads as `x` or as before, and only one number names a block. -/
def ArrayAccess (m n : UInt32) (x : Block) (d : Device) : Prop :=
  (writeBlock m x d = .done (-1) d ∨
    ∃ d' old, writeBlock m x d = .done 0 d' ∧ StoredAt m.toNat x d d' ∧ readBlock n d = .done old d ∧
      readBlock n d' = .done (if n = m then some x else old) d') ∧
  ∀ k, d.seek m = some k → d.seek n = some k → n = m

section
variable {d : Device} (large : 2 ^ 21 ≤ d.count) {m n : UInt32}
include large

theorem seek_large (n : UInt32) : d.seek n =
    if n.toNat % 2 ^ 22 < 2 ^ 21 then some (n.toNat % 2 ^ 22) else none := by
  rw [seek_eq]
  by_cases low : n.toNat % 2 ^ 22 < 2 ^ 21
  · rw [if_pos ⟨low, by omega⟩, if_pos low]
  · rw [if_neg fun both => low both.1, if_neg low]

theorem writeBlock_large (low : m.toNat % 2 ^ 22 < 2 ^ 21) (x : Block) :
    writeBlock m x d = .done 0 (d.put (m.toNat % 2 ^ 22) x) := by
  have place := seek_large large m
  rw [if_pos low] at place
  simp only [writeBlock, place]

theorem arrayAccess_refused (high : 2 ^ 21 ≤ m.toNat % 2 ^ 22) (x : Block) : ArrayAccess m n x d := by
  have place := seek_large large m
  rw [if_neg (by omega)] at place
  refine ⟨Or.inl ?_, ?_⟩
  · simp only [writeBlock, place]
  · intro k found
    rw [place] at found
    cases found

theorem arrayAccess_inside (small : m.toNat < 2 ^ 21) (apart : n.toNat % 2 ^ 22 = m.toNat → n = m)
    (x : Block) : ArrayAccess m n x d := by
  have whole : m.toNat % 2 ^ 22 = m.toNat := Nat.mod_eq_of_lt (by omega)
  have written := writeBlock_large large (m := m) (by omega) x
  have place := seek_large large m
  rw [whole, if_pos small] at place
  rw [whole] at written
  refine ⟨Or.inr ⟨_, (d.seek n).map d.block, written, ⟨rfl, d.byteAt_put m.toNat x⟩, rfl, ?_⟩, ?_⟩
  · have read : readBlock n (d.put m.toNat x) =
        .done ((d.seek n).map (d.put m.toNat x).block) (d.put m.toNat x) := rfl
    rw [read]
    congr 1
    by_cases same : n = m
    · rw [if_pos same, same, place, Option.map_some, Device.block_put, if_pos rfl]
    · rw [if_neg same, seek_large large n]
      split
      · have other : n.toNat % 2 ^ 22 ≠ m.toNat := fun equal => same (apart equal)
        rw [Option.map_some, Option.map_some, Device.block_put, if_neg other]
      · rfl
  · intro k first second
    rw [place, Option.some.injEq] at first
    rw [seek_large large n] at second
    split at second
    · rw [Option.some.injEq] at second
      exact apart (second.trans first.symm)
    · cases second

/-- A number past the range of the offset is taken for a smaller one. -/
theorem not_arrayAccess_wrapped (low : m.toNat % 2 ^ 22 < 2 ^ 21) (past : 2 ^ 22 ≤ m.toNat) {x : Block}
    (differ : x.byte 0 ≠ (d.block (m.toNat % 2 ^ 22)).byte 0) : ¬ArrayAccess m n x d := by
  have written := writeBlock_large large low x
  rintro ⟨refused | ⟨d', old, done, stored, -⟩, -⟩
  · rw [written] at refused
    cases refused
  · rw [written, Outcome.done.injEq] at done
    obtain ⟨-, rfl⟩ := done
    have byte := stored.bytes (1024 * (m.toNat % 2 ^ 22))
    rw [Device.byteAt_put, if_pos (by omega), Nat.sub_self, if_neg (by omega), Device.byteAt,
      Nat.mul_div_cancel_left _ (by decide), Nat.mul_mod_right] at byte
    exact differ byte

end

/-- The device is an array of blocks for `m` and `n` exactly when the offset of `m` is refused
for its sign, or `m` does not wrap and `n` does not wrap to it. -/
theorem blockArray_iff {d : Device} (large : 2 ^ 21 ≤ d.count) (m n : UInt32) :
    (∀ x, ArrayAccess m n x d) ↔
      2 ^ 21 ≤ m.toNat % 2 ^ 22 ∨ m.toNat < 2 ^ 22 ∧ (n.toNat % 2 ^ 22 = m.toNat → n = m) := by
  constructor
  · intro access
    by_cases low : m.toNat % 2 ^ 22 < 2 ^ 21
    · right
      have small : m.toNat < 2 ^ 22 := by
        by_contra past
        refine not_arrayAccess_wrapped large low (not_lt.mp past) ?_
          (access ((d.block (m.toNat % 2 ^ 22)).blit 0 1 fun _ => (d.block (m.toNat % 2 ^ 22)).byte 0 + 1))
        rw [Buf.byte_blit_inside _ _ _ _ (by omega) (by omega) (by omega)]
        simp
      have whole : m.toNat % 2 ^ 22 = m.toNat := Nat.mod_eq_of_lt small
      refine ⟨small, fun same => (access Buf.zero).2 m.toNat ?_ ?_⟩
      · rw [seek_large large, whole, if_pos (by omega)]
      · rw [seek_large large, same, if_pos (by omega)]
    · exact Or.inl (not_lt.mp low)
  · rintro (high | ⟨small, apart⟩) x
    · exact arrayAccess_refused large high x
    · by_cases low : m.toNat < 2 ^ 21
      · exact arrayAccess_inside large low apart x
      · exact arrayAccess_refused large (by omega) x

/-- A device of two gigabytes of zeros. -/
def wide : Device := ⟨2 ^ 21, fun _ => Buf.zero⟩

theorem blockArray_iff_wide : (∀ x, ArrayAccess 0 1 x wide) ↔
    2 ^ 21 ≤ (0 : UInt32).toNat % 2 ^ 22 ∨
      (0 : UInt32).toNat < 2 ^ 22 ∧ ((1 : UInt32).toNat % 2 ^ 22 = (0 : UInt32).toNat → (1 : UInt32) = 0) :=
  blockArray_iff le_rfl 0 1

/-- Block 4194304 is block 0 once more: a write to it goes over the superblock. -/
theorem blockArray_wraps : writeBlock 4194304 (fun _ => 1) wide = .done 0 (wide.put 0 fun _ => 1) ∧
    ¬ArrayAccess 4194304 0 (fun _ => 1) wide :=
  ⟨writeBlock_large (m := 4194304) le_rfl (by decide) _,
    not_arrayAccess_wrapped (m := 4194304) le_rfl (by decide) (by decide) (by decide)⟩

end Sos.Efs
