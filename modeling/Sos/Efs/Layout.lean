import Mathlib.Data.Nat.Bitwise
import Sos.Efs.Tools

/-! A device seen as what it holds: the superblock, the bitmap, the inode table and
the data blocks. The three updates below are all that the routines ever do to it. -/

namespace Sos.Efs
open Sos.Lib Sos.Lib.Bytes

theorem bitMask_toNat (n : UInt32) : (bitMask n).toNat = 2 ^ (7 - n.toNat % 8) := by
  have small : n.toNat % 8 < 8 := Nat.mod_lt _ (by omega)
  have shift : (7 - n % 8 : UInt32).toNat = 7 - n.toNat % 8 := by
    simp only [UInt32.toNat_sub, UInt32.toNat_mod]
    simp
    omega
  have bound : 2 ^ (7 - n.toNat % 8) < 2 ^ 32 := Nat.pow_lt_pow_right (by omega) (by omega)
  rw [bitMask, UInt32.toNat_shiftLeft, shift, Nat.shiftLeft_eq,
    Nat.mod_eq_of_lt (show 7 - n.toNat % 8 < 32 by omega)]
  simpa using bound

theorem bitMask_test (b : UInt8) (n : UInt32) :
    (b.toUInt32 &&& bitMask n ≠ 0) ↔ b.toNat.testBit (7 - n.toNat % 8) = true := by
  rw [Ne, ← UInt32.toNat_inj, UInt32.toNat_and, UInt8.toNat_toUInt32, bitMask_toNat,
    Nat.and_two_pow]
  cases b.toNat.testBit (7 - n.toNat % 8) <;> simp

theorem bitMask_set (b : UInt8) (n : UInt32) (j : Nat) (h : j < 8) :
    ((b.toUInt32 ||| bitMask n).toUInt8).toNat.testBit j =
      (decide (j = 7 - n.toNat % 8) || b.toNat.testBit j) := by
  rw [UInt32.toNat_toUInt8, Nat.testBit_mod_two_pow, UInt32.toNat_or, bitMask_toNat,
    Nat.testBit_or, Nat.testBit_two_pow]
  simp [h, Bool.or_comm, eq_comm]

namespace Device

def sb (d : Device) : Superblock := Superblock.ofBytes ((d.block 0).slice bootcodeLen)

def dataCount (d : Device) : Nat := d.sb.dataCount.toNat

/-- Data block `n` is marked used. -/
def bit (d : Device) (n : Nat) : Bool :=
  ((d.block 0).byte (sectMap + n / 8)).toNat.testBit (7 - n % 8)

def inode (d : Device) (i : Nat) : Inode :=
  Inode.ofBytes ((d.block (i / 16 + 1)).slice (i % 16 * 64))

/-- Data block `n`, five device blocks further on. -/
def data (d : Device) (n : Nat) : Block := d.block (n + 5)

def mark (d : Device) (n : UInt32) : Device :=
  d.put 0 ((d.block 0).blit (sectMap + n.toNat / 8) 1 fun _ =>
    (((d.block 0).byte (sectMap + n.toNat / 8)).toUInt32 ||| bitMask n).toUInt8)

def putInode (d : Device) (i : Nat) (x : Inode) : Device :=
  d.put (i / 16 + 1) ((d.block (i / 16 + 1)).blit (i % 16 * 64) 64 x.toBytes.byte)

def putData (d : Device) (n : Nat) (b : Block) : Device := d.put (n + 5) b

variable (d : Device)

@[simp] theorem count_put (n : Nat) (b : Block) : (d.put n b).count = d.count := rfl
@[simp] theorem count_mark (n : UInt32) : (d.mark n).count = d.count := rfl
@[simp] theorem count_putInode (i : Nat) (x : Inode) : (d.putInode i x).count = d.count := rfl
@[simp] theorem count_putData (n : Nat) (b : Block) : (d.putData n b).count = d.count := rfl

theorem block_put (n m : Nat) (b : Block) :
    (d.put n b).block m = if m = n then b else d.block m := rfl

@[simp] theorem sb_mark (n : UInt32) : (d.mark n).sb = d.sb := by
  simp only [sb, mark, block_put, ↓reduceIte]
  congr 1
  exact Buf.slice_blit_other _ _ _ _ _ (by unfold sectMap; omega)

@[simp] theorem sb_putInode (i : Nat) (x : Inode) : (d.putInode i x).sb = d.sb := by
  simp [sb, putInode, block_put]

@[simp] theorem sb_putData (n : Nat) (b : Block) : (d.putData n b).sb = d.sb := by
  simp [sb, putData, block_put]

theorem bit_mark (n : UInt32) (m : Nat) (bound : n.toNat < 3936) :
    (d.mark n).bit m = (decide (m = n.toNat) || d.bit m) := by
  simp only [bit, mark, block_put, ↓reduceIte]
  by_cases same : m / 8 = n.toNat / 8
  · rw [same, Buf.byte_blit_inside _ _ _ _ (by omega) (by omega) (by unfold sectMap bootcodeLen; omega),
      bitMask_set _ _ _ (by omega)]
    congr 1
    exact decide_eq_decide.mpr (by omega)
  · rw [Buf.byte_blit_outside _ _ _ _ (by omega)]
    simp [show m ≠ n.toNat by omega]

@[simp] theorem bit_putInode (i : Nat) (x : Inode) (m : Nat) : (d.putInode i x).bit m = d.bit m := by
  simp [bit, putInode, block_put]

@[simp] theorem bit_putData (n : Nat) (b : Block) (m : Nat) : (d.putData n b).bit m = d.bit m := by
  simp [bit, putData, block_put]

@[simp] theorem inode_mark (n : UInt32) (i : Nat) : (d.mark n).inode i = d.inode i := by
  simp [inode, mark, block_put]

theorem inode_putInode (i j : Nat) (x : Inode) :
    (d.putInode i x).inode j = if j = i then x else d.inode j := by
  simp only [inode, putInode, block_put]
  by_cases same : j = i
  · subst same
    rw [if_pos rfl, if_pos rfl, Buf.slice_blit_same _ _ _ (by omega), Inode.ofBytes_toBytes]
  · rw [if_neg same]
    by_cases table : j / 16 + 1 = i / 16 + 1
    · rw [if_pos table, Buf.slice_blit_other _ _ _ _ _ (by omega), table]
    · rw [if_neg table]

theorem inode_putData (n : Nat) (b : Block) (i : Nat) (h : i < 64) :
    (d.putData n b).inode i = d.inode i := by
  simp only [inode, putData, block_put]
  rw [if_neg (by omega)]

@[simp] theorem data_mark (n : UInt32) (m : Nat) : (d.mark n).data m = d.data m := by
  simp [data, mark, block_put]

theorem data_putInode (i : Nat) (x : Inode) (m : Nat) (h : i < 64) :
    (d.putInode i x).data m = d.data m := by
  simp [data, putInode, block_put, show m + 5 ≠ i / 16 + 1 by omega]

theorem data_putData (n : Nat) (b : Block) (m : Nat) :
    (d.putData n b).data m = if m = n then b else d.data m := by
  simp [data, putData, block_put]

end Device

/-- The superblock that `mkefs` writes, whatever the number of data blocks and the size of the
device. -/
structure Tabled (d : Device) : Prop where
  some_ : 0 < d.count
  inodeOffset : d.sb.inodeOffset = 1
  inodeCount : d.sb.inodeCount = 64
  dataOffset : d.sb.dataOffset = 5

/-- A superblock that leads to the inode table and the root directory, and the blocks for
these. -/
structure Rooted (d : Device) : Prop where
  inodeOffset : d.sb.inodeOffset = 1
  inodeCount : d.sb.inodeCount = 64
  dataOffset : d.sb.dataOffset = 5
  room : 6 ≤ d.count

namespace Rooted
variable {d : Device}

theorem some_ (r : Rooted d) : 0 < d.count := Nat.lt_of_lt_of_le (by decide) r.room

theorem tabled (r : Rooted d) : Tabled d := ⟨r.some_, r.inodeOffset, r.inodeCount, r.dataOffset⟩

theorem mark (r : Rooted d) (n : UInt32) : Rooted (d.mark n) := by
  obtain ⟨a, b, c, e⟩ := r
  constructor <;> simpa

theorem putInode (r : Rooted d) (n : Nat) (x : Inode) : Rooted (d.putInode n x) := by
  obtain ⟨a, b, c, e⟩ := r
  constructor <;> simpa

theorem putData (r : Rooted d) (n : Nat) (b : Block) : Rooted (d.putData n b) := by
  obtain ⟨a, b, c, e⟩ := r
  constructor <;> simpa

end Rooted

/-- The superblock that `mkefs` writes, on a device large enough for it. -/
structure Formatted (d : Device) : Prop where
  ident : d.sb.ident = newSuperblock.ident
  inodeOffset : d.sb.inodeOffset = 1
  inodeCount : d.sb.inodeCount = 64
  dataOffset : d.sb.dataOffset = 5
  root : 0 < d.dataCount
  dataCount : d.dataCount ≤ 3936
  room : d.dataCount + 5 ≤ d.count

namespace Formatted
variable {d : Device}

theorem rooted (f : Formatted d) : Rooted d where
  inodeOffset := f.inodeOffset
  inodeCount := f.inodeCount
  dataOffset := f.dataOffset
  room := by
    have root := f.root
    have room := f.room
    omega

theorem some_ (f : Formatted d) : 0 < d.count := f.rooted.some_

/-- Only the superblock and the size of the device matter. -/
theorem congr (f : Formatted d) {e : Device} (sb : e.sb = d.sb) (count : e.count = d.count) : Formatted e := by
  obtain ⟨ident, inodeOffset, inodeCount, dataOffset, root, dataCount, room⟩ := f
  constructor <;> simpa only [Device.dataCount, sb, count]

theorem mark (f : Formatted d) (n : UInt32) : Formatted (d.mark n) := by
  obtain ⟨a, b, c, e, g, h, i⟩ := f
  constructor <;> simpa [Device.dataCount]

theorem putInode (f : Formatted d) (n : Nat) (x : Inode) : Formatted (d.putInode n x) := by
  obtain ⟨a, b, c, e, g, h, i⟩ := f
  constructor <;> simpa [Device.dataCount]

theorem putData (f : Formatted d) (n : Nat) (b : Block) : Formatted (d.putData n b) := by
  obtain ⟨a, b, c, e, g, h, i⟩ := f
  constructor <;> simpa [Device.dataCount]

end Formatted

end Sos.Efs
