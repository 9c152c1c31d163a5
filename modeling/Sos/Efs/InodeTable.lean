import Sos.Efs.Integrity

/-! The inode table as an array, for every number that `set_inode` and `get_inode` let pass. -/

namespace Sos.Efs
open Sos.Lib Sos.Lib.Bytes

/-- Inode `num` reads as `x`; the other inodes, the superblock, the bitmap and the data blocks
are as they were. -/
structure TableWrite (num : UInt32) (x : Inode) (d d' : Device) : Prop where
  self : getInode num d' = .done (some x) d'
  others : ∀ m v, m ≠ num → getInode m d = .done (some v) d → getInode m d' = .done (some v) d'
  front : d'.block 0 = d.block 0
  data : ∀ n, d'.data n = d.data n

/-- The slot of inode `num` is inside the blocks from `inode_offset` to `data_offset`. -/
def InTable (num : UInt32) (d : Device) : Prop :=
  num.toNat / 16 + d.sb.inodeOffset.toNat < d.sb.dataOffset.toNat ∧ inodeSlot num + 64 ≤ 1024

/-- `set_inode` refuses, or stores in the slot that it names and nowhere else; and what the two
routines accept names a slot of the table. -/
structure TableArray (num : UInt32) (x : Inode) (d : Device) : Prop where
  write : setInode num x d = .done (-1) d ∨ ∃ d', setInode num x d = .done 0 d' ∧ TableWrite num x d d'
  slot : setInode num x d ≠ .done (-1) d ∨ getInode num d ≠ .done none d → InTable num d

section
variable {d : Device} (t : Tabled d) {num : UInt32} {x : Inode}
include t

theorem inTable_iff : InTable num d ↔ num.toNat < 64 := by
  have slot : inodeSlot num + 64 ≤ 1024 := by
    have small : (num % 16).toNat = num.toNat % 16 := UInt32.toNat_mod num 16
    unfold inodeSlot
    omega
  have first : d.sb.inodeOffset.toNat = 1 := congrArg UInt32.toNat t.inodeOffset
  have past : d.sb.dataOffset.toNat = 5 := congrArg UInt32.toNat t.dataOffset
  unfold InTable
  omega

theorem getInode_some {v : Inode} (found : getInode num d = .done (some v) d) :
    num.toNat ≤ 64 ∧ num.toNat / 16 + 1 < d.count ∧ d.inode num.toNat = v := by
  by_cases big : 64 < num.toNat
  · rw [getInode_refused t num big] at found
    cases found
  · rw [getInode_cases t num (by omega)] at found
    split at found
    next inside =>
      rw [Outcome.done.injEq, Option.some.injEq] at found
      exact ⟨by omega, inside, found.1⟩
    next => cases found

theorem Tabled.putInode (i : Nat) (x : Inode) : Tabled (d.putInode i x) where
  some_ := t.some_
  inodeOffset := by rw [Device.sb_putInode, t.inodeOffset]
  inodeCount := by rw [Device.sb_putInode, t.inodeCount]
  dataOffset := by rw [Device.sb_putInode, t.dataOffset]

theorem tableWrite_putInode (file : num.toNat < 64) (inside : num.toNat / 16 + 1 < d.count) :
    TableWrite num x d (d.putInode num.toNat x) where
  self := by
    rw [getInode_cases (t.putInode _ _) num file.le, Device.count_putInode, if_pos inside,
      Device.inode_putInode, if_pos rfl]
  others := by
    intro m v other found
    obtain ⟨accepted, within, value⟩ := getInode_some t found
    have differ : m.toNat ≠ num.toNat := fun same => other (UInt32.toNat_inj.mp same)
    rw [getInode_cases (t.putInode _ _) m accepted, Device.count_putInode, if_pos within,
      Device.inode_putInode, if_neg differ, value]
  front := by
    rw [Device.putInode, Device.block_put, if_neg (by omega)]
  data := fun n => d.data_putInode _ _ n file

/-- The inode table is an array for every number but 64, which names the first data block; the
block of the table must be on the device. -/
theorem inodeTable_array_iff (num : UInt32) (x : Inode) : TableArray num x d ↔
    num.toNat ≠ 64 ∧ (num.toNat < 64 → num.toNat / 16 + 1 < d.count) := by
  constructor
  · intro array
    by_cases big : 64 < num.toNat
    · exact ⟨by omega, by omega⟩
    have run := setInode_cases t num x (by omega)
    have accepted : setInode num x d ≠ .done (-1) d := by
      rw [run]
      split <;> simp
    have file := (inTable_iff t).mp (array.slot (Or.inl accepted))
    refine ⟨by omega, fun _ => ?_⟩
    by_contra outside
    rw [run, if_neg outside] at accepted
    rcases array.write with refused | ⟨d', written, -⟩
    · rw [run, if_neg outside] at refused
      cases refused
    · rw [run, if_neg outside] at written
      cases written
  · rintro ⟨other, inside⟩
    by_cases big : 64 < num.toNat
    · have refused := setInode_refused t num x big
      refine ⟨Or.inl refused, ?_⟩
      rintro (accepted | accepted)
      · exact absurd refused accepted
      · exact absurd (getInode_refused t num big) accepted
    · have file : num.toNat < 64 := by omega
      have written := setInode_cases t num x file.le
      rw [if_pos (inside file)] at written
      exact ⟨Or.inr ⟨_, written, tableWrite_putInode t file (inside file)⟩,
        fun _ => (inTable_iff t).mpr file⟩

end

theorem inodeTable_array_iff_floppy : TableArray 1 Inode.zero (freshImage 1440 floppy) ↔
    (1 : UInt32).toNat ≠ 64 ∧
      ((1 : UInt32).toNat < 64 → (1 : UInt32).toNat / 16 + 1 < (freshImage 1440 floppy).count) :=
  inodeTable_array_iff (rooted_freshImage (by decide)).tabled 1 Inode.zero

/-- Inode 64 of a new floppy is written over the entries of the root directory. -/
theorem inodeTable_overrun : setInode 64 Inode.zero (freshImage 1440 floppy) =
      .done 0 ((freshImage 1440 floppy).putInode 64 Inode.zero) ∧
    ((freshImage 1440 floppy).putInode 64 Inode.zero).data 0 ≠ (freshImage 1440 floppy).data 0 ∧
    ¬TableArray 64 Inode.zero (freshImage 1440 floppy) := by
  have r : Rooted (freshImage 1440 floppy) := rooted_freshImage (by decide)
  refine ⟨setInode_done r 64 Inode.zero le_rfl, ?_, ?_⟩
  · intro same
    have entry := congrArg (fun b : Block => b.byte 0) same
    change ((freshImage 1440 floppy).data 0 |>.blit 0 64 Inode.zero.toBytes.byte).byte 0 =
      ((freshImage 1440 floppy).data 0).byte 0 at entry
    rw [Buf.byte_blit_inside _ _ _ _ (by omega) (by omega) (by omega), data_freshImage, byte_rootEntry,
      if_pos rfl] at entry
    exact absurd entry (by decide)
  · intro array
    have accepted : setInode 64 Inode.zero (freshImage 1440 floppy) ≠ .done (-1) (freshImage 1440 floppy) := by
      rw [setInode_done r 64 Inode.zero le_rfl]
      simp
    exact absurd ((inTable_iff r.tabled).mp (array.slot (Or.inl accepted))) (by decide)

end Sos.Efs
