import Sos.Efs.Rounds

/-! A copy leaves the root directory alone, whatever its reads give: a source longer than
the pointers reach, an error, or nothing. -/

namespace Sos.Efs
open Sos.Lib Sos.Lib.Bytes

/-- What a copy keeps: the directory as it is, and indirect blocks inside the data area. -/
structure Steady (entries : Block) (cnt : Nat) (d : Device) : Prop where
  formatted : Formatted d
  directory : Directory d cnt
  entries : d.data 0 = entries
  root : d.bit 0 = true
  indirect : ∀ i, i < 64 → (d.inode i).indirectData.toNat < d.dataCount

namespace Steady
variable {entries : Block} {cnt : Nat} {d : Device} (steady : Steady entries cnt d)
include steady

theorem mark {b : UInt32} (inside : b.toNat < d.dataCount) : Steady entries cnt (d.mark b) where
  formatted := steady.formatted.mark b
  directory := steady.directory.frame (d.data_mark b 0) (d.inode_mark b 0)
    (fun j _ => by rw [Device.inode_mark]) (fun j _ _ => d.inode_mark b j)
  entries := by rw [Device.data_mark, steady.entries]
  root := by
    have bound := steady.formatted.dataCount
    rw [Device.bit_mark _ _ _ (by omega), steady.root, Bool.or_true]
  indirect := by
    intro i upper
    rw [Device.inode_mark, Device.dataCount, Device.sb_mark]
    exact steady.indirect i upper

theorem putData {n : Nat} (file : n ≠ 0) (b : Block) : Steady entries cnt (d.putData n b) where
  formatted := steady.formatted.putData n b
  directory := steady.directory.frame (by rw [Device.data_putData, if_neg (Ne.symm file)])
    (d.inode_putData n b 0 (by omega)) (fun j upper => by rw [Device.inode_putData _ _ _ _ upper])
    (fun j upper _ => d.inode_putData n b j upper)
  entries := by rw [Device.data_putData, if_neg (Ne.symm file), steady.entries]
  root := by rw [Device.bit_putData, steady.root]
  indirect := by
    intro i upper
    rw [Device.inode_putData _ _ _ _ upper, Device.dataCount, Device.sb_putData]
    exact steady.indirect i upper

theorem putInode {i : Nat} (file : 1 ≤ i ∧ i < 64) (referenced : (d.inode i).refs ≠ 0) {x : Inode}
    (refs : x.refs = (d.inode i).refs) (inside : x.indirectData.toNat < d.dataCount) :
    Steady entries cnt (d.putInode i x) where
  formatted := steady.formatted.putInode i x
  directory := by
    apply steady.directory.frame (d.data_putInode i x 0 file.2)
    · rw [Device.inode_putInode, if_neg (by omega)]
    · intro j _
      rw [Device.inode_putInode]
      split
      next same => rw [same, refs]
      next => rfl
    · intro j _ unused
      rw [Device.inode_putInode, if_neg]
      rintro rfl
      exact referenced unused
  entries := by rw [Device.data_putInode _ _ _ _ file.2, steady.entries]
  root := by rw [Device.bit_putInode, steady.root]
  indirect := by
    intro j upper
    rw [Device.inode_putInode, Device.dataCount, Device.sb_putInode]
    split
    · exact inside
    · exact steady.indirect j upper

theorem lookup {d' : Device} (later : Steady entries cnt d') (s : List UInt8) : d'.lookup s = d.lookup s :=
  Device.lookup_congr (by rw [later.entries, steady.entries]) s

theorem referenced {d' : Device} (later : Steady entries cnt d') {i : Nat} (file : 1 ≤ i ∧ i < 64)
    (before : (d.inode i).refs ≠ 0) : (d'.inode i).refs ≠ 0 := by
  have inodes : d'.entryInode = d.entryInode := by
    funext e
    simp only [Device.entryInode, later.entries, steady.entries]
  rw [later.directory.used i file.1 file.2, inodes]
  exact (steady.directory.used i file.1 file.2).mp before

end Steady

end Sos.Efs
