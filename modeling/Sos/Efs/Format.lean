import Sos.Efs.Run

/-! The image that `mkefs` leaves. -/

namespace Sos.Efs
open Sos.Lib Sos.Lib.Bytes

/-- Block 0 after `create_superblock`: an empty bitmap behind the superblock. -/
def superblockBlock (blockCount : UInt32) : Block :=
  (Buf.zero : Block).blit bootcodeLen 20 (makeSuperblock blockCount).toBytes.byte

/-- The four blocks of the inode table cleared. -/
def Device.clearTable (d : Device) : Device :=
  (((d.put 1 Buf.zero).put 2 Buf.zero).put 3 Buf.zero).put 4 Buf.zero

def rootInode : Inode := { Inode.zero with size := 16, refs := 1 }

def freshImage (blockCount : UInt32) (disk : Device) : Device :=
  ((((disk.put 0 (superblockBlock blockCount)).clearTable.putData 0 rootEntry).putInode 0
    rootInode).mark 0)

section
variable {blockCount : UInt32} {disk : Device}

theorem sb_superblock : (disk.put 0 (superblockBlock blockCount)).sb = makeSuperblock blockCount := by
  rw [Device.sb, Device.block_put, if_pos rfl, superblockBlock,
    Buf.slice_blit_same _ _ _ (by unfold bootcodeLen; omega), Superblock.ofBytes_toBytes]

theorem sb_freshImage : (freshImage blockCount disk).sb = makeSuperblock blockCount := by
  rw [freshImage, Device.sb_mark, Device.sb_putInode, Device.sb_putData]
  change (disk.put 0 (superblockBlock blockCount)).sb = _
  exact sb_superblock

section
variable (room : 6 ≤ disk.count)
include room

theorem rooted_cleared : Rooted (disk.put 0 (superblockBlock blockCount)).clearTable := by
  have sb : (disk.put 0 (superblockBlock blockCount)).clearTable.sb = makeSuperblock blockCount := by
    change (disk.put 0 (superblockBlock blockCount)).sb = _
    exact sb_superblock
  exact ⟨by rw [sb]; rfl, by rw [sb]; rfl, by rw [sb]; rfl, room⟩

theorem rooted_freshImage : Rooted (freshImage blockCount disk) :=
  (((rooted_cleared room).putData 0 rootEntry).putInode 0 rootInode).mark 0

theorem mkefs_done : mkefs blockCount disk = .done 0 (freshImage blockCount disk) := by
  have write : ∀ (d : Device) (n : UInt32) (b : Block), d.count = disk.count → n.toNat < 6 →
      writeBlock n b d = .done 0 (d.put n.toNat b) := by
    intro d n b same small
    exact writeBlock_inside d n b (by omega) (by omega)
  have superblock : createSuperblock blockCount disk =
      .done (makeSuperblock blockCount) (disk.put 0 (superblockBlock blockCount)) := by
    rw [createSuperblock, Prog.bind_done _ (write disk 0 _ rfl (by simp))]
    rfl
  have table : createInodeblocks (makeSuperblock blockCount) (disk.put 0 (superblockBlock blockCount)) =
      .done () (disk.put 0 (superblockBlock blockCount)).clearTable := by
    change zeroBlocks 4 1 _ = _
    rw [zeroBlocks, Prog.bind_done _ (write _ 1 _ (by rfl) (by simp)), zeroBlocks,
      Prog.bind_done _ (write _ (1 + 1) _ (by rfl) (by decide)), zeroBlocks,
      Prog.bind_done _ (write _ (1 + 1 + 1) _ (by rfl) (by decide)), zeroBlocks,
      Prog.bind_done _ (write _ (1 + 1 + 1 + 1) _ (by rfl) (by decide))]
    rfl
  have root : createRootdir (makeSuperblock blockCount)
      (disk.put 0 (superblockBlock blockCount)).clearTable =
        .done () (freshImage blockCount disk) := by
    have cleared : Rooted (disk.put 0 (superblockBlock blockCount)).clearTable := rooted_cleared room
    have r1 := cleared.putData 0 rootEntry
    have r2 := r1.putInode 0 rootInode
    have unmarked : (((disk.put 0 (superblockBlock blockCount)).clearTable.putData 0 rootEntry).putInode 0
        rootInode).bit 0 = false := by
      rw [Device.bit_putInode, Device.bit_putData, Device.bit]
      change (((superblockBlock blockCount).byte 532).toNat.testBit 7) = false
      rw [superblockBlock, Buf.byte_blit_outside _ _ _ _ (by unfold bootcodeLen; omega), Buf.byte_zero]
      rfl
    rw [createRootdir, Prog.bind_done _ (write _ (makeSuperblock blockCount).dataOffset _ (by rfl) (by
      change (5 : UInt32).toNat < 6
      decide))]
    change (setInode 0 rootInode >>= _) (Device.putData _ 0 rootEntry) = _
    rw [Prog.bind_done _ (setInode_done r1 0 rootInode (by simp)), UInt32.toNat_zero,
      Prog.bind_done _ (markBlockUsed_free r2.some_ 0 (by simp) unmarked)]
    rfl
  rw [mkefs, Prog.bind_done _ superblock, Prog.bind_done _ table, Prog.bind_done _ root]
  rfl

end

section
variable (lower : 6 ≤ blockCount.toNat) (upper : blockCount.toNat ≤ 3941)
  (fits : blockCount.toNat ≤ disk.count)
include lower upper fits

theorem formatted_superblock : Formatted (disk.put 0 (superblockBlock blockCount)) := by
  have sb : (disk.put 0 (superblockBlock blockCount)).sb = makeSuperblock blockCount := sb_superblock
  have count : (blockCount - 5).toNat = blockCount.toNat - 5 := by
    rw [UInt32.toNat_sub_of_le _ _ (by rw [UInt32.le_iff_toNat_le]; simp; omega)]
    rfl
  have dataCount : (disk.put 0 (superblockBlock blockCount)).dataCount = blockCount.toNat - 5 := by
    rw [Device.dataCount, sb, ← count]
    rfl
  exact
    { ident := by rw [sb]; rfl
      inodeOffset := by rw [sb]; rfl
      inodeCount := by rw [sb]; rfl
      dataOffset := by rw [sb]; rfl
      root := by omega
      dataCount := by omega
      room := by
        change _ ≤ disk.count
        omega }

theorem formatted_cleared : Formatted (disk.put 0 (superblockBlock blockCount)).clearTable := by
  obtain ⟨a, b, c, e, g, h, i⟩ := formatted_superblock lower upper fits
  exact ⟨a, b, c, e, g, h, i⟩

end

end

theorem inode_freshImage (blockCount : UInt32) (disk : Device) (i : Nat) (h : i < 64) :
    (freshImage blockCount disk).inode i = if i = 0 then rootInode else Inode.zero := by
  have table : ∀ n, 1 ≤ n → n ≤ 4 →
      (disk.put 0 (superblockBlock blockCount)).clearTable.block n = Buf.zero := by
    intro n low high
    rcases (by omega : n = 1 ∨ n = 2 ∨ n = 3 ∨ n = 4) with rfl | rfl | rfl | rfl <;> rfl
  rw [freshImage, Device.inode_mark, Device.inode_putInode]
  split
  · rfl
  · rw [Device.inode_putData _ _ _ _ h, Device.inode, table _ (by omega) (by omega), Inode.zero]
    congr 1
    apply Buf.ext
    intro k bound
    rw [Buf.byte_slice _ _ bound, Buf.byte_zero, Buf.byte_zero]

/-- The inodes of a fresh image are new. -/
theorem freshImage_new (blockCount : UInt32) (disk : Device) {i : Nat} (file : 1 ≤ i ∧ i < 64) :
    ((freshImage blockCount disk).inode i).size = 0 ∧
      ((freshImage blockCount disk).inode i).indirectData = 0 := by
  rw [inode_freshImage _ _ _ file.2, if_neg (by omega)]
  exact ⟨by decide, by decide⟩

/-- Only the root directory's block is in use. -/
theorem bit_freshImage (blockCount : UInt32) (disk : Device) (m : Nat) :
    (freshImage blockCount disk).bit m = decide (m = 0) := by
  rw [freshImage, Device.bit_mark _ _ _ (by simp), Device.bit_putInode, Device.bit_putData, Device.bit]
  change (decide (m = 0) || ((superblockBlock blockCount).byte (532 + m / 8)).toNat.testBit (7 - m % 8)) = _
  rw [superblockBlock, Buf.byte_blit_outside _ _ _ _ (by unfold bootcodeLen; omega), Buf.byte_zero]
  simp

theorem data_freshImage (blockCount : UInt32) (disk : Device) :
    (freshImage blockCount disk).data 0 = rootEntry := by
  rw [freshImage, Device.data_mark, Device.data_putInode _ _ _ _ (by omega), Device.data_putData,
    if_pos rfl]

theorem byte_rootEntry (i : Nat) : rootEntry.byte i = if i = 0 then 0x2E else 0 := by
  by_cases inside : i < 1024
  · rw [rootEntry, Buf.byte_blit _ _ _ _ inside, Buf.byte_zero]
    by_cases zero : i = 0
    · simp [zero]
    · rw [if_neg (by omega), if_neg zero]
  · rw [Buf.byte, dif_neg inside, if_neg (by omega)]

theorem directory_freshImage (blockCount : UInt32) (disk : Device) :
    Directory (freshImage blockCount disk) 1 := by
  have root := inode_freshImage blockCount disk 0 (by omega)
  rw [if_pos rfl] at root
  have data := data_freshImage blockCount disk
  have entry : (freshImage blockCount disk).entryInode 0 = 0 := by
    rw [Device.entryInode, data, Buf.word]
    simp [byte_rootEntry]
    rfl
  exact
    { size := by rw [root]; rfl
      first := le_rfl
      last := by omega
      data0 := by rw [root]; decide
      data1 := by rw [root]; decide
      refs := by rw [root]; decide
      indirect := by rw [root]; decide
      selfStr := by
        rw [Device.entryStr, data, cstr_succ]
        simp [byte_rootEntry, cstr_zero]
      selfInode := entry
      named := fun e _ _ => by omega
      blank := fun i low _ => by rw [data, byte_rootEntry, if_neg (by omega)]
      inodes := fun e _ _ => by omega
      distinct := fun e e' _ _ _ => by omega
      used := by
        intro i low high
        rw [inode_freshImage _ _ _ high, if_neg (by omega)]
        refine iff_of_false (by decide) ?_
        rintro ⟨e, _, _, _⟩
        omega
      fresh := by
        intro i high unused
        rw [inode_freshImage _ _ _ high] at unused ⊢
        split at unused
        · exact absurd unused (by decide)
        · rename_i other
          rw [if_neg other]
          decide }

/-- Without files only the root directory owns a block. -/
theorem owned_empty {d : Device} (root : 0 < d.dataCount) (mark : d.bit 0 = true) (self : (d.inode 0).indirectData = 0)
    (empty : ∀ i, 1 ≤ i → i < 64 → d.inode i = Inode.zero) : Owned d := by
  have live : ∀ a : Ref, a.Live d → a = .root := by
    intro a live
    cases a with
    | root => rfl
    | indirect i =>
      refine absurd ?_ live.2
      by_cases zero : i = 0
      · rw [zero, self]
      · rw [empty i (by omega) live.1]
        decide
    | slot i s =>
      obtain ⟨low, high, inside⟩ := live
      rw [Device.blocks, empty i low high] at inside
      exact absurd inside (by simp [Inode.zero, Inode.ofBytes])
  refine { unique := ?_, inside := ?_, marked := ?_, size := ?_, indirect := ?_ }
  · intro a b liveA liveB _
    rw [live a liveA, live b liveB]
  · intro a liveA
    rw [live a liveA]
    exact root
  · intro a liveA
    rw [live a liveA]
    exact mark
  · intro i low high
    rw [empty i low high]
    simp [Inode.zero, Inode.ofBytes]
  · intro i low high more
    rw [Device.blocks, empty i low high] at more
    exact absurd more (by simp [Inode.zero, Inode.ofBytes])

/-- A formatted image holds the root directory and nothing else. -/
theorem sound_freshImage {blockCount : UInt32} {disk : Device} (lower : 6 ≤ blockCount.toNat)
    (upper : blockCount.toNat ≤ 3941) (fits : blockCount.toNat ≤ disk.count) :
    Sound (freshImage blockCount disk) where
  formatted := (((formatted_cleared lower upper fits).putData 0 rootEntry).putInode 0 rootInode).mark 0
  directory := ⟨1, directory_freshImage blockCount disk⟩
  owned := by
    have formatted :=
      (((formatted_cleared lower upper fits).putData 0 rootEntry).putInode 0 rootInode).mark 0
    refine owned_empty formatted.root ?_ ?_ fun i low high => ?_
    · rw [freshImage, Device.bit_mark _ _ _ (by simp)]
      rfl
    · rw [inode_freshImage _ _ _ (by decide)]
      rfl
    · rw [inode_freshImage _ _ _ high, if_neg (by omega)]

end Sos.Efs
