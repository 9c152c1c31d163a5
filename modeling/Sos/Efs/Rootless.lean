import Sos.Efs.History

/-! An image of fewer than six blocks has no block for its root directory: `mkefs` may
format it, but no file is ever made on it. -/

namespace Sos.Efs
open Sos.Lib Sos.Lib.Bytes

structure Rootless (d : Device) : Prop where
  ident : d.sb.ident = newSuperblock.ident
  inodeOffset : d.sb.inodeOffset = 1
  inodeCount : d.sb.inodeCount = 64
  dataOffset : d.sb.dataOffset = 5
  lower : 2 ≤ d.count
  upper : d.count ≤ 5
  root : d.inode 0 = rootInode
  free : ∀ i, 1 ≤ i → i / 16 + 1 < d.count → d.inode i = Inode.zero

namespace Rootless
variable {d : Device} (rootless : Rootless d)
include rootless

theorem tabled : Tabled d :=
  ⟨Nat.lt_of_lt_of_le (by decide) rootless.lower, rootless.inodeOffset, rootless.inodeCount, rootless.dataOffset⟩

theorem getSuperblock_done : getSuperblock d = .done (some d.sb) d := getSuperblock_some rootless.tabled.some_

theorem rootBlock_done : getLogicalBlock rootInode 0 d = .done 5 d := by
  have real : dataToReal 0 d = .done 5 d := by
    rw [dataToReal, Prog.bind_done _ rootless.getSuperblock_done]
    simp [rootless.dataOffset]
  have first : rootInode.direct (0 : UInt32).toNat = 0 := by decide
  rw [getLogicalBlock, if_pos (by decide), first, logicalToReal,
    Prog.bind_done _ rootless.getSuperblock_done]
  simp only
  rw [Prog.bind_done _ real, if_neg (by decide), real]

theorem rootData_none : readBlock 5 d = .done none d :=
  readBlock_outside d 5 (by simp) (by have := rootless.upper; simp; omega)

theorem rootInode_done : getInode 0 d = .done (some rootInode) d := by
  have lower := rootless.lower
  rw [getInode_cases rootless.tabled 0 (by simp), if_pos (by simp; omega)]
  simp [rootless.root]

theorem findFile_none (filename : Name) : findFile filename d = .done none d := by
  rw [findFile, Prog.bind_done _ rootless.rootInode_done]
  change searchBlocks rootInode filename 1 0 d = _
  rw [searchBlocks, Prog.bind_done _ rootless.rootBlock_done, if_neg (by decide),
    Prog.bind_done _ rootless.rootData_none]
  rfl

theorem addFile_fails (filename : Name) (number : UInt32) :
    addFile filename number d = .done (-1) d := by
  have block : rootInode.size / 1024 = 0 := by decide
  rw [addFile, Prog.bind_done _ rootless.rootInode_done]
  simp only [block]
  rw [Prog.bind_done _ rootless.rootBlock_done, if_neg (by decide),
    Prog.bind_done _ rootless.rootData_none]
  rfl

theorem newFile_fails (filename : Name) : newFile filename d = .done (-1) d := by
  have lower := rootless.lower
  have second : getInode (0 + 1) d = .done (some Inode.zero) d := by
    change getInode 1 d = _
    rw [getInode_cases rootless.tabled 1 (by simp), if_pos (by simp; omega)]
    simp [rootless.free 1 le_rfl (by omega)]
  rw [newFile, Prog.bind_done _ rootless.getSuperblock_done]
  simp only
  rw [Prog.bind_done _ (rootless.findFile_none filename)]
  simp only [rootless.inodeCount, show (64 : UInt32).toNat = 62 + 1 + 1 from rfl]
  have scan : scanInodes (62 + 1 + 1) 0 d = .done (some (0 + 1, Inode.zero)) d := by
    rw [scanInodes, Prog.bind_done _ rootless.rootInode_done]
    simp only
    rw [if_neg (by decide), scanInodes, Prog.bind_done _ second]
    simp only
    rw [if_pos (by decide)]
    rfl
  rw [Prog.bind_done _ scan]
  simp only
  rw [Prog.bind_done _ (rootless.addFile_fails filename _), if_pos rfl]
  rfl

theorem run_fails (job : Job) : job.run d = .done ⟨-1, []⟩ d := by
  have some_ : 0 < d.count := Nat.lt_of_lt_of_le (by decide) rootless.lower
  rw [Job.run, writeefs_valid some_ rootless.ident]
  exact readWrite_refused (rootless.newFile_fails _) _

/-- No run changes such an image. -/
theorem history {log : Log} {d' : Device} (runs : Histories d log d') : d' = d :=
  runs.invariant (fun _ s => s = d) rfl (by
    rintro log s job r t rfl _ run
    rw [rootless.run_fails job] at run
    cases run
    rfl)

/-- Every inode that can be read is empty, the root directory's apart. -/
theorem empty {i : UInt32} (file : 1 ≤ i.toNat ∧ i.toNat < 64) {inode : Inode}
    (read : getInode i d = .done (some inode) d) : inode.size = 0 := by
  rw [getInode_cases rootless.tabled i (by omega)] at read
  by_cases inside : i.toNat / 16 + 1 < d.count
  · rw [if_pos inside, rootless.free _ file.1 inside] at read
    cases read
    decide
  · rw [if_neg inside] at read
    cases read

end Rootless

/-- The loop that clears the inode table, as far as the device reaches. -/
theorem zeroBlocks_done (left : Nat) (i : UInt32) (d : Device) (small : i.toNat + left < 2 ^ 21) :
    ∃ d', zeroBlocks left i d = .done () d' ∧ d'.count = d.count ∧ ∀ m, d'.block m =
      if i.toNat ≤ m ∧ m < i.toNat + left ∧ m < d.count then Buf.zero else d.block m := by
  induction left generalizing i d with
  | zero => exact ⟨d, rfl, rfl, fun m => by rw [if_neg (by omega)]⟩
  | succ left ih =>
    have next : (i + 1).toNat = i.toNat + 1 := toNat_succ (by omega)
    by_cases inside : i.toNat < d.count
    · obtain ⟨d', run, count, blocks⟩ := ih (i + 1) (d.put i.toNat Buf.zero) (by omega)
      refine ⟨d', ?_, count, ?_⟩
      · rw [zeroBlocks, Prog.bind_done _ (writeBlock_inside d i _ (by omega) inside), run]
      · intro m
        simp only [blocks, next, Device.count_put, Device.block_put]
        by_cases self : m = i.toNat
        · rw [if_neg (by omega), if_pos self, if_pos (by omega)]
        · by_cases later : i.toNat + 1 ≤ m ∧ m < i.toNat + 1 + left ∧ m < d.count
          · rw [if_pos later, if_pos (by omega)]
          · rw [if_neg later, if_neg self, if_neg (by omega)]
    · obtain ⟨d', run, count, blocks⟩ := ih (i + 1) d (by omega)
      refine ⟨d', ?_, count, ?_⟩
      · rw [zeroBlocks, Prog.bind_done _ (writeBlock_outside d i _ (by omega) (by omega)), run]
      · intro m
        rw [blocks, next, if_neg (by omega), if_neg (by omega)]

theorem markBlockUsed_first {d : Device} (some_ : 0 < d.count) (free : d.bit 0 = false) :
    markBlockUsed 0 d = .done 0 (d.mark 0) := by
  have byte : mapByte (d.block 0) 0 d = .done ((d.block 0).byte (sectMap + 0)) d := by
    unfold mapByte
    rw [if_pos (by decide)]
    rfl
  rw [markBlockUsed, Prog.bind_done _ (readBlock_inside d 0 (by simp) (by simpa using some_))]
  simp only [UInt32.toNat_zero]
  rw [Prog.bind_done _ byte]
  simp only [bitMask_test]
  rw [if_neg (by change ¬d.bit 0 = true; simp [free]),
    Prog.bind_done _ (writeBlock_inside d 0 _ (by simp) (by simpa using some_))]
  rfl

section
variable {blockCount : UInt32} {d d' : Device} (sb : Superblock) (root : sb.dataOffset = 5)
  (upper : d.count ≤ 5)
include root upper

/-- The root directory's block is not written. -/
theorem createRootdir_small {u : Unit} (made : createRootdir sb d = .done u d') :
    ∃ r d1, setInode 0 rootInode d = .done r d1 ∧ markBlockUsed 0 d1 = .done 0 d' := by
  unfold createRootdir at made
  rw [root, Prog.bind_done _ (writeBlock_outside d 5 _ (by simp) (by simpa using upper))] at made
  obtain ⟨r, d1, stored, made⟩ := Prog.of_bind_done made
  obtain ⟨marked, d2, mark, made⟩ := Prog.of_bind_done made
  refine ⟨r, d1, stored, ?_⟩
  by_cases fine : marked = 0
  · rw [if_neg (not_not.mpr fine)] at made
    cases made
    rw [mark, fine]
  · rw [if_pos fine] at made
    cases made

/-- There is at least a block for the superblock and one for the inode table. -/
theorem createRootdir_count {u : Unit} (made : createRootdir sb d = .done u d')
    (inodeOffset : 0 < d.count → d.sb.inodeOffset = 1 ∧ d.sb.inodeCount = 64) : 2 ≤ d.count := by
  obtain ⟨r, d1, stored, marked⟩ := createRootdir_small sb root upper made
  by_contra few
  by_cases empty : d.count = 0
  · have nothing : readBlock 0 d = .done none d :=
      readBlock_outside d 0 (by simp) (by simp [empty])
    have superblock : getSuperblock d = .done none d := by
      rw [getSuperblock, Prog.bind_done _ nothing]
      rfl
    rw [setInode, Prog.bind_done _ superblock] at stored
    cases stored
    rw [markBlockUsed, Prog.bind_done _ nothing] at marked
    cases marked
  · obtain ⟨offset, number⟩ := inodeOffset (by omega)
    have superblock : getSuperblock d = .done (some d.sb) d := by
      rw [getSuperblock, Prog.bind_done _ (readBlock_inside d 0 (by simp) (by simp; omega))]
      rfl
    rw [setInode, Prog.bind_done _ superblock] at stored
    simp only [offset, number] at stored
    rw [if_neg (by decide), Prog.bind_done _ (readBlock_outside d _ (by decide) (by
      change d.count ≤ 1
      omega))] at stored
    cases stored

end

theorem mkefs_rootless {blockCount : UInt32} {disk image : Device} (small : blockCount.toNat < 6)
    (exactly : disk.count = blockCount.toNat) (made : mkefs blockCount disk = .done 0 image) :
    Rootless image := by
  obtain ⟨sb, d1, first, made⟩ := Prog.of_bind_done made
  obtain ⟨_, d2, table, made⟩ := Prog.of_bind_done made
  obtain ⟨_, d3, root, made⟩ := Prog.of_bind_done made
  cases made
  obtain ⟨_, d1', write, first⟩ := Prog.of_bind_done first
  cases first
  have stored : d1.count = disk.count ∧ (0 < disk.count → d1.block 0 = superblockBlock blockCount) := by
    by_cases empty : disk.count = 0
    · rw [writeBlock_outside disk 0 _ (by simp) (by simp [empty])] at write
      cases write
      exact ⟨rfl, by omega⟩
    · rw [writeBlock_inside disk 0 _ (by simp) (by simp; omega)] at write
      cases write
      exact ⟨rfl, fun _ => rfl⟩
  obtain ⟨d2', cleared, count, blocks⟩ := zeroBlocks_done 4 1 d1 (by simp)
  have same : createInodeblocks (makeSuperblock blockCount) d1 = .done () d2' := cleared
  rw [same] at table
  cases table
  have sb : 0 < disk.count → d2.sb = makeSuperblock blockCount := by
    intro some_
    rw [Device.sb, blocks, if_neg (by simp), stored.2 some_, superblockBlock,
      Buf.slice_blit_same _ _ _ (by unfold bootcodeLen; omega), Superblock.ofBytes_toBytes]
  have upper : d2.count ≤ 5 := by omega
  have lower := createRootdir_count (makeSuperblock blockCount) rfl upper root (by
    intro some_
    rw [sb (by omega)]
    exact ⟨rfl, rfl⟩)
  obtain ⟨r, d3, inode, marked⟩ := createRootdir_small (makeSuperblock blockCount) rfl upper root
  have sb := sb (by omega)
  have superblock : getSuperblock d2 = .done (some d2.sb) d2 := by
    rw [getSuperblock, Prog.bind_done _ (readBlock_inside d2 0 (by simp) (by simp; omega))]
    rfl
  have written : setInode 0 rootInode d2 = .done 0 (d2.putInode 0 rootInode) := by
    have first : (0 / 16 + (1 : UInt32)).toNat = 1 := by decide
    rw [setInode, Prog.bind_done _ superblock]
    simp only [sb, show (makeSuperblock blockCount).inodeOffset = 1 from rfl,
      show (makeSuperblock blockCount).inodeCount = 64 from rfl]
    rw [if_neg (by decide), Prog.bind_done _ (readBlock_inside d2 _ (by decide) (by omega))]
    simp only
    rw [Prog.bind_done _ (writeBlock_inside d2 _ _ (by decide) (by omega))]
    rfl
  rw [written] at inode
  cases inode
  have unmarked : (d2.putInode 0 rootInode).bit 0 = false := by
    rw [Device.bit_putInode, Device.bit, blocks, if_neg (by simp), stored.2 (by omega), superblockBlock,
      Buf.byte_blit_outside _ _ _ _ (by unfold sectMap bootcodeLen; omega), Buf.byte_zero]
    rfl
  rw [markBlockUsed_first (by rw [Device.count_putInode]; omega) unmarked] at marked
  cases marked
  have sb' : ((d2.putInode 0 rootInode).mark 0).sb = makeSuperblock blockCount := by
    rw [Device.sb_mark, Device.sb_putInode, sb]
  exact
    { ident := by rw [sb']; rfl
      inodeOffset := by rw [sb']; rfl
      inodeCount := by rw [sb']; rfl
      dataOffset := by rw [sb']; rfl
      lower := by simpa using lower
      upper := by simpa using upper
      root := by rw [Device.inode_mark, Device.inode_putInode, if_pos rfl]
      free := by
        intro i positive inside
        rw [Device.count_mark, Device.count_putInode] at inside
        rw [Device.inode_mark, Device.inode_putInode, if_neg (by omega), Device.inode, blocks,
          if_pos (by simp; omega), Inode.zero]
        congr 1
        apply Buf.ext
        intro k bound
        rw [Buf.byte_slice _ _ bound, Buf.byte_zero, Buf.byte_zero] }

end Sos.Efs
