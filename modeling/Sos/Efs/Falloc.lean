import Sos.Efs.Ownership

/-! `falloc_block` on a file that ends on a block boundary: it records one more block,
or it finds the device full. -/

namespace Sos.Efs
open Sos.Lib Sos.Lib.Bytes

/-- Every block is marked. -/
def Device.Full (d : Device) : Prop := ∀ m, m < d.dataCount → d.bit m = true

/-- Where a block is free, the least one that is free is found. -/
theorem findFreeBlock_first {d : Device} (f : Formatted d) {m : Nat} (inside : m < d.dataCount)
    (free : d.bit m = false) : ∃ b : UInt32, findFreeBlock d = .done b d ∧ b.toNat ≤ m ∧
      d.bit b.toNat = false := by
  obtain ⟨b, upper, unmarked, used⟩ := exists_least_free f.dataCount inside free
  exact ⟨b, findFreeBlock_least f.some_ f.dataCount b (by omega) unmarked used, upper, unmarked⟩

theorem nonzero_of_free {d : Device} (root : d.bit 0 = true) {b : UInt32} (free : d.bit b.toNat = false) :
    b ≠ 0 := by
  rintro rfl
  rw [UInt32.toNat_zero, root] at free
  cases free

theorem findFreeBlock_cases {d : Device} (f : Formatted d) (root : d.bit 0 = true) :
    (d.Full ∧ findFreeBlock d = .done 0 d) ∨
    ∃ b : UInt32, findFreeBlock d = .done b d ∧ b ≠ 0 ∧ b.toNat < d.dataCount ∧
      d.bit b.toNat = false := by
  by_cases full : d.Full
  · exact Or.inl ⟨full, findFreeBlock_full f.some_ f.dataCount full⟩
  · right
    have free : ∃ m, m < d.dataCount ∧ d.bit m = false := by
      simpa [Device.Full] using full
    obtain ⟨m, inside, unmarked⟩ := free
    obtain ⟨b, first, least, unmarked⟩ := findFreeBlock_first f inside unmarked
    exact ⟨b, first, nonzero_of_free root unmarked, by omega, unmarked⟩

section
variable {d : Device} {i : UInt32} {k : Nat} {b : UInt32}

theorem allocated_direct (f : Formatted d) (hi : i.toNat < 64) (hk : k < 5)
    (inside : b.toNat < d.dataCount) (free : d.bit b.toNat = false) :
    Allocated d ((d.mark b).putInode i.toNat ((d.inode i.toNat).setDirect k b)) i.toNat k b none where
  formatted := (f.mark b).putInode _ _
  dataCount := by simp [Device.dataCount]
  inside := inside
  free := free
  others := by
    intro j _ differ
    simp [Device.inode_putInode, differ]
  size := by simp [Device.inode_putInode, Inode.setDirect]
  refs := by simp [Device.inode_putInode, Inode.setDirect]
  kept := by simp [Device.inode_putInode, Inode.setDirect]
  taken := by simp
  used := by omega
  bits := by
    intro m
    have bound := f.dataCount
    rw [Device.bit_putInode, Device.bit_mark _ _ _ (by omega)]
    simp [or_comm]
  ptr := by
    rw [Device.ptr_direct _ _ _ hk, Device.inode_putInode, if_pos rfl,
      Inode.direct_setDirect _ _ _ _ hk, if_pos rfl]
  ptrs := by
    intro s before
    rw [Device.ptr_direct _ _ _ (by omega), Device.ptr_direct _ _ _ (by omega),
      Device.inode_putInode, if_pos rfl, Inode.direct_setDirect _ _ _ _ hk, if_neg (by omega)]
  data := by
    intro m _
    rw [Device.data_putInode _ _ _ _ hi, Device.data_mark]

theorem allocated_keep (f : Formatted d) (hi : i.toNat < 64) (lower : 5 ≤ k) (upper : k ≤ 256)
    (inside : b.toNat < d.dataCount) (free : d.bit b.toNat = false)
    (present : (d.inode i.toNat).indirectData ≠ 0) :
    Allocated d ((d.mark b).putData (d.inode i.toNat).indirectData.toNat
      ((d.data (d.inode i.toNat).indirectData.toNat).putWord (4 * (k - 5)) b)) i.toNat k b none := by
  have inode : ∀ j, j < 64 → ((d.mark b).putData (d.inode i.toNat).indirectData.toNat
      ((d.data (d.inode i.toNat).indirectData.toNat).putWord (4 * (k - 5)) b)).inode j = d.inode j := by
    intro j small
    rw [Device.inode_putData _ _ _ _ small, Device.inode_mark]
  refine
    { formatted := (f.mark b).putData _ _, dataCount := by simp [Device.dataCount],
      inside := inside, free := free, others := fun j small _ => inode j small,
      size := by rw [inode _ hi], refs := by rw [inode _ hi], kept := by simp [inode _ hi],
      taken := by simp, used := by simp [inode _ hi, present], bits := ?_, ptr := ?_, ptrs := ?_,
      data := ?_ }
  · intro m
    have bound := f.dataCount
    rw [Device.bit_putData, Device.bit_mark _ _ _ (by omega)]
    simp [or_comm]
  · rw [Device.ptr_indirect _ _ _ lower, inode _ hi, Device.data_putData, if_pos rfl,
      Buf.word_putWord _ _ _ (by omega)]
  · intro s before
    unfold Device.ptr
    rw [inode _ hi, Device.data_putData, if_pos rfl]
    split
    · rfl
    · exact Buf.word_putWord_other _ _ _ _ (by omega)
  · intro m other
    have differ := other lower
    rw [inode _ hi] at differ
    rw [Device.data_putData, if_neg differ, Device.data_mark]

theorem allocated_take (f : Formatted d) (hi : i.toNat < 64) {t : UInt32}
    (inside : b.toNat < d.dataCount) (free : d.bit b.toNat = false)
    (absent : (d.inode i.toNat).indirectData = 0) (nonzero : t ≠ 0) (differ : t ≠ b)
    (insideT : t.toNat < d.dataCount) (freeT : d.bit t.toNat = false) :
    Allocated d (((((d.mark b).mark t).putInode i.toNat
      { d.inode i.toNat with indirectData := t }).putData t.toNat Buf.zero).putData t.toNat
        ((Buf.zero : Block).putWord 0 b)) i.toNat 5 b (some t) := by
  have inode : ∀ j, j < 64 → (((((d.mark b).mark t).putInode i.toNat
      { d.inode i.toNat with indirectData := t }).putData t.toNat Buf.zero).putData t.toNat
        ((Buf.zero : Block).putWord 0 b)).inode j =
      if j = i.toNat then { d.inode i.toNat with indirectData := t } else d.inode j := by
    intro j small
    rw [Device.inode_putData _ _ _ _ small, Device.inode_putData _ _ _ _ small,
      Device.inode_putInode, Device.inode_mark, Device.inode_mark]
  refine
    { formatted := ((((f.mark b).mark t).putInode _ _).putData _ _).putData _ _,
      dataCount := by simp [Device.dataCount], inside := inside, free := free,
      others := ?_, size := by rw [inode _ hi, if_pos rfl], refs := by rw [inode _ hi, if_pos rfl],
      kept := by simp, taken := ?_, used := by simp [inode _ hi, nonzero], bits := ?_, ptr := ?_,
      ptrs := ?_, data := ?_ }
  · intro j small other
    rw [inode j small, if_neg other]
  · intro x same
    cases same
    exact ⟨le_rfl, absent, by rw [inode _ hi, if_pos rfl], differ, insideT, freeT⟩
  · intro m
    have bound := f.dataCount
    rw [Device.bit_putData, Device.bit_putData, Device.bit_putInode,
      Device.bit_mark _ _ _ (by omega), Device.bit_mark _ _ _ (by omega)]
    simp only [Bool.or_eq_true, decide_eq_true_eq, Option.some.injEq, exists_eq_left']
    tauto
  · rw [Device.ptr_indirect _ _ _ le_rfl, inode _ hi, if_pos rfl, Device.data_putData, if_pos rfl]
    exact Buf.word_putWord _ _ _ (by omega)
  · intro s before
    rw [Device.ptr_direct _ _ _ before, Device.ptr_direct _ _ _ before, inode _ hi, if_pos rfl]
    rfl
  · intro m other
    have apart := other le_rfl
    rw [inode _ hi, if_pos rfl] at apart
    rw [Device.data_putData, if_neg apart, Device.data_putData, if_neg apart,
      Device.data_putInode _ _ _ _ hi, Device.data_mark, Device.data_mark]

end

theorem findFile_some {d : Device} {cnt : Nat} (f : Formatted d) (dir : Directory d cnt) {filename : Name}
    {i : UInt32} (found : d.lookup filename.str = some i) : findFile filename d = .done (some i) d := by
  rw [findFile_done f.rooted dir filename, found]

theorem fallocBlock_missing {d : Device} (f : Formatted d) {filename : Name}
    (missing : findFile filename d = .done none d) : fallocBlock filename d = .done (-1) d := by
  rw [fallocBlock, Prog.bind_done _ (getSuperblock_done f.rooted)]
  simp only
  rw [Prog.bind_done _ missing]
  rfl

section
variable {d : Device} (f : Formatted d) {filename : Name} {i : UInt32}
  (found : findFile filename d = .done (some i) d)
include f found

/-- What `falloc_block` does once the file is found. -/
theorem fallocBlock_found : fallocBlock filename d = (do
    let block ← findFreeBlock
    if block = 0 then return -1
    if (← markBlockUsed block) = -1 then return -1
    if (← addBlockPointer i block) = -1 then return -1
    dataToReal block) d := by
  rw [fallocBlock, Prog.bind_done _ (getSuperblock_done f.rooted)]
  simp only
  rw [Prog.bind_done _ found]

theorem fallocBlock_full (full : d.Full) : fallocBlock filename d = .done (-1) d := by
  rw [fallocBlock_found f found, Prog.bind_done _ (findFreeBlock_full f.some_ f.dataCount full)]
  rfl

theorem fallocBlock_free {b : UInt32} (first : findFreeBlock d = .done b d) (nonzero : b ≠ 0)
    (inside : b.toNat < d.dataCount) (free : d.bit b.toNat = false) : fallocBlock filename d = (do
    if (← addBlockPointer i b) = -1 then return -1
    dataToReal b) (d.mark b) := by
  rw [fallocBlock_found f found, Prog.bind_done _ first, if_neg nonzero,
    Prog.bind_done _ (markBlockUsed_free f.some_ b (inside.trans_le f.dataCount) free), if_neg (by decide)]

end

/-- `falloc_block` on a file of `k` whole blocks. It stops at a full device, or at one
with a single free block when it needs an indirect block as well: that block is then
marked and belongs to nobody. -/
theorem fallocBlock_cases {d : Device} {cnt : Nat} (f : Formatted d) (dir : Directory d cnt)
    (own : Owned d) {filename : Name} (proper : filename.Proper) {i : UInt32}
    (found : d.lookup filename.str = some i) {k : Nat} (hk : k ≤ 256)
    (size : (d.inode i.toNat).size.toNat = 1024 * k) :
    (d.Full ∧ fallocBlock filename d = .done (-1) d) ∨
    (∃ b : UInt32, b.toNat < d.dataCount ∧ d.bit b.toNat = false ∧ (d.mark b).Full ∧ 5 ≤ k ∧
      (d.inode i.toNat).indirectData = 0 ∧ fallocBlock filename d = .done (-1) (d.mark b)) ∨
    ∃ b t d', Allocated d d' i.toNat k b t ∧ fallocBlock filename d = .done (b + 5) d' := by
  obtain ⟨lower, hi, _⟩ := dir.lookup_inode proper found
  rcases findFreeBlock_cases f own.root_bit with ⟨full, _⟩ | ⟨b, first, nonzero, inside, free⟩
  · exact Or.inl ⟨full, fallocBlock_full f (findFile_some f dir found) full⟩
  right
  rw [fallocBlock_free f (findFile_some f dir found) first nonzero inside free]
  have f1 := f.mark b
  have size1 : ((d.mark b).inode i.toNat).size.toNat = 1024 * k := by rw [Device.inode_mark, size]
  have finish : ∀ (d' : Device) (t : Option UInt32), Allocated d d' i.toNat k b t →
      addBlockPointer i b (d.mark b) = .done 0 d' → (do
      if (← addBlockPointer i b) = -1 then return -1
      dataToReal b : Prog Device UInt32) (d.mark b) = .done (b + 5) d' := by
    intro d' t allocated added
    rw [Prog.bind_done _ added, if_neg (by decide), dataToReal_done allocated.formatted.rooted]
  by_cases direct : k < 5
  · right
    have allocated := allocated_direct f hi direct inside free
    refine ⟨b, none, _, allocated, finish _ _ allocated ?_⟩
    simpa using addBlockPointer_direct f1.rooted hi.le (next_block size1) b direct
  have indirect : 5 ≤ k := by omega
  by_cases present : (d.inode i.toNat).indirectData = 0
  · have five : k = 5 := by
      by_contra more
      exact own.indirect i.toNat lower hi (by unfold Device.blocks; omega) present
    have absent1 : ((d.mark b).inode i.toNat).indirectData = 0 := by rw [Device.inode_mark, present]
    have root1 : (d.mark b).bit 0 = true := by
      have bound := f.dataCount
      rw [Device.bit_mark _ _ _ (by omega), own.root_bit, Bool.or_true]
    rcases findFreeBlock_cases f1 root1 with ⟨full, none⟩ | ⟨t, someT, nonzeroT, insideT, freeT⟩
    · left
      refine ⟨b, inside, free, full, indirect, present, ?_⟩
      rw [Prog.bind_done _ (addBlockPointer_no_indirect f1.rooted hi.le (next_block size1) b indirect hk
        (ensureIndirect_full _ absent1 none))]
      rfl
    · right
      have bound := f.dataCount
      rw [Device.bit_mark _ _ _ (by omega)] at freeT
      simp only [Bool.or_eq_false_iff, decide_eq_false_iff_not] at freeT
      have insideD : t.toNat < d.dataCount := by simpa [Device.dataCount] using insideT
      have differ : t ≠ b := fun same => freeT.1 (congrArg _ same)
      subst five
      have allocated := allocated_take f hi inside free present nonzeroT differ insideD freeT.2
      have freeMark : (d.mark b).bit t.toNat = false := by
        rw [Device.bit_mark _ _ _ (by omega)]
        simp [freeT.1, freeT.2]
      have added := addBlockPointer_indirect f1.rooted hi.le (next_block size1) b le_rfl hk
        (((f1.mark t).putInode _ _).putData _ _)
        (ensureIndirect_take f1 hi.le _ absent1 someT nonzeroT insideT freeMark)
        (by simpa [Device.dataCount] using insideD)
      refine ⟨b, some t, _, allocated, finish _ _ allocated ?_⟩
      rw [added]
      simp [Device.data_putData]
  · right
    have allocated := allocated_keep f hi indirect hk inside free present
    have present1 : ((d.mark b).inode i.toNat).indirectData ≠ 0 := by rwa [Device.inode_mark]
    have live : (d.inode i.toNat).indirectData.toNat < d.dataCount :=
      own.inside (.indirect i.toNat) ⟨hi, present⟩
    have added := addBlockPointer_indirect f1.rooted hi.le (next_block size1) b indirect hk f1
      (ensureIndirect_keep _ present1) (by simpa [Device.dataCount] using live)
    refine ⟨b, none, _, allocated, finish _ _ allocated ?_⟩
    rw [added]
    simp

end Sos.Efs
