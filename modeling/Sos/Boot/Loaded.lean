import Sos.Boot.Stage2
import Sos.Efs.Job

/-! What the boot loader has in memory of a device, and the block numbers it takes from
there. -/

namespace Sos.Boot
open Sos.Lib Sos.Lib.Bytes Sos.Efs

/-- `default_kernel_file`, which is `kernel`. -/
def defaultKernelFile : List UInt8 := [0x6B, 0x65, 0x72, 0x6E, 0x65, 0x6C]

def defaultKernel : Name := fileName Buf.zero defaultKernelFile

theorem shortName_defaultKernelFile : ShortName (baseName defaultKernelFile) :=
  ⟨by decide, by decide, by decide, by decide⟩

/-- The sectors of a device. -/
def sectors (d : Device) : Disk := fun n => (d.block (n.toNat / 2)).slice (512 * (n.toNat % 2))

/-- The two halves of a block. -/
theorem sectors_block (d : Device) {ax : UInt16} (small : ax.toNat < 32768) :
    sectors d (ax * 2) = (d.block ax.toNat).slice 0 ∧
      sectors d (ax * 2 + 1) = (d.block ax.toNat).slice 512 := by
  have first : (ax * 2).toNat = 2 * ax.toNat := by
    rw [UInt16.toNat_mul]
    simp
    omega
  have second : (ax * 2 + 1).toNat = 2 * ax.toNat + 1 := by
    rw [UInt16.toNat_add, first]
    simp
    omega
  have half : (2 * ax.toNat + 1) / 2 = ax.toNat := by omega
  have odd : (2 * ax.toNat + 1) % 2 = 1 := by omega
  rw [sectors, sectors, first, second, half, odd, Nat.mul_mod_right,
    Nat.mul_div_cancel_left ax.toNat (show 0 < 2 by omega)]
  exact ⟨rfl, rfl⟩

theorem readFsBlock_device (d : Device) (ax bx : UInt16) (m : Mem) (small : ax.toNat < 32768)
    (room : bx.toNat + 1024 ≤ 65536) (a : UInt16) : readFsBlock (sectors d) ax bx m a =
      if bx.toNat ≤ a.toNat ∧ a.toNat < bx.toNat + 1024 then
        (d.block ax.toNat).byte (a.toNat - bx.toNat)
      else m a := by
  obtain ⟨first, second⟩ := sectors_block d small
  rw [readFsBlock_toNat _ _ _ _ room, first, second]
  by_cases low : bx.toNat ≤ a.toNat ∧ a.toNat < bx.toNat + 512
  · rw [if_pos low, if_pos (by omega), Buf.byte_slice _ _ (by omega), Nat.zero_add]
  · rw [if_neg low]
    by_cases high : bx.toNat + 512 ≤ a.toNat ∧ a.toNat < bx.toNat + 1024
    · have shift : 512 + (a.toNat - (bx.toNat + 512)) = a.toNat - bx.toNat := by omega
      rw [if_pos high, if_pos (by omega), Buf.byte_slice _ _ (by omega), shift]
    · rw [if_neg high, if_neg (by omega)]

theorem word_low {n : Nat} (b : Buf n) (off : Nat) :
    (b.word off).toUInt16 = (b.byte off).toUInt16 + 256 * (b.byte (off + 1)).toUInt16 := by
  apply UInt16.toNat_inj.mp
  have h0 := (b.byte off).toNat_lt
  have h1 := (b.byte (off + 1)).toNat_lt
  simp only [Buf.word, UInt32.toNat_toUInt16, wordOf_toNat, UInt16.toNat_add, UInt16.toNat_mul,
    UInt8.toNat_toUInt16]
  simp
  omega

/-- A word of memory that is the low half of a word of a buffer. -/
theorem Mem.word_eq {n : Nat} {m : Mem} {b : Buf n} {a : UInt16} {off : Nat}
    (first : m a = b.byte off) (second : m (a + 1) = b.byte (off + 1)) :
    m.word a = (b.word off).toUInt16 := by
  rw [Mem.word, first, second, word_low]

namespace Layout
variable (L : Layout)

theorem at_toNat {j : Nat} (h : j < 1082) :
    (L.efsSuperblock + UInt16.ofNat j).toNat = L.efsSuperblock.toNat + j := by
  have room := L.room
  rw [UInt16.toNat_add, UInt16.toNat_ofNat']
  omega

theorem efsInode_at : L.efsInode = L.efsSuperblock + UInt16.ofNat 20 := rfl

theorem efsInodeDatablks_at : L.efsInodeDatablks = L.efsSuperblock + UInt16.ofNat 28 := by
  rw [efsInodeDatablks, efsInode, UInt16.add_assoc]
  rfl

theorem efsBuffer_at : L.efsBuffer = L.efsSuperblock + UInt16.ofNat 58 := by
  rw [efsBuffer, efsInode, UInt16.add_assoc]
  rfl

theorem at_add (j k : Nat) (a : UInt16) (value : a.toNat = k) :
    L.efsSuperblock + UInt16.ofNat j + a = L.efsSuperblock + UInt16.ofNat (j + k) := by
  have same : a = UInt16.ofNat k := by rw [← value, UInt16.ofNat_toNat]
  rw [UInt16.add_assoc, same, ← UInt16.ofNat_add]

theorem lastBlock_at : L.lastBlock = L.efsSuperblock + UInt16.ofNat 56 := by
  rw [lastBlock, efsInode_at, L.at_add 20 36 36 rfl]

theorem lastBlock_next : L.lastBlock + 1 = L.efsSuperblock + UInt16.ofNat 57 := by
  rw [lastBlock_at, L.at_add 56 1 1 rfl]

/-- Its word lies behind the superblock and the inode. -/
theorem setWord_lastBlock (m : Mem) (v : UInt16) {a : UInt16} (first : a.toNat ≠ L.efsSuperblock.toNat + 56)
    (second : a.toNat ≠ L.efsSuperblock.toNat + 57) : m.setWord L.lastBlock v a = m a := by
  apply Mem.setWord_other
  · intro same
    rw [same, lastBlock_at] at first
    exact first (L.at_toNat (by omega))
  · intro same
    rw [same, lastBlock_next] at second
    exact second (L.at_toNat (by omega))

end Layout

/-- The superblock is in its place, as it is from its first reading on. -/
def SuperblockLoaded (L : Layout) (d : Device) (m : Mem) : Prop :=
  ∀ j, j < 20 → m (L.efsSuperblock + UInt16.ofNat j) = (d.block 0).byte (512 + j)

/-- Reading sector 1 puts it there. -/
theorem superblockLoaded_readSector (L : Layout) (d : Device) (m : Mem) :
    SuperblockLoaded L d (readSector (sectors d) 1 L.efsSuperblock m) := by
  intro j h
  have room := L.room
  have value := L.at_toNat (show j < 1082 by omega)
  rw [readSector_toNat _ _ _ _ (by omega), value, if_pos (by omega), sectors,
    Buf.byte_slice _ _ (by omega)]
  simp

section
variable {L : Layout} {d : Device} {m : Mem}

theorem SuperblockLoaded.word (loaded : SuperblockLoaded L d m) (j : Nat) (h : j + 1 < 20) :
    m.word (L.efsSuperblock + UInt16.ofNat j) = ((d.block 0).word (512 + j)).toUInt16 := by
  refine Mem.word_eq (loaded j (by omega)) ?_
  rw [L.at_add j 1 1 rfl, loaded (j + 1) h, Nat.add_assoc]

theorem SuperblockLoaded.inodeOffset (loaded : SuperblockLoaded L d m) (f : Formatted d) :
    m.word (L.efsSuperblock + 4) = 1 := by
  have value : (d.block 0).word (512 + 4) = 1 := by
    rw [← f.inodeOffset]
    exact (Buf.word_slice (m := 20) _ 512 4 (by omega)).symm
  rw [show (4 : UInt16) = UInt16.ofNat 4 from rfl, loaded.word 4 (by omega), value]
  rfl

theorem SuperblockLoaded.dataOffset (loaded : SuperblockLoaded L d m) (f : Formatted d) :
    m.word (L.efsSuperblock + 12) = 5 := by
  have value : (d.block 0).word (512 + 12) = 5 := by
    rw [← f.dataOffset]
    exact (Buf.word_slice (m := 20) _ 512 12 (by omega)).symm
  rw [show (12 : UInt16) = UInt16.ofNat 12 from rfl, loaded.word 12 (by omega), value]
  rfl

/-- Inode `i` is where `read_inode` copies it. -/
def InodeLoaded (L : Layout) (d : Device) (i : Nat) (m : Mem) : Prop :=
  ∀ j, j < 36 → m (L.efsSuperblock + UInt16.ofNat (20 + j)) =
    (d.block (i / 16 + 1)).byte (i % 16 * 64 + j)

theorem readInode_loaded (f : Formatted d) (loaded : SuperblockLoaded L d m) {i : Nat} (hi : i < 64) :
    SuperblockLoaded L d (readInode L (sectors d) (UInt16.ofNat i) m) ∧
      InodeLoaded L d i (readInode L (sectors d) (UInt16.ofNat i) m) := by
  have room := L.room
  have number : (UInt16.ofNat i).toNat = i := by
    rw [UInt16.toNat_ofNat']
    omega
  have table : (UInt16.ofNat i / 16 + 1).toNat = i / 16 + 1 := by
    rw [UInt16.toNat_add, UInt16.toNat_div, number]
    simp
    omega
  have slot : (64 * (UInt16.ofNat i % 16)).toNat = i % 16 * 64 := by
    rw [UInt16.toNat_mul, UInt16.toNat_mod, number]
    simp
    omega
  have buffer := L.at_toNat (show 58 < 1082 by omega)
  have source := L.at_toNat (show 58 + i % 16 * 64 < 1082 by omega)
  have target := L.at_toNat (show 20 < 1082 by omega)
  have bytes : ∀ a, readInode L (sectors d) (UInt16.ofNat i) m a =
      if L.efsSuperblock.toNat + 20 ≤ a.toNat ∧ a.toNat < L.efsSuperblock.toNat + 20 + 64 then
        readFsBlock (sectors d) (UInt16.ofNat i / 16 + 1) L.efsBuffer m
          (L.efsBuffer + 64 * (UInt16.ofNat i % 16) +
            UInt16.ofNat (a.toNat - (L.efsSuperblock.toNat + 20)))
      else readFsBlock (sectors d) (UInt16.ofNat i / 16 + 1) L.efsBuffer m a := by
    intro a
    have from_ : (L.efsBuffer + 64 * (UInt16.ofNat i % 16)).toNat =
        L.efsSuperblock.toNat + (58 + i % 16 * 64) := by
      rw [L.efsBuffer_at, L.at_add 58 _ _ slot, source]
    have to_ : L.efsInode.toNat = L.efsSuperblock.toNat + 20 := by
      rw [L.efsInode_at, target]
    unfold readInode
    rw [loaded.inodeOffset f, movsb_toNat _ _ _ _ (by omega) (by omega), to_]
  constructor
  · intro j h
    have at_ := L.at_toNat (show j < 1082 by omega)
    rw [bytes, at_, if_neg (by omega), readFsBlock_device _ _ _ _ (by omega)
      (by rw [L.efsBuffer_at, buffer]; omega), L.efsBuffer_at, buffer, at_, if_neg (by omega)]
    exact loaded j h
  · intro j h
    have at_ := L.at_toNat (show 20 + j < 1082 by omega)
    have off : L.efsSuperblock.toNat + (20 + j) - (L.efsSuperblock.toNat + 20) = j := by omega
    have value : (UInt16.ofNat j).toNat = j := by
      rw [UInt16.toNat_ofNat']
      omega
    have byte := L.at_toNat (show 58 + i % 16 * 64 + j < 1082 by omega)
    rw [bytes, at_, if_pos (by omega), off, L.efsBuffer_at, L.at_add 58 _ _ slot,
      L.at_add _ j _ value, readFsBlock_device _ _ _ _ (by omega) (by rw [buffer]; omega), buffer,
      byte, if_pos (by omega), table]
    congr 1
    omega

theorem InodeLoaded.word {i : Nat} (loaded : InodeLoaded L d i m) (j : Nat) (h : j + 4 ≤ 36) :
    m.word (L.efsSuperblock + UInt16.ofNat (20 + j)) =
      (((d.block (i / 16 + 1)).slice (i % 16 * 64) : Buf 64).word j).toUInt16 := by
  rw [Buf.word_slice _ _ _ (by omega)]
  refine Mem.word_eq (loaded j (by omega)) ?_
  rw [L.at_add (20 + j) 1 1 rfl, Nat.add_assoc, loaded (j + 1) (by omega), Nat.add_assoc]

end

theorem toInt16_toInt (k : Nat) (hk : k < 257) : (UInt16.ofNat k).toInt16.toInt = k := by
  have same : (UInt16.ofNat k).toInt16 = Int16.ofNat k := rfl
  rw [same, Int16.toInt_ofNat_of_lt (by omega)]

theorem direct_iff {k : Nat} (hk : k < 257) : (UInt16.ofNat k).toInt16 < 5 ↔ k < 5 := by
  have bound : (5 : Int16).toInt = 5 := by decide
  rw [Int16.lt_iff_toInt_lt, toInt16_toInt k hk, bound]
  omega

theorem indirect_lt {k : Nat} (hk : k < 257) : (UInt16.ofNat k).toInt16 < 0x105 := by
  have bound : (0x105 : Int16).toInt = 261 := by decide
  rw [Int16.lt_iff_toInt_lt, toInt16_toInt k hk, bound]
  omega

/-- A block read to the buffer. -/
theorem readFsBlock_buffer (L : Layout) (d : Device) (ax : UInt16) (m : Mem) (small : ax.toNat < 32768)
    (a : UInt16) : readFsBlock (sectors d) ax L.efsBuffer m a =
      if L.efsSuperblock.toNat + 58 ≤ a.toNat ∧ a.toNat < L.efsSuperblock.toNat + 58 + 1024 then
        (d.block ax.toNat).byte (a.toNat - (L.efsSuperblock.toNat + 58))
      else m a := by
  have room := L.room
  have buffer := L.at_toNat (show 58 < 1082 by omega)
  rw [readFsBlock_device _ _ _ _ small (by rw [L.efsBuffer_at, buffer]; omega), L.efsBuffer_at, buffer]

/-- What lies before the buffer stays, whichever block is read. -/
theorem readFsBlock_kept (L : Layout) (disk : Disk) (ax : UInt16) (m : Mem) {j : Nat} (before : j < 58) :
    readFsBlock disk ax L.efsBuffer m (L.efsSuperblock + UInt16.ofNat j) =
      m (L.efsSuperblock + UInt16.ofNat j) := by
  have room := L.room
  have buffer := L.at_toNat (show 58 < 1082 by omega)
  have address := L.at_toNat (show j < 1082 by omega)
  rw [readFsBlock_toNat _ _ _ _ (by rw [L.efsBuffer_at, buffer]; omega), L.efsBuffer_at, buffer, address,
    if_neg (by omega), if_neg (by omega)]

theorem SuperblockLoaded.congr {L : Layout} {d : Device} {m m' : Mem} (loaded : SuperblockLoaded L d m)
    (same : ∀ j, j < 58 → m' (L.efsSuperblock + UInt16.ofNat j) = m (L.efsSuperblock + UInt16.ofNat j)) :
    SuperblockLoaded L d m' := by
  intro j inside
  rw [same j (by omega)]
  exact loaded j inside

/-- Memory once the pointers to the indirect blocks have been read. -/
def readIndirect (L : Layout) (d : Device) (i : Nat) (m : Mem) : Mem :=
  readFsBlock (sectors d) ((d.inode i).indirectData.toUInt16 + 5) L.efsBuffer m

section
variable {L : Layout} {d : Device} {m : Mem} {i k : Nat} (f : Formatted d)
  (super : SuperblockLoaded L d m) (node : InodeLoaded L d i m) (hk : k < 257)

/-- The data behind block 5, in 16 bits. -/
theorem dataBlock_low (v : UInt32) : v.toUInt16 + 5 = (v + 5).toUInt16 := by simp

include f super node in
theorem getBnum_direct (direct : k < 5) :
    getBnum L (sectors d) (UInt16.ofNat k) m = some ((d.ptr i k + 5).toUInt16, m) := by
  have entry : (4 * UInt16.ofNat k).toNat = 4 * k := by
    rw [UInt16.toNat_mul, UInt16.toNat_ofNat']
    simp
    omega
  have pointer : (((d.block (i / 16 + 1)).slice (i % 16 * 64) : Buf 64).word (8 + 4 * k)) =
      d.ptr i k := by
    rw [Device.ptr_direct _ _ _ direct, Device.inode, Inode.direct, dif_pos direct]
    rfl
  have word := node.word (8 + 4 * k) (by omega)
  rw [pointer] at word
  unfold getBnum
  rw [if_pos ((direct_iff (by omega)).mpr direct), super.dataOffset f, L.efsInodeDatablks_at,
    L.at_add 28 _ _ entry, show 28 + 4 * k = 20 + (8 + 4 * k) by omega]
  simp only
  rw [word, dataBlock_low]

include hk in
/-- Where the pointer of an indirect block lies in the buffer. -/
theorem indirect_address (indirect : 5 ≤ k) :
    L.efsBuffer + 4 * (UInt16.ofNat k - 5) = L.efsSuperblock + UInt16.ofNat (58 + 4 * (k - 5)) := by
  have number : (UInt16.ofNat k).toNat = k := by
    rw [UInt16.toNat_ofNat']
    omega
  have above : 5 ≤ UInt16.ofNat k := by
    rw [UInt16.le_iff_toNat_le, number]
    simp
    omega
  have entry : (4 * (UInt16.ofNat k - 5)).toNat = 4 * (k - 5) := by
    rw [UInt16.toNat_mul, UInt16.toNat_sub_of_le _ _ above, number]
    simp
    omega
  rw [L.efsBuffer_at, L.at_add 58 _ _ entry]

include f super node hk in
theorem getBnum_indirect (indirect : 5 ≤ k) : getBnum L (sectors d) (UInt16.ofNat k) m =
    some ((readIndirect L d i m).word (L.efsSuperblock + UInt16.ofNat (58 + 4 * (k - 5))) + 5,
      readIndirect L d i m) := by
  have table : m.word (L.efsInode + 0x1C) = (d.inode i).indirectData.toUInt16 := by
    rw [L.efsInode_at, L.at_add 20 28 0x1C rfl]
    exact node.word 28 (by omega)
  have super' : SuperblockLoaded L d (readIndirect L d i m) :=
    super.congr fun j before => readFsBlock_kept L _ _ m before
  unfold getBnum
  rw [if_neg (fun less => absurd ((direct_iff hk).mp less) (by omega)), if_pos (indirect_lt hk),
    super.dataOffset f, table, indirect_address hk indirect]
  simp only
  rw [← readIndirect, super'.dataOffset f]

include f in
/-- The pointer is the file's own, where the block is one of the file. -/
theorem word_indirect (own : Owned d) (file : 1 ≤ i ∧ i < 64) (indirect : 5 ≤ k) (inside : k < d.blocks i) :
    (readIndirect L d i m).word (L.efsSuperblock + UInt16.ofNat (58 + 4 * (k - 5))) =
      (d.ptr i k).toUInt16 := by
  have size := own.size i file.1 file.2
  have present : (d.inode i).indirectData ≠ 0 := own.indirect i file.1 file.2 (by omega)
  have target : (d.inode i).indirectData.toNat < d.dataCount := own.inside (.indirect i) ⟨file.2, present⟩
  have bound := f.dataCount
  have block : ((d.inode i).indirectData.toUInt16 + 5).toNat = (d.inode i).indirectData.toNat + 5 := by
    rw [UInt16.toNat_add, UInt32.toNat_toUInt16]
    simp
    omega
  have byte : ∀ j, j < 1024 → readIndirect L d i m (L.efsSuperblock + UInt16.ofNat (58 + j)) =
      (d.data (d.inode i).indirectData.toNat).byte j := by
    intro j h
    have shift : L.efsSuperblock.toNat + (58 + j) - (L.efsSuperblock.toNat + 58) = j := by omega
    rw [readIndirect, readFsBlock_buffer _ _ _ _ (by omega), L.at_toNat (by omega), if_pos (by omega), block, shift]
    rfl
  have first := byte (4 * (k - 5)) (by unfold Device.blocks at inside; omega)
  have second := byte (4 * (k - 5) + 1) (by unfold Device.blocks at inside; omega)
  rw [← Nat.add_assoc, ← L.at_add (58 + 4 * (k - 5)) 1 1 rfl] at second
  rw [Device.ptr_indirect _ _ _ indirect]
  exact Mem.word_eq first second

include f super node hk in
/-- `get_bnum` follows the same pointers as the library, and uses the buffer alone. Behind the
last block of the file it still comes to some number. -/
theorem getBnum_loaded (own : Owned d) (file : 1 ≤ i ∧ i < 64) :
    ∃ ax m', getBnum L (sectors d) (UInt16.ofNat k) m = some (ax, m') ∧
      (∀ j, j < 58 → m' (L.efsSuperblock + UInt16.ofNat j) = m (L.efsSuperblock + UInt16.ofNat j)) ∧
      (k < d.blocks i → ax = (d.ptr i k + 5).toUInt16) := by
  by_cases direct : k < 5
  · exact ⟨_, m, getBnum_direct f super node direct, fun _ _ => rfl, fun _ => rfl⟩
  · refine ⟨_, _, getBnum_indirect f super node hk (by omega),
      fun j before => readFsBlock_kept L _ _ m before, ?_⟩
    intro inside
    rw [word_indirect f own file (by omega) inside, dataBlock_low]

end

end Sos.Boot
