import Sos.Boot.Loaded
import Sos.Boot.Search

/-! The loop that reads the kernel to the address 0x500, block by block, while the second
stage runs at 0x9000. -/

namespace Sos.Boot
open Sos.Lib Sos.Lib.Bytes Sos.Efs

/-- Memory by linear addresses. -/
abbrev Phys := Nat → UInt8

/-- `KERNEL_ADDRESS`, where the segment 0x50 begins. -/
def kernelAddress : Nat := 0x500

/-- `STAGE2_LOAD_ADDR`, where the segment 0x900 begins. -/
def stage2LoadAddr : Nat := 0x9000

namespace Phys

/-- The segment 0x900, which holds the second stage. -/
def segment (p : Phys) : Mem := fun a => p (stage2LoadAddr + a.toNat)

def withSegment (p : Phys) (m : Mem) : Phys := fun x =>
  if stage2LoadAddr ≤ x ∧ x < stage2LoadAddr + 65536 then m (UInt16.ofNat (x - stage2LoadAddr)) else p x

/-- Sector `ax` to the offset `bx` of the segment 0x50, `KERNEL_SEGMENT`. -/
def readSector (disk : Disk) (ax bx : UInt16) (p : Phys) : Phys := fun x =>
  if kernelAddress + bx.toNat ≤ x ∧ x < kernelAddress + bx.toNat + 512 then (disk ax).byte (x - (kernelAddress + bx.toNat))
  else p x

def readFsBlock (disk : Disk) (ax bx : UInt16) (p : Phys) : Phys :=
  let ax := ax * 2
  let p := p.readSector disk ax bx
  p.readSector disk (ax + 1) (bx + 0x200)

end Phys

/-- `read_kern_loop`: the offsets that blocks were read to, and memory behind the last one.
There is no result where `get_bnum` restarts the machine. -/
def readKernLoop (L : Layout) (disk : Disk) : Nat → UInt16 → UInt16 → Phys → Option (List UInt16 × Phys)
  | 0, _, _, _ => none
  | fuel + 1, cx, bx, p =>
    match getBnum L disk cx p.segment with
    | none => none
    | some (ax, m) =>
      let p := (p.withSegment m).readFsBlock disk ax bx
      let cx := cx + 1
      if cx.toInt16 ≤ (p.segment.word L.lastBlock).toInt16 then
        (readKernLoop L disk fuel cx (bx + 1024) p).map fun (offsets, p) => (bx :: offsets, p)
      else some ([bx], p)

/-- From `kern_found` on, with the inode number that was on the stack. -/
def loadKernel (L : Layout) (disk : Disk) (fuel : Nat) (ax : UInt16) (p : Phys) :
    Option (List UInt16 × Phys) :=
  let m := readInode L disk ax p.segment
  let m := m.setWord L.lastBlock (m.word L.efsInode / 1024)
  readKernLoop L disk fuel 0 0 (p.withSegment m)

namespace Phys

theorem segment_withSegment (p : Phys) (m : Mem) : (p.withSegment m).segment = m := by
  funext a
  have bound := a.toNat_lt
  rw [segment, withSegment, if_pos (by omega), Nat.add_sub_cancel_left, UInt16.ofNat_toNat]

theorem withSegment_below (p : Phys) (m : Mem) {x : Nat} (below : x < stage2LoadAddr) : p.withSegment m x = p x := by
  rw [withSegment, if_neg (by omega)]

theorem readFsBlock_device (d : Device) (ax bx : UInt16) (p : Phys) (small : ax.toNat < 32768)
    (room : bx.toNat + 1024 ≤ 65536) (x : Nat) : p.readFsBlock (sectors d) ax bx x =
      if kernelAddress + bx.toNat ≤ x ∧ x < kernelAddress + bx.toNat + 1024 then
        (d.block ax.toNat).byte (x - (kernelAddress + bx.toNat))
      else p x := by
  obtain ⟨first, second⟩ := sectors_block d small
  have high := second_half room
  simp only [readFsBlock, readSector, first, second, high]
  by_cases upper : kernelAddress + (bx.toNat + 512) ≤ x ∧ x < kernelAddress + (bx.toNat + 512) + 512
  · have shift : 512 + (x - (kernelAddress + (bx.toNat + 512))) = x - (kernelAddress + bx.toNat) := by
      omega
    rw [if_pos upper, if_pos (by omega), Buf.byte_slice _ _ (by omega), shift]
  · rw [if_neg upper]
    by_cases lower : kernelAddress + bx.toNat ≤ x ∧ x < kernelAddress + bx.toNat + 512
    · rw [if_pos lower, if_pos (by omega), Buf.byte_slice _ _ (by omega), Nat.zero_add]
    · rw [if_neg lower, if_neg (by omega)]

/-- Outside its bytes a block changes nothing. -/
theorem readFsBlock_outside (disk : Disk) (ax bx : UInt16) (p : Phys) (room : bx.toNat + 1024 ≤ 65536)
    {x : Nat} (outside : ¬(kernelAddress + bx.toNat ≤ x ∧ x < kernelAddress + bx.toNat + 1024)) :
    p.readFsBlock disk ax bx x = p x := by
  have high := second_half room
  simp only [readFsBlock, readSector, high]
  rw [if_neg (by omega), if_neg (by omega)]

end Phys

/-- Before block `k` is read: the loader's own data, the blocks that are there, and below the
second stage what was there before. -/
structure Loading (L : Layout) (d : Device) (i last : Nat) (start : Phys) (k : Nat) (p : Phys) : Prop where
  super : SuperblockLoaded L d p.segment
  node : InodeLoaded L d i p.segment
  last : p.segment.word L.lastBlock = UInt16.ofNat last
  blocks : ∀ x, x < 1024 * k → x / 1024 < d.blocks i →
    p (kernelAddress + x) = (d.data (d.ptr i (x / 1024)).toNat).byte (x % 1024)
  rest : ∀ x, kernelAddress + 1024 * k ≤ x → x < stage2LoadAddr → p x = start x

section
variable {L : Layout} {d : Device} {i last : Nat} {start : Phys} (f : Formatted d) (own : Owned d)
  (file : 1 ≤ i ∧ i < 64)
include f own file

/-- One round of the loop, below the second stage. -/
theorem Loading.step {k : Nat} {p : Phys} (loading : Loading L d i last start k p) (below : k < 34) :
    ∃ ax m, getBnum L (sectors d) (UInt16.ofNat k) p.segment = some (ax, m) ∧
      Loading L d i last start (k + 1)
        ((p.withSegment m).readFsBlock (sectors d) ax (UInt16.ofNat (1024 * k))) := by
  have base : kernelAddress = 0x500 := rfl
  have stage2 : stage2LoadAddr = 0x9000 := rfl
  have offset : (UInt16.ofNat (1024 * k)).toNat = 1024 * k := by
    rw [UInt16.toNat_ofNat']
    omega
  have room : (UInt16.ofNat (1024 * k)).toNat + 1024 ≤ 65536 := by omega
  obtain ⟨ax, m, run, kept, number⟩ :=
    getBnum_loaded f loading.super loading.node (show k < 257 by omega) own file
  have segment : ((p.withSegment m).readFsBlock (sectors d) ax (UInt16.ofNat (1024 * k))).segment = m := by
    funext a
    rw [Phys.segment, Phys.readFsBlock_outside _ _ _ _ room (by omega)]
    exact congrFun (Phys.segment_withSegment p m) a
  refine ⟨ax, m, run, ⟨?_, ?_, ?_, ?_, ?_⟩⟩
  · rw [segment]
    exact loading.super.congr kept
  · rw [segment]
    intro j inside
    rw [kept (20 + j) (by omega)]
    exact loading.node j inside
  · have value := loading.last
    rw [Mem.word, L.lastBlock_next, L.lastBlock_at] at value
    rw [segment, Mem.word, L.lastBlock_next, L.lastBlock_at, kept 56 (by omega), kept 57 (by omega), value]
  · intro x inside mapped
    by_cases here : 1024 * k ≤ x
    · have block : x / 1024 = k := by omega
      rw [block] at mapped
      have target : (d.ptr i k).toNat < d.dataCount := own.inside (.slot i k) ⟨file.1, file.2, mapped⟩
      have bound := f.dataCount
      have value : ax.toNat = (d.ptr i k).toNat + 5 := by
        rw [number mapped, UInt32.toNat_toUInt16, real_toNat f _ target]
        omega
      rw [Phys.readFsBlock_device _ _ _ _ (by omega) room, if_pos (by omega), value, block]
      change (d.data (d.ptr i k).toNat).byte _ = _
      congr 1
      omega
    · rw [Phys.readFsBlock_outside _ _ _ _ room (by omega), Phys.withSegment_below _ _ (by omega)]
      exact loading.blocks x (by omega) mapped
  · intro x above inside
    rw [Phys.readFsBlock_outside _ _ _ _ room (by omega), Phys.withSegment_below _ _ inside]
    exact loading.rest x (by omega) inside

end

end Sos.Boot
