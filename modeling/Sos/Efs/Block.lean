import Sos.Lib.Bytes
import Sos.Lib.Prog

/-! Device blocks, the superblock and the block bitmap behind it. -/

namespace Sos.Efs
open Sos.Lib Sos.Lib.Bytes

/-- `BLOCK_SIZE` bytes. -/
abbrev Block := Buf 1024

/-- A device or image file of `count` whole blocks. Transfers inside it succeed. -/
structure Device where
  count : Nat
  block : Nat → Block

def Device.put (d : Device) (n : Nat) (info : Block) : Device :=
  { d with block := fun m => if m = n then info else d.block m }

/-- `offset = BLOCK_SIZE * lblock_num`, a 32-bit product kept in an `int`: `lseek`
fails on the negative half of the range. -/
def Device.seek (d : Device) (lblockNum : UInt32) : Option Nat :=
  let offset := 1024 * lblockNum
  if offset.toNat < 2 ^ 31 ∧ offset.toNat / 1024 < d.count then some (offset.toNat / 1024) else none

def readBlock (lblockNum : UInt32) : Prog Device (Option Block) :=
  Prog.get fun d => (d.seek lblockNum).map d.block

def writeBlock (lblockNum : UInt32) (info : Block) : Prog Device Int := fun d =>
  match d.seek lblockNum with
  | none => .done (-1) d
  | some n => .done 0 (d.put n info)

structure Superblock where
  ident : Buf 4
  inodeOffset : UInt32
  inodeCount : UInt32
  dataOffset : UInt32
  dataCount : UInt32

/-- `SUPERBLOCK_LEN` bytes, every field packed. -/
def Superblock.toBytes (sb : Superblock) : Buf 20 :=
  ((((Buf.zero.blit 0 4 sb.ident.byte).putWord 4 sb.inodeOffset).putWord 8 sb.inodeCount).putWord
    12 sb.dataOffset).putWord 16 sb.dataCount

def Superblock.ofBytes (b : Buf 20) : Superblock where
  ident := b.slice 0
  inodeOffset := b.word 4
  inodeCount := b.word 8
  dataOffset := b.word 12
  dataCount := b.word 16

theorem Superblock.ofBytes_toBytes (sb : Superblock) : ofBytes sb.toBytes = sb := by
  have ident : (sb.toBytes.slice 0 : Buf 4) = sb.ident := by
    simp only [toBytes, Buf.putWord]
    iterate 4 rw [Buf.slice_blit_other _ _ _ _ _ (by omega)]
    exact Buf.slice_blit_same _ _ _ (by omega)
  rw [ofBytes, ident]
  simp [toBytes, Buf.word_putWord, Buf.word_putWord_other]

/-- `BOOTCODE_LEN`. -/
def bootcodeLen : Nat := 512

def newSuperblock : Superblock where
  ident := fun i => if i = 0 then 0xFF else if i = 1 then 0x45 else if i = 2 then 0x66 else 0x53
  inodeOffset := 0
  inodeCount := 0
  dataOffset := 0
  dataCount := 0

def getSuperblock : Prog Device (Option Superblock) := do
  match ← readBlock 0 with
  | none => return none
  | some block => return some (Superblock.ofBytes (block.slice bootcodeLen))

/-- `sect_map = block+SUPERBLOCK_LEN+BOOTCODE_LEN`. -/
def sectMap : Nat := bootcodeLen + 20

def bitMask (blockNum : UInt32) : UInt32 := 1 <<< (7 - blockNum % 8)

/-- The bitmap byte of a data block; one past the end of `block` is undefined. -/
def mapByte (block : Block) (blockNum : UInt32) : Prog Device UInt8 :=
  let at_ := sectMap + (blockNum / 8).toNat
  if at_ < 1024 then return block.byte at_ else Prog.fault

def markBlockUsed (blockNum : UInt32) : Prog Device Int := do
  match ← readBlock 0 with
  | none => return -1
  | some block =>
    let byte ← mapByte block blockNum
    if byte.toUInt32 &&& bitMask blockNum ≠ 0 then return 1
    let marked := (byte.toUInt32 ||| bitMask blockNum).toUInt8
    if (← writeBlock 0 (block.blit (sectMap + (blockNum / 8).toNat) 1 fun _ => marked)) = -1 then
      return -1
    return 0

def checkBlock (blockNum : UInt32) : Prog Device Int := do
  match ← readBlock 0 with
  | none => return -1
  | some block =>
    let byte ← mapByte block blockNum
    if byte.toUInt32 &&& bitMask blockNum ≠ 0 then return 1
    return 0

/-- The loop of `find_free_block`, with the number of data blocks still to look at. -/
def scanFree : Nat → UInt32 → Prog Device UInt32
  | 0, _ => return 0
  | left + 1, i => do
    if (← checkBlock i) = 0 then return i
    scanFree left (i + 1)

def findFreeBlock : Prog Device UInt32 := do
  match ← getSuperblock with
  | none => return -1
  | some sb => scanFree sb.dataCount.toNat 0

def dataToReal (datablk : UInt32) : Prog Device UInt32 := do
  match ← getSuperblock with
  | none => return -1
  | some sb => return datablk + sb.dataOffset

end Sos.Efs
