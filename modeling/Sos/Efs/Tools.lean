import Sos.Efs.Efs

/-! The two host programs: `mkefs` formats a device and `writeefs` copies one file
onto it. -/

namespace Sos.Efs
open Sos.Lib Sos.Lib.Bytes

/-- What `create_superblock` fills in. `block_count` is an `int`; the subtraction is
unsigned. -/
def makeSuperblock (blockCount : UInt32) : Superblock :=
  { newSuperblock with
    inodeOffset := 1
    inodeCount := 64
    dataOffset := 5
    dataCount := blockCount - 5 }

/-- The result of `write_block` is ignored here and in the next two routines. -/
def createSuperblock (blockCount : UInt32) : Prog Device Superblock := do
  let sb := makeSuperblock blockCount
  let _ ← writeBlock 0 ((Buf.zero : Block).blit bootcodeLen 20 sb.toBytes.byte)
  return sb

def zeroBlocks : Nat → UInt32 → Prog Device Unit
  | 0, _ => return
  | left + 1, i => do
    let _ ← writeBlock i Buf.zero
    zeroBlocks left (i + 1)

def createInodeblocks (sb : Superblock) : Prog Device Unit :=
  zeroBlocks (sb.dataOffset.toNat - sb.inodeOffset.toNat) sb.inodeOffset

/-- The root directory lists only itself. -/
def rootEntry : Block := (Buf.zero : Block).blit 0 1 fun _ => 0x2E

def createRootdir (sb : Superblock) : Prog Device Unit := do
  let _ ← writeBlock sb.dataOffset rootEntry
  let _ ← setInode 0 { Inode.zero with size := 16, refs := 1 }
  if (← markBlockUsed 0) ≠ 0 then Prog.exit
  return

/-- `sb` is read after it was freed; the values written are taken to be still there. -/
def mkefs (blockCount : UInt32) : Prog Device Int := do
  let sb ← createSuperblock blockCount
  createInodeblocks sb
  createRootdir sb
  return 0

/-- What one `read( fd, block_buff, BLOCK_SIZE )` stores: at most a block. -/
abbrev Chunk := { data : List UInt8 // data.length ≤ 1024 }

/-- A chunk without bytes is the end of the file. -/
inductive ReadResult where
  | bytes (data : Chunk)
  | error

/-- `read_len`, as it is added to the 32-bit size. -/
def ReadResult.len : ReadResult → UInt32
  | .bytes data => UInt32.ofNat data.val.length
  | .error => -1

/-- `block_buff` after the read: it was zeroed before. -/
def ReadResult.buff : ReadResult → Block
  | .bytes data => Buf.tabulate fun i => data.val.getD i 0
  | .error => Buf.zero

/-- One round of the copy loop of `read_write`. On success it gives the block that
`falloc_block` returned. -/
def copyBlock (fName : Name) (result : ReadResult) : Prog Device (Option UInt32) := do
  let block ← fallocBlock fName
  if block = 0 then return none
  if (← writeBlock block result.buff) = -1 then return none
  match ← findFile fName with
  | none => return none
  | some inodeNum =>
    match ← getInode inodeNum with
    | none => return none
    | some inode =>
      if (← setInode inodeNum { inode with size := inode.size + result.len }) = -1 then
        return none
      return some block

/-- How a `read_write` run ended, with the blocks `falloc_block` returned for the
rounds completed, first block first. -/
structure CopyResult where
  ret : Int
  blocks : List UInt32

def copyLoop (fName : Name) : List ReadResult → Prog Device CopyResult
  | [] => return ⟨0, []⟩
  | result :: results => do
    if result.len = 0 then return ⟨0, []⟩
    match ← copyBlock fName result with
    | none => return ⟨-1, []⟩
    | some block =>
      let rest ← copyLoop fName results
      return ⟨rest.ret, block :: rest.blocks⟩

/-- What follows the last `/` of a path. -/
def baseName (file : List UInt8) : List UInt8 :=
  (file.reverse.takeWhile (· ≠ 0x2F)).reverse

/-- `f_name` after `strncpy`: eleven bytes are stored, the twelfth keeps what the
stack held. -/
def fileName (stack : Name) (base : List UInt8) : Name :=
  stack.blit 0 11 (strncpy fun i => base.getD i 0)

/-- `reads` is `none` when the source file cannot be opened, else the results of the
reads on it in order, the end of the file after the last one. -/
def readWrite (stack : Name) (file : List UInt8) (reads : Option (List ReadResult)) :
    Prog Device CopyResult := do
  let fName := fileName stack (baseName file)
  if (← newFile fName) = -1 then return ⟨-1, []⟩
  match reads with
  | none => return ⟨-1, []⟩
  | some results => copyLoop fName results

/-- `main` of `writeefs`, with its exit status 1 for a device without a file system. -/
def writeefs (stack : Name) (file : List UInt8) (reads : Option (List ReadResult)) :
    Prog Device CopyResult := do
  if (← validateEfs) ≠ 0 then return ⟨1, []⟩
  readWrite stack file reads

end Sos.Efs
