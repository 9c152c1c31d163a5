import Sos.Efs.Inode

/-! The root directory and block allocation for files. A file name is the twelve
bytes found at its address; the string routines look at no more of it. -/

namespace Sos.Efs
open Sos.Lib Sos.Lib.Bytes

/-- `FILE_NAME_SIZE` bytes. -/
abbrev Name := Buf 12

/-- `strncmp( a, b, n )`, of which the callers only test for zero. -/
def strncmp : Nat → (Nat → UInt8) → (Nat → UInt8) → Int
  | 0, _, _ => 0
  | n + 1, a, b =>
    if a 0 ≠ b 0 then (a 0).toNat - (b 0).toNat
    else if a 0 = 0 then 0
    else strncmp n (fun i => a (i + 1)) (fun i => b (i + 1))

/-- The bytes `strncpy` stores: the string, then zeros. -/
def strncpy (src : Nat → UInt8) (i : Nat) : UInt8 :=
  if (List.range i).all fun j => src j ≠ 0 then src i else 0

def validateEfs : Prog Device Int := do
  match ← getSuperblock with
  | none => return -1
  | some sb =>
    -- the test joins the four mismatches with `&&`
    if sb.ident.byte 0 ≠ 0xFF ∧ sb.ident.byte 1 ≠ 0x45 ∧ sb.ident.byte 2 ≠ 0x66 ∧
        sb.ident.byte 3 ≠ 0x53 then return -1
    return 0

/-- `strncmp( block+j, filename, FILE_NAME_SIZE ) == 0` for the entry at `16 * e`. -/
def entryMatches (block : Block) (filename : Name) (e : Nat) : Bool :=
  strncmp 12 (fun i => block.byte (16 * e + i)) filename.byte = 0

/-- The inner loop of `find_file`, over the 64 entries of a block. -/
def searchBlock (block : Block) (filename : Name) : Option UInt32 :=
  ((List.range 64).find? (entryMatches block filename)).map fun e => block.word (16 * e + 12)

/-- The outer loop of `find_file`, with the number of blocks still to look at. -/
def searchBlocks (rootInode : Inode) (filename : Name) :
    Nat → UInt32 → Prog Device (Option UInt32)
  | 0, _ => return none
  | left + 1, i => do
    let dataBlock ← getLogicalBlock rootInode i
    if dataBlock = 0 then return none
    match ← readBlock dataBlock with
    | none => return none
    | some block =>
      match searchBlock block filename with
      | some inode => return some inode
      | none => searchBlocks rootInode filename left (i + 1)

def findFile (filename : Name) : Prog Device (Option UInt32) := do
  match ← getInode 0 with
  | none => return none
  | some rootInode =>
    let lastBlock := rootInode.size / 1024
    searchBlocks rootInode filename (lastBlock.toNat + 1) 0

/-- The entry must lie inside the block: anything else is undefined. -/
def writeEntry (block : Block) (off : Nat) (filename : Name) (inodeNum : UInt32) :
    Prog Device Block :=
  if off + 16 ≤ 1024 then
    return (block.blit off 11 (strncpy filename.byte)).putWord (off + 12) inodeNum
  else Prog.fault

def addFile (filename : Name) (inodeNum : UInt32) : Prog Device Int := do
  match ← getInode 0 with
  | none => return -1
  | some inode =>
    let lastBlock := inode.size / 1024
    let dataBlock ← getLogicalBlock inode lastBlock
    if dataBlock = 0 then return -1
    match ← readBlock dataBlock with
    | none => return -1
    | some block =>
      let block ← writeEntry block (inode.size % 1024).toNat filename inodeNum
      if (← writeBlock dataBlock block) = -1 then return -1
      if (← setInode 0 { inode with size := inode.size + 16 }) = -1 then return -1
      return 0

/-- The search of `new_file` for an inode without references: its number and value,
`none` when there is none left. An unreadable inode ends `new_file` with -1 as well. -/
def scanInodes : Nat → UInt32 → Prog Device (Option (UInt32 × Inode))
  | 0, _ => return none
  | left + 1, i => do
    match ← getInode i with
    | none => return none
    | some inode =>
      if inode.refs = 0 then return some (i, inode)
      scanInodes left (i + 1)

def newFile (filename : Name) : Prog Device Int := do
  match ← getSuperblock with
  | none => return -1
  | some sb =>
    match ← findFile filename with
    | some i =>
      match ← getInode i with
      | none => return -1
      | some inode =>
        if (← setInode i { inode with size := 0 }) = -1 then return -1
        return 0
    | none =>
      match ← scanInodes sb.inodeCount.toNat 0 with
      | none => return -1
      | some (i, inode) =>
        if (← addFile filename i) = -1 then return -1
        if (← setInode i { inode with refs := 1 }) = -1 then return -1
        return 0

/-- Errors are reported as -1, the block number 0xFFFFFFFF. -/
def fallocBlock (filename : Name) : Prog Device UInt32 := do
  match ← getSuperblock with
  | none => return -1
  | some _ =>
    match ← findFile filename with
    | none => return -1
    | some inode =>
      let block ← findFreeBlock
      if block = 0 then return -1
      if (← markBlockUsed block) = -1 then return -1
      if (← addBlockPointer inode block) = -1 then return -1
      dataToReal block

end Sos.Efs
