import Sos.Efs.Block

/-! The packed on-disk inode and the routines on it. Only `data4` of the five
direct pointers carries the packed attribute, so the compiler aligns `data0` and
leaves three bytes of padding behind `refs`. -/

namespace Sos.Efs
open Sos.Lib Sos.Lib.Bytes

structure Inode where
  size : UInt32
  refs : UInt8
  pad : Buf 3
  /-- `data0` to `data4`. -/
  data : Fin 5 → UInt32
  indirectData : UInt32
  doubleIndirectData : UInt32
  /-- Flags, permission, owner, times and device information: copied, never read. -/
  rest : Buf 28

namespace Inode

def direct (inode : Inode) (i : Nat) : UInt32 := if h : i < 5 then inode.data ⟨i, h⟩ else 0

def setDirect (inode : Inode) (i : Nat) (v : UInt32) : Inode :=
  { inode with data := fun j => if j.val = i then v else inode.data j }

/-- `INODE_LEN` bytes. -/
def toBytes (inode : Inode) : Buf 64 := Buf.tabulate fun i =>
  if i < 4 then byteOf inode.size i
  else if i = 4 then inode.refs
  else if i < 8 then inode.pad.byte (i - 5)
  else if i < 28 then byteOf (inode.direct ((i - 8) / 4)) ((i - 8) % 4)
  else if i < 32 then byteOf inode.indirectData (i - 28)
  else if i < 36 then byteOf inode.doubleIndirectData (i - 32)
  else inode.rest.byte (i - 36)

def ofBytes (b : Buf 64) : Inode where
  size := b.word 0
  refs := b.byte 4
  pad := b.slice 5
  data := fun i => b.word (8 + 4 * i.val)
  indirectData := b.word 28
  doubleIndirectData := b.word 32
  rest := b.slice 36

theorem word_toBytes (inode : Inode) (off : Nat) (v : UInt32)
    (bytes : ∀ i, i < 4 → inode.toBytes.byte (off + i) = byteOf v i) :
    inode.toBytes.word off = v := by
  have b0 := bytes 0 (by omega)
  simp only [Nat.add_zero] at b0
  rw [Buf.word, b0, bytes 1 (by omega), bytes 2 (by omega), bytes 3 (by omega), wordOf_byteOf]

theorem ofBytes_toBytes (inode : Inode) : ofBytes inode.toBytes = inode := by
  have size : inode.toBytes.word 0 = inode.size := by
    apply word_toBytes
    intro i h
    rw [toBytes, Buf.byte_tabulate _ (by omega), if_pos (by omega), Nat.zero_add]
  have refs : inode.toBytes.byte 4 = inode.refs := by
    rw [toBytes, Buf.byte_tabulate _ (by omega), if_neg (by omega), if_pos rfl]
  have pad : (inode.toBytes.slice 5 : Buf 3) = inode.pad := by
    apply Buf.ext
    intro i h
    rw [Buf.byte_slice _ _ h, toBytes, Buf.byte_tabulate _ (by omega), if_neg (by omega),
      if_neg (by omega), if_pos (by omega), Nat.add_sub_cancel_left]
  have data : (fun i : Fin 5 => inode.toBytes.word (8 + 4 * i.val)) = inode.data := by
    funext k
    apply word_toBytes
    intro i h
    rw [toBytes, Buf.byte_tabulate _ (by omega), if_neg (by omega), if_neg (by omega),
      if_neg (by omega), if_pos (by omega)]
    have quotient : (8 + 4 * k.val + i - 8) / 4 = k.val := by omega
    have remainder : (8 + 4 * k.val + i - 8) % 4 = i := by omega
    simp only [quotient, remainder, direct, k.isLt, ↓reduceDIte]
  have indirect : inode.toBytes.word 28 = inode.indirectData := by
    apply word_toBytes
    intro i h
    rw [toBytes, Buf.byte_tabulate _ (by omega), if_neg (by omega), if_neg (by omega),
      if_neg (by omega), if_neg (by omega), if_pos (by omega), Nat.add_sub_cancel_left]
  have double : inode.toBytes.word 32 = inode.doubleIndirectData := by
    apply word_toBytes
    intro i h
    rw [toBytes, Buf.byte_tabulate _ (by omega), if_neg (by omega), if_neg (by omega),
      if_neg (by omega), if_neg (by omega), if_neg (by omega), if_pos (by omega),
      Nat.add_sub_cancel_left]
  have rest : (inode.toBytes.slice 36 : Buf 28) = inode.rest := by
    apply Buf.ext
    intro i h
    rw [Buf.byte_slice _ _ h, toBytes, Buf.byte_tabulate _ (by omega), if_neg (by omega),
      if_neg (by omega), if_neg (by omega), if_neg (by omega), if_neg (by omega),
      if_neg (by omega), Nat.add_sub_cancel_left]
  rw [ofBytes, size, refs, pad, data, indirect, double, rest]

/-- `bzero( &inode, INODE_LEN )`. -/
def zero : Inode := ofBytes Buf.zero

theorem direct_setDirect (inode : Inode) (i j : Nat) (v : UInt32) (h : i < 5) :
    (inode.setDirect i v).direct j = if j = i then v else inode.direct j := by
  unfold direct setDirect
  by_cases inside : j < 5
  · simp [inside]
  · simp [inside, show j ≠ i by omega]

end Inode

/-- Inode `num` sits at this offset of its table block. -/
def inodeSlot (num : UInt32) : Nat := (num % 16).toNat * 64

/-- A failed transfer ends the process with `exit( 1 )`. -/
def setInode (num : UInt32) (new : Inode) : Prog Device Int := do
  match ← getSuperblock with
  | none => return -1
  | some sb =>
    if num > sb.inodeCount then return -1
    let blockNum := num / 16 + sb.inodeOffset
    match ← readBlock blockNum with
    | none => Prog.exit
    | some block =>
      if (← writeBlock blockNum (block.blit (inodeSlot num) 64 new.toBytes.byte)) = -1 then
        Prog.exit
      return 0

def getInode (num : UInt32) : Prog Device (Option Inode) := do
  match ← getSuperblock with
  | none => return none
  | some sb =>
    if num > sb.inodeCount then return none
    match ← readBlock (num / 16 + sb.inodeOffset) with
    | none => return none
    | some block => return some (Inode.ofBytes (block.slice (inodeSlot num)))

/-- `INDIRECT_POINTERS`. -/
def indirectPointers : UInt32 := 256

/-- Entry `k` of a pointer block; one past its end is undefined. -/
def pointerAt (blk : Block) (k : UInt32) : Prog Device UInt32 :=
  if k < indirectPointers then return blk.word (4 * k.toNat) else Prog.fault

/-- The common tail of `get_logical_block`. -/
def logicalToReal (dataBlock : UInt32) : Prog Device UInt32 := do
  match ← getSuperblock with
  | none => return -1
  | some _ =>
    if (← dataToReal dataBlock) = 0 then return -1
    dataToReal dataBlock

def getLogicalBlock (inode : Inode) (lblock : UInt32) : Prog Device UInt32 := do
  if lblock ≤ 4 then
    logicalToReal (inode.direct lblock.toNat)
  else if lblock > 4 ∧ lblock ≤ indirectPointers then
    -- the pointer is a data block number, and is read as a device block number
    match ← readBlock inode.indirectData with
    | none => return 0
    | some blk => logicalToReal (← pointerAt blk (lblock - 5))
  else
    match ← readBlock inode.doubleIndirectData with
    | none => return 0
    | some blk =>
      let indirBlkNum ← pointerAt blk ((lblock - indirectPointers) / indirectPointers)
      match ← readBlock indirBlkNum with
      | none => return 0
      | some blk => logicalToReal (← pointerAt blk (lblock - 5))

/-- `inode.indirect_data` gets a zeroed block of its own when it has none yet. The
result is the inode as it then stands, or `none` where the caller returns -1. -/
def ensureIndirect (inodeNum : UInt32) (inode : Inode) : Prog Device (Option Inode) := do
  if inode.indirectData = 0 then
    let tmp ← findFreeBlock
    if tmp = 0 then return none
    if (← markBlockUsed tmp) = -1 then return none
    match ← getSuperblock with
    | none => return none
    | some _ =>
      let inode := { inode with indirectData := tmp }
      if (← setInode inodeNum inode) = -1 then return none
      if (← writeBlock (← dataToReal inode.indirectData) Buf.zero) = -1 then return none
      return some inode
  else return some inode

def addBlockPointer (inodeNum blockNum : UInt32) : Prog Device Int := do
  match ← getInode inodeNum with
  | none => return -1
  | some inode =>
    let nextBlock := inode.size / 1024
    if nextBlock ≤ 4 then
      if (← setInode inodeNum (inode.setDirect nextBlock.toNat blockNum)) = -1 then return -1
      return 0
    else if nextBlock > 4 ∧ nextBlock ≤ indirectPointers then
      match ← ensureIndirect inodeNum inode with
      | none => return -1
      | some inode =>
        match ← readBlock (← dataToReal inode.indirectData) with
        | none => return -1
        | some block =>
          let block := block.putWord (4 * (nextBlock - 5).toNat) blockNum
          if (← writeBlock (← dataToReal inode.indirectData) block) = -1 then return -1
          return 0
    else
      -- double indirect blocks are not implemented: nothing is recorded
      return 0

end Sos.Efs
