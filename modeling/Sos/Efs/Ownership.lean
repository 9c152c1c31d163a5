import Sos.Efs.NewFile

/-! Who owns which data block. Every reference of the root directory, of an indirect
pointer or of a pointer slot in use has a block of its own, marked in the bitmap. -/

namespace Sos.Efs
open Sos.Lib Sos.Lib.Bytes

namespace Device

/-- Pointer `s` of inode `i`: direct up to four, then an entry of the indirect block. -/
def ptr (d : Device) (i s : Nat) : UInt32 :=
  if s < 5 then (d.inode i).direct s
  else (d.data (d.inode i).indirectData.toNat).word (4 * (s - 5))

/-- The blocks that the size of inode `i` asks for, the last one perhaps in part. -/
def blocks (d : Device) (i : Nat) : Nat := ((d.inode i).size.toNat + 1023) / 1024

theorem ptr_direct (d : Device) (i s : Nat) (h : s < 5) : d.ptr i s = (d.inode i).direct s :=
  if_pos h

theorem ptr_indirect (d : Device) (i s : Nat) (h : 5 ≤ s) :
    d.ptr i s = (d.data (d.inode i).indirectData.toNat).word (4 * (s - 5)) :=
  if_neg (by omega)

end Device

/-- Where a block number is kept. -/
inductive Ref where
  | root
  | indirect (i : Nat)
  | slot (i s : Nat)
  deriving DecidableEq

namespace Ref

def Live (d : Device) : Ref → Prop
  | root => True
  | indirect i => i < 64 ∧ (d.inode i).indirectData ≠ 0
  | slot i s => 1 ≤ i ∧ i < 64 ∧ s < d.blocks i

def target (d : Device) : Ref → Nat
  | root => 0
  | indirect i => (d.inode i).indirectData.toNat
  | slot i s => (d.ptr i s).toNat

end Ref

structure Owned (d : Device) : Prop where
  unique : ∀ a b : Ref, a.Live d → b.Live d → a.target d = b.target d → a = b
  inside : ∀ a : Ref, a.Live d → a.target d < d.dataCount
  marked : ∀ a : Ref, a.Live d → d.bit (a.target d) = true
  size : ∀ i, 1 ≤ i → i < 64 → (d.inode i).size.toNat ≤ 257 * 1024
  indirect : ∀ i, 1 ≤ i → i < 64 → 5 < d.blocks i → (d.inode i).indirectData ≠ 0

namespace Owned
variable {d : Device} (own : Owned d)
include own

theorem root_bit : d.bit 0 = true := own.marked .root trivial

theorem root_ne {b : UInt32} (free : d.bit b.toNat = false) : b ≠ 0 := by
  intro zero
  rw [zero, UInt32.toNat_zero, own.root_bit] at free
  cases free

/-- An unmarked block is nobody's. -/
theorem free_ne {b : UInt32} (free : d.bit b.toNat = false) (a : Ref) (live : a.Live d) :
    a.target d ≠ b.toNat := by
  intro same
  have marked := own.marked a live
  rw [same, free] at marked
  cases marked

end Owned

/-- Block `k` of inode `i`, whose size is `1024 * k`, recorded as `b`. A new indirect
block `t` may have been taken on the way. -/
structure Allocated (d d' : Device) (i k : Nat) (b : UInt32) (t : Option UInt32) : Prop where
  formatted : Formatted d'
  dataCount : d'.dataCount = d.dataCount
  inside : b.toNat < d.dataCount
  free : d.bit b.toNat = false
  others : ∀ j, j < 64 → j ≠ i → d'.inode j = d.inode j
  size : (d'.inode i).size = (d.inode i).size
  refs : (d'.inode i).refs = (d.inode i).refs
  kept : t = none → (d'.inode i).indirectData = (d.inode i).indirectData
  taken : ∀ x, t = some x → 5 ≤ k ∧ (d.inode i).indirectData = 0 ∧ (d'.inode i).indirectData = x ∧
    x ≠ b ∧ x.toNat < d.dataCount ∧ d.bit x.toNat = false
  used : 5 ≤ k → (d'.inode i).indirectData ≠ 0
  bits : ∀ m, d'.bit m = true ↔ d.bit m = true ∨ m = b.toNat ∨ ∃ x, t = some x ∧ m = x.toNat
  ptr : d'.ptr i k = b
  ptrs : ∀ s, s < k → d'.ptr i s = d.ptr i s
  data : ∀ m, (5 ≤ k → m ≠ (d'.inode i).indirectData.toNat) → d'.data m = d.data m

theorem next_block {k : Nat} {x : UInt32} (size : x.toNat = 1024 * k) : (x / 1024).toNat = k := by
  rw [UInt32.toNat_div, size]
  change 1024 * k / 1024 = k
  omega

section
variable {d : Device} (r : Rooted d) {i : UInt32} {k : Nat} (hi : i.toNat ≤ 64)
  (next : ((d.inode i.toNat).size / 1024).toNat = k)

theorem block_le_four {x : UInt32} (next : x.toNat = k) : x ≤ 4 ↔ k ≤ 4 := by
  rw [UInt32.le_iff_toNat_le, next]
  rfl

include r hi next

theorem addBlockPointer_direct (b : UInt32) (hk : k < 5) : addBlockPointer i b d =
    .done 0 (d.putInode i.toNat ((d.inode i.toNat).setDirect k b)) := by
  rw [addBlockPointer, Prog.bind_done _ (getInode_done r i hi)]
  simp only
  rw [if_pos ((block_le_four next).mpr (by omega)), next, Prog.bind_done _ (setInode_done r i _ hi)]
  rfl

/-- The part of `add_block_pointer` for an indirect pointer. -/
theorem addBlockPointer_via (b : UInt32) (lower : 5 ≤ k) (upper : k ≤ 256) : addBlockPointer i b d = (do
    match ← ensureIndirect i (d.inode i.toNat) with
    | none => return -1
    | some inode =>
      match ← readBlock (← dataToReal inode.indirectData) with
      | none => return -1
      | some block =>
        let block := block.putWord (4 * (k - 5)) b
        if (← writeBlock (← dataToReal inode.indirectData) block) = -1 then return -1
        return 0 : Prog Device Int) d := by
  have big : ¬(d.inode i.toNat).size / 1024 ≤ 4 := by
    rw [block_le_four next]
    omega
  have fits : (d.inode i.toNat).size / 1024 ≤ indirectPointers := by
    rw [UInt32.le_iff_toNat_le, next]
    exact upper
  have entry : ((d.inode i.toNat).size / 1024 - 5).toNat = k - 5 := by
    rw [UInt32.toNat_sub_of_le _ _ (by rw [UInt32.le_iff_toNat_le, next]; exact lower), next]
    rfl
  rw [addBlockPointer, Prog.bind_done _ (getInode_done r i hi), ← entry]
  exact congrFun ((if_neg big).trans (if_pos ⟨UInt32.not_le.mp big, fits⟩)) d

theorem addBlockPointer_no_indirect (b : UInt32) (lower : 5 ≤ k) (upper : k ≤ 256)
    (failed : ensureIndirect i (d.inode i.toNat) d = .done none d) :
    addBlockPointer i b d = .done (-1) d := by
  rw [addBlockPointer_via r hi next b lower upper, Prog.bind_done _ failed]
  rfl

/-- The indirect branch once `ensureIndirect` has come back with the inode. -/
theorem addBlockPointer_ensured (b : UInt32) (lower : 5 ≤ k) (upper : k ≤ 256) {d' : Device}
    {inode : Inode} (r' : Rooted d')
    (ensured : ensureIndirect i (d.inode i.toNat) d = .done (some inode) d') :
    addBlockPointer i b d = match d'.seek (inode.indirectData + 5) with
      | none => .done (-1) d'
      | some n => .done 0 (d'.put n ((d'.block n).putWord (4 * (k - 5)) b)) := by
  rw [addBlockPointer_via r hi next b lower upper, Prog.bind_done _ ensured]
  simp only
  rw [Prog.bind_done _ (dataToReal_done r' _)]
  cases found : d'.seek (inode.indirectData + 5) with
  | none =>
    have read : readBlock (inode.indirectData + 5) d' = .done none d' := by simp [readBlock, found]
    rw [Prog.bind_done _ read]
    rfl
  | some n =>
    have read : readBlock (inode.indirectData + 5) d' = .done (some (d'.block n)) d' := by
      simp [readBlock, found]
    have written : ∀ block, writeBlock (inode.indirectData + 5) block d' = .done 0 (d'.put n block) := by
      intro block
      simp [writeBlock, found]
    rw [Prog.bind_done _ read]
    simp only
    rw [Prog.bind_done _ (dataToReal_done r' _), Prog.bind_done _ (written _)]
    rfl

theorem addBlockPointer_indirect (b : UInt32) (lower : 5 ≤ k) (upper : k ≤ 256) {d' : Device}
    {inode : Inode} (f' : Formatted d')
    (ensured : ensureIndirect i (d.inode i.toNat) d = .done (some inode) d')
    (inside : inode.indirectData.toNat < d'.dataCount) : addBlockPointer i b d = .done 0
      (d'.putData inode.indirectData.toNat
        ((d'.data inode.indirectData.toNat).putWord (4 * (k - 5)) b)) := by
  rw [addBlockPointer_ensured r hi next b lower upper f'.rooted ensured, seekData_done f' _ inside]
  rfl

end

section
variable {d : Device} (f : Formatted d) {i : UInt32} (hi : i.toNat ≤ 64) (inode : Inode)

theorem ensureIndirect_keep (present : inode.indirectData ≠ 0) :
    ensureIndirect i inode d = .done (some inode) d := by
  rw [ensureIndirect, if_neg present]
  rfl

theorem ensureIndirect_full (absent : inode.indirectData = 0)
    (full : findFreeBlock d = .done 0 d) : ensureIndirect i inode d = .done none d := by
  rw [ensureIndirect, if_pos absent, Prog.bind_done _ full]
  rfl

include f hi

theorem ensureIndirect_take (absent : inode.indirectData = 0) {t : UInt32}
    (found : findFreeBlock d = .done t d) (nonzero : t ≠ 0) (inside : t.toNat < d.dataCount)
    (free : d.bit t.toNat = false) : ensureIndirect i inode d = .done
      (some { inode with indirectData := t })
      (((d.mark t).putInode i.toNat { inode with indirectData := t }).putData t.toNat Buf.zero) := by
  have f1 := f.mark t
  have f2 := f1.putInode i.toNat { inode with indirectData := t }
  rw [ensureIndirect, if_pos absent, Prog.bind_done _ found, if_neg nonzero,
    Prog.bind_done _ (markBlockUsed_free f.some_ t (inside.trans_le f.dataCount) free), if_neg (by decide),
    Prog.bind_done _ (getSuperblock_done f1.rooted)]
  simp only
  rw [Prog.bind_done _ (setInode_done f1.rooted i _ hi), if_neg (by decide),
    Prog.bind_done _ (dataToReal_done f2.rooted t),
    Prog.bind_done _ (writeData_done f2 t _ (by simpa [Device.dataCount] using inside))]
  rfl

end

end Sos.Efs
