import Mathlib.Data.Nat.Find
import Sos.Efs.Layout

/-! What each routine of the library does on a formatted device, as one equation. -/

namespace Sos.Efs
open Sos.Lib Sos.Lib.Bytes

/-- The product loses the upper ten bits of the number, and its negative half is refused. -/
theorem seek_eq (d : Device) (n : UInt32) : d.seek n =
    if n.toNat % 2 ^ 22 < 2 ^ 21 ∧ n.toNat % 2 ^ 22 < d.count then some (n.toNat % 2 ^ 22) else none := by
  have offset : (1024 * n).toNat = 1024 * (n.toNat % 2 ^ 22) := by
    rw [UInt32.toNat_mul]
    exact Nat.mul_mod_mul_left 1024 n.toNat (2 ^ 22)
  simp only [Device.seek, offset, Nat.mul_div_cancel_left _ (show 0 < 1024 by omega)]
  by_cases inside : n.toNat % 2 ^ 22 < 2 ^ 21 ∧ n.toNat % 2 ^ 22 < d.count
  · rw [if_pos ⟨by omega, inside.2⟩, if_pos inside]
  · rw [if_neg (by omega), if_neg inside]

theorem seek_inside (d : Device) (n : UInt32) (small : n.toNat < 2 ^ 21)
    (inside : n.toNat < d.count) : d.seek n = some n.toNat := by
  have whole : n.toNat % 2 ^ 22 = n.toNat := Nat.mod_eq_of_lt (by omega)
  rw [seek_eq, whole, if_pos ⟨small, inside⟩]

theorem seek_outside (d : Device) (n : UInt32) (small : n.toNat < 2 ^ 21)
    (outside : d.count ≤ n.toNat) : d.seek n = none := by
  have whole : n.toNat % 2 ^ 22 = n.toNat := Nat.mod_eq_of_lt (by omega)
  rw [seek_eq, whole, if_neg (by omega)]

theorem readBlock_inside (d : Device) (n : UInt32) (small : n.toNat < 2 ^ 21)
    (inside : n.toNat < d.count) : readBlock n d = .done (some (d.block n.toNat)) d := by
  simp [readBlock, seek_inside d n small inside]

theorem writeBlock_inside (d : Device) (n : UInt32) (b : Block) (small : n.toNat < 2 ^ 21)
    (inside : n.toNat < d.count) : writeBlock n b d = .done 0 (d.put n.toNat b) := by
  simp [writeBlock, seek_inside d n small inside]

theorem readBlock_outside (d : Device) (n : UInt32) (small : n.toNat < 2 ^ 21)
    (outside : d.count ≤ n.toNat) : readBlock n d = .done none d := by
  simp [readBlock, seek_outside d n small outside]

theorem writeBlock_outside (d : Device) (n : UInt32) (b : Block) (small : n.toNat < 2 ^ 21)
    (outside : d.count ≤ n.toNat) : writeBlock n b d = .done (-1) d := by
  simp [writeBlock, seek_outside d n small outside]

/-- The block number -1 of a failed call lies at a negative offset. -/
theorem writeBlock_minus_one (d : Device) (b : Block) : writeBlock (-1) b d = .done (-1) d := by
  have outside : d.seek (-1) = none := by
    unfold Device.seek
    rw [if_neg]
    intro inside
    exact absurd inside.1 (by decide)
  simp [writeBlock, outside]

section
variable {d : Device} (some_ : 0 < d.count)
include some_

theorem readBlock_zero : readBlock 0 d = .done (some (d.block 0)) d :=
  readBlock_inside d 0 (by decide) some_

theorem writeBlock_zero (b : Block) : writeBlock 0 b d = .done 0 (d.put 0 b) :=
  writeBlock_inside d 0 b (by decide) some_

theorem getSuperblock_some : getSuperblock d = .done (some d.sb) d := by
  rw [getSuperblock, Prog.bind_done _ (readBlock_zero some_)]
  rfl

omit some_ in
theorem mapByte_done (n : UInt32) (h : n.toNat < 3936) :
    mapByte (d.block 0) n d = .done ((d.block 0).byte (sectMap + n.toNat / 8)) d := by
  have at_ : (n / 8).toNat = n.toNat / 8 := by simp
  simp only [mapByte, at_]
  rw [if_pos (by unfold sectMap bootcodeLen; omega)]
  rfl

theorem checkBlock_done (n : UInt32) (h : n.toNat < 3936) :
    checkBlock n d = .done (if d.bit n.toNat then 1 else 0) d := by
  rw [checkBlock, Prog.bind_done _ (readBlock_zero some_)]
  simp only
  rw [Prog.bind_done _ (mapByte_done n h)]
  simp only [bitMask_test]
  change (if d.bit n.toNat = true then pure 1 else pure 0 : Prog Device Int) d = _
  split <;> rfl

theorem markBlockUsed_free (n : UInt32) (h : n.toNat < 3936) (free : d.bit n.toNat = false) :
    markBlockUsed n d = .done 0 (d.mark n) := by
  have at_ : (n / 8).toNat = n.toNat / 8 := by simp
  rw [markBlockUsed, Prog.bind_done _ (readBlock_zero some_)]
  simp only
  rw [Prog.bind_done _ (mapByte_done n h)]
  simp only [bitMask_test]
  rw [if_neg (by change ¬d.bit n.toNat = true; simp [free])]
  rw [Prog.bind_done _ (writeBlock_zero some_ _), at_]
  rfl

theorem markBlockUsed_used (n : UInt32) (h : n.toNat < 3936) (used : d.bit n.toNat = true) :
    markBlockUsed n d = .done 1 d := by
  rw [markBlockUsed, Prog.bind_done _ (readBlock_zero some_)]
  simp only
  rw [Prog.bind_done _ (mapByte_done n h)]
  simp only [bitMask_test]
  unfold Device.bit at used
  rw [if_pos used]
  rfl

variable (small : d.dataCount ≤ 3936)
include small

theorem scanFree_none (left : Nat) (i : UInt32) (bound : i.toNat + left ≤ d.dataCount)
    (used : ∀ m, i.toNat ≤ m → m < i.toNat + left → d.bit m = true) :
    scanFree left i d = .done 0 d := by
  induction left generalizing i with
  | zero => rfl
  | succ left ih =>
    have next : (i + 1).toNat = i.toNat + 1 := toNat_succ (by omega)
    rw [scanFree, Prog.bind_done _ (checkBlock_done some_ i (by omega)), used _ le_rfl (by omega)]
    exact ih (i + 1) (by omega) (fun m lower upper => used m (by omega) (by omega))

theorem scanFree_some (left : Nat) (i b : UInt32) (bound : i.toNat + left ≤ d.dataCount)
    (lower : i.toNat ≤ b.toNat) (upper : b.toNat < i.toNat + left) (free : d.bit b.toNat = false)
    (used : ∀ m, i.toNat ≤ m → m < b.toNat → d.bit m = true) :
    scanFree left i d = .done b d := by
  induction left generalizing i with
  | zero => omega
  | succ left ih =>
    have next : (i + 1).toNat = i.toNat + 1 := toNat_succ (by omega)
    rw [scanFree, Prog.bind_done _ (checkBlock_done some_ i (by omega))]
    by_cases same : i = b
    · subst same
      simp [free]
    · have differ : i.toNat ≠ b.toNat := fun h => same (UInt32.toNat_inj.mp h)
      rw [used _ le_rfl (by omega)]
      exact ih (i + 1) (by omega) (by omega) (by omega) (fun m lo hi => used m (by omega) hi)

omit some_ in
theorem exists_least_free {m : Nat} (inside : m < d.dataCount) (free : d.bit m = false) : ∃ b : UInt32,
    b.toNat ≤ m ∧ d.bit b.toNat = false ∧ ∀ k, k < b.toNat → d.bit k = true := by
  have first : ∃ m, d.bit m = false := ⟨m, free⟩
  have upper : Nat.find first ≤ m := Nat.find_min' first free
  have value : (UInt32.ofNat (Nat.find first)).toNat = Nat.find first := by
    rw [UInt32.toNat_ofNat']
    omega
  refine ⟨UInt32.ofNat (Nat.find first), by rwa [value], by rw [value]; exact Nat.find_spec first, ?_⟩
  intro k below
  rw [value] at below
  simpa using Nat.find_min first below

/-- `find_free_block` when every block is marked. -/
theorem findFreeBlock_full (full : ∀ m, m < d.dataCount → d.bit m = true) :
    findFreeBlock d = .done 0 d := by
  rw [findFreeBlock, Prog.bind_done _ (getSuperblock_some some_)]
  exact scanFree_none some_ small _ 0 (by simp [Device.dataCount]) (fun m _ upper => full m (by
    simpa [Device.dataCount] using upper))

/-- `find_free_block` gives the least unmarked block. -/
theorem findFreeBlock_least (b : UInt32) (h : b.toNat < d.dataCount) (free : d.bit b.toNat = false)
    (used : ∀ m, m < b.toNat → d.bit m = true) : findFreeBlock d = .done b d := by
  rw [findFreeBlock, Prog.bind_done _ (getSuperblock_some some_)]
  exact scanFree_some some_ small _ 0 b (by simp [Device.dataCount]) (by simp)
    (by simpa [Device.dataCount] using h) free (fun m _ upper => used m upper)

end

section Tabled
variable {d : Device} (t : Tabled d)
include t

theorem inodeBlock_toNat (i : UInt32) (h : i.toNat ≤ 64) :
    (i / 16 + d.sb.inodeOffset).toNat = i.toNat / 16 + 1 := by
  rw [t.inodeOffset, UInt32.toNat_add, UInt32.toNat_div]
  simp
  omega

theorem inode_accepted (i : UInt32) : i > d.sb.inodeCount ↔ 64 < i.toNat := by
  rw [t.inodeCount]
  exact UInt32.lt_iff_toNat_lt

theorem getInode_refused (i : UInt32) (big : 64 < i.toNat) : getInode i d = .done none d := by
  rw [getInode, Prog.bind_done _ (getSuperblock_some t.some_)]
  simp only
  rw [if_pos ((inode_accepted t i).mpr big)]
  rfl

theorem setInode_refused (i : UInt32) (x : Inode) (big : 64 < i.toNat) : setInode i x d = .done (-1) d := by
  rw [setInode, Prog.bind_done _ (getSuperblock_some t.some_)]
  simp only
  rw [if_pos ((inode_accepted t i).mpr big)]
  rfl

theorem getInode_cases (i : UInt32) (h : i.toNat ≤ 64) : getInode i d =
    .done (if i.toNat / 16 + 1 < d.count then some (d.inode i.toNat) else none) d := by
  have real := inodeBlock_toNat t i h
  rw [getInode, Prog.bind_done _ (getSuperblock_some t.some_)]
  simp only
  rw [if_neg (by rw [inode_accepted t]; omega)]
  by_cases inside : i.toNat / 16 + 1 < d.count
  · rw [Prog.bind_done _ (readBlock_inside d _ (by omega) (by omega)), real, if_pos inside]
    simp [Device.inode, inodeSlot]
  · rw [Prog.bind_done _ (readBlock_outside d _ (by omega) (by omega)), if_neg inside]
    rfl

/-- A block of the table that is not on the device ends the program. -/
theorem setInode_cases (i : UInt32) (x : Inode) (h : i.toNat ≤ 64) : setInode i x d =
    if i.toNat / 16 + 1 < d.count then .done 0 (d.putInode i.toNat x) else .exit d := by
  have real := inodeBlock_toNat t i h
  rw [setInode, Prog.bind_done _ (getSuperblock_some t.some_)]
  simp only
  rw [if_neg (by rw [inode_accepted t]; omega)]
  by_cases inside : i.toNat / 16 + 1 < d.count
  · rw [Prog.bind_done _ (readBlock_inside d _ (by omega) (by omega)), if_pos inside]
    simp only
    rw [Prog.bind_done _ (writeBlock_inside d _ _ (by omega) (by omega)), real]
    simp [Device.putInode, inodeSlot]
  · rw [Prog.bind_done _ (readBlock_outside d _ (by omega) (by omega)), if_neg inside]
    rfl

end Tabled

section Rooted
variable {d : Device} (r : Rooted d)
include r

theorem getSuperblock_done : getSuperblock d = .done (some d.sb) d := getSuperblock_some r.some_

theorem dataToReal_done (n : UInt32) : dataToReal n d = .done (n + 5) d := by
  rw [dataToReal, Prog.bind_done _ (getSuperblock_done r)]
  simp [r.dataOffset]

theorem getInode_done (i : UInt32) (h : i.toNat ≤ 64) :
    getInode i d = .done (some (d.inode i.toNat)) d := by
  have room := r.room
  rw [getInode_cases r.tabled i h, if_pos (by omega)]

theorem setInode_done (i : UInt32) (x : Inode) (h : i.toNat ≤ 64) :
    setInode i x d = .done 0 (d.putInode i.toNat x) := by
  have room := r.room
  rw [setInode_cases r.tabled i x h, if_pos (by omega)]

end Rooted

section Formatted
variable {d : Device} (f : Formatted d)
include f

theorem real_toNat (n : UInt32) (h : n.toNat < d.dataCount) : (n + 5).toNat = n.toNat + 5 := by
  have bound := f.dataCount
  rw [UInt32.toNat_add]
  simp
  omega

theorem seekData_done (n : UInt32) (h : n.toNat < d.dataCount) : d.seek (n + 5) = some (n.toNat + 5) := by
  have bound := f.dataCount
  have room := f.room
  have real := real_toNat f n h
  rw [seek_inside d _ (by omega) (by omega), real]

theorem readData_done (n : UInt32) (h : n.toNat < d.dataCount) :
    readBlock (n + 5) d = .done (some (d.data n.toNat)) d := by
  simp only [readBlock, Prog.get, seekData_done f n h]
  rfl

theorem writeData_done (n : UInt32) (b : Block) (h : n.toNat < d.dataCount) :
    writeBlock (n + 5) b d = .done 0 (d.putData n.toNat b) := by
  simp only [writeBlock, seekData_done f n h]
  rfl

end Formatted

end Sos.Efs
