import Sos.Efs.Pointers

/-! Looking up the pointers of a new file. -/

namespace Sos.Efs
open Sos.Lib Sos.Lib.Bytes

/-- From the pointer `w` the disk block of `b` is found: they are the same, and block 0 of the
disk is not it. (A pointer that leads to block 0 is taken for an error.) -/
def Leads (w b : UInt32) : Prop := w = b ∧ b + 5 ≠ 0 ∨ w + 5 = 0 ∧ b + 6 = 0

/-- The reader gives back the disk blocks of what the writer was given. -/
def Inverts (e : Device) (i : UInt32) (bs : List UInt32) : Prop :=
  ∀ k b, bs[k]? = some b → getLogicalBlock (e.inode i.toNat) (UInt32.ofNat k) e = dataToReal b e

theorem logicalToReal_any {e : Device} (f : Formatted e) (w : UInt32) :
    logicalToReal w e = .done (if w + 5 = 0 then -1 else w + 5) e := by
  rw [logicalToReal, Prog.bind_done _ (getSuperblock_done f.rooted)]
  simp only
  rw [Prog.bind_done _ (dataToReal_done f.rooted w)]
  by_cases zero : w + 5 = 0
  · rw [if_pos zero, if_pos zero]
    rfl
  · rw [if_neg zero, if_neg zero, dataToReal_done f.rooted w]

theorem leads_iff (w b : UInt32) : (if w + 5 = 0 then -1 else w + 5) = b + 5 ↔ Leads w b := by
  have cancel : ∀ x y z : UInt32, x + z = y + z ↔ x = y := fun x y z => UInt32.add_left_inj z
  unfold Leads
  by_cases zero : w + 5 = 0
  · rw [if_pos zero]
    have last : (-1 : UInt32) = b + 5 ↔ b + 6 = 0 := by
      rw [← cancel (-1) (b + 5) 1, eq_comm, UInt32.add_assoc]
      rfl
    rw [last]
    constructor
    · intro same
      exact Or.inr ⟨zero, same⟩
    · rintro (⟨rfl, nonzero⟩ | ⟨-, same⟩)
      · exact absurd zero nonzero
      · exact same
  · rw [if_neg zero, cancel]
    constructor
    · rintro rfl
      exact Or.inl ⟨rfl, zero⟩
    · rintro (⟨same, -⟩ | ⟨zero', -⟩)
      · exact same
      · exact absurd zero' zero

namespace Recorded
variable {e : Device} {i k n : Nat} {bs : List UInt32} (recorded : Recorded e i n bs)
include recorded

theorem ptr_eq {b : UInt32} (at_ : bs[k]? = some b) : e.ptr i k = b := by
  have short := (List.getElem?_eq_some_iff.mp at_).1
  rw [← recorded.ptrs, List.getElem?_map, List.getElem?_range short, Option.map_some, Option.some.injEq] at at_
  exact at_

/-- A direct pointer. -/
theorem look_direct {b : UInt32} (at_ : bs[k]? = some b) (direct : k < 5) :
    getLogicalBlock (e.inode i) (UInt32.ofNat k) e = .done (if b + 5 = 0 then -1 else b + 5) e := by
  have number : (UInt32.ofNat k).toNat = k := by
    rw [UInt32.toNat_ofNat']
    omega
  have small : UInt32.ofNat k ≤ 4 := by
    rw [UInt32.le_iff_toNat_le, number]
    simp
    omega
  have pointer := recorded.ptr_eq at_
  rw [Device.ptr_direct _ _ _ direct] at pointer
  rw [getLogicalBlock, if_pos small, number, pointer]
  exact logicalToReal_any recorded.formatted b

/-- A pointer that is looked for in the wrong block. -/
theorem look_indirect (lower : 5 ≤ k) (upper : k ≤ 256) :
    getLogicalBlock (e.inode i) (UInt32.ofNat k) e =
      .done (if (e.block (e.inode i).indirectData.toNat).word (4 * (k - 5)) + 5 = 0 then -1
        else (e.block (e.inode i).indirectData.toNat).word (4 * (k - 5)) + 5) e := by
  have f := recorded.formatted
  have room := f.room
  have bound := f.dataCount
  have inside := recorded.inside
  have number : (UInt32.ofNat k).toNat = k := by
    rw [UInt32.toNat_ofNat']
    omega
  have big : ¬UInt32.ofNat k ≤ 4 := by
    rw [UInt32.le_iff_toNat_le, number]
    simp
    omega
  have fits : UInt32.ofNat k ≤ indirectPointers := by
    rw [UInt32.le_iff_toNat_le, number]
    exact upper
  have entry : (UInt32.ofNat k - 5).toNat = k - 5 := by
    rw [UInt32.toNat_sub_of_le _ _ (by rw [UInt32.le_iff_toNat_le, number]; exact lower), number]
    rfl
  have within : UInt32.ofNat k - 5 < indirectPointers := by
    rw [UInt32.lt_iff_toNat_lt, entry]
    change k - 5 < 256
    omega
  rw [getLogicalBlock, if_neg big, if_pos ⟨UInt32.not_le.mp big, fits⟩,
    Prog.bind_done _ (readBlock_inside e _ (by omega) (by omega))]
  simp only [pointerAt]
  rw [if_pos within, entry]
  exact logicalToReal_any f _

end Recorded

/-- When the library's reader inverts its writer. -/
theorem getLogicalBlock_inverts_iff {d e : Device} {i : UInt32} {bs : List UInt32} (f : Formatted d)
    (hi : i.toNat < 64) (empty : (d.inode i.toNat).size = 0) (none : (d.inode i.toNat).indirectData = 0)
    (few : bs.length ≤ 257) (run : addBlockPointers i bs d = .done 0 e) : Inverts e i bs ↔
    ∀ k b, bs[k]? = some b → (k < 5 → b + 5 ≠ 0) ∧
      (5 ≤ k → Leads ((e.block (e.inode i.toNat).indirectData.toNat).word (4 * (k - 5))) b) := by
  obtain ⟨n, recorded⟩ := addBlockPointers_recorded hi (recorded_nil f empty none)
    (by rw [List.length_nil]; omega) run
  rw [List.nil_append] at recorded
  have short : ∀ k b, bs[k]? = some b → k < 257 := by
    intro k b at_
    have inside := (List.getElem?_eq_some_iff.mp at_).1
    omega
  have real : ∀ b, dataToReal b e = .done (b + 5) e := dataToReal_done recorded.formatted.rooted
  unfold Inverts
  refine forall_congr' fun k => forall_congr' fun b => forall_congr' fun at_ => ?_
  rw [real b]
  by_cases direct : k < 5
  · rw [recorded.look_direct at_ direct, Outcome.done.injEq, leads_iff]
    constructor
    · rintro (⟨-, nonzero⟩ | ⟨zero, last⟩)
      · exact ⟨fun _ => nonzero, fun lower => absurd direct (by omega)⟩
      · have next : b + 6 = b + 5 + 1 := by
          rw [UInt32.add_assoc]
          rfl
        rw [zero, last] at next
        cases next
    · rintro ⟨nonzero, -⟩
      exact ⟨Or.inl ⟨rfl, nonzero direct⟩, rfl⟩
  · have upper := short k b at_
    rw [recorded.look_indirect (by omega) (by omega), Outcome.done.injEq, leads_iff]
    constructor
    · rintro ⟨leads, -⟩
      exact ⟨fun early => absurd early direct, fun _ => leads⟩
    · rintro ⟨-, leads⟩
      exact ⟨leads (by omega), rfl⟩

theorem getLogicalBlock_inverts_one : ∃ e, addBlockPointers 1 [7] (freshImage 1440 floppy) = .done 0 e ∧
    (Inverts e 1 [7] ↔ ∀ k b, [(7 : UInt32)][k]? = some b → (k < 5 → b + 5 ≠ 0) ∧
      (5 ≤ k → Leads ((e.block (e.inode 1).indirectData.toNat).word (4 * (k - 5))) b)) := by
  obtain ⟨empty, none⟩ := freshImage_new 1440 floppy (i := 1) ⟨by decide, by decide⟩
  have start := recorded_nil formatted_floppy empty none
  have run := addBlockPointer_direct formatted_floppy.rooted (i := 1) (by decide) (next_block start.size) 7 (by decide)
  exact ⟨_, run, getLogicalBlock_inverts_iff formatted_floppy (by decide) empty none (by decide) run⟩

/-- The sixth pointer is looked for in the inode table. -/
theorem getLogicalBlock_six : ∃ e, addBlockPointers 1 [8, 9, 10, 11, 12, 13] (freshImage 1440 floppy) =
    .done 0 e ∧ ¬Inverts e 1 [8, 9, 10, 11, 12, 13] := by
  obtain ⟨empty, none⟩ := freshImage_new 1440 floppy (i := 1) ⟨by decide, by decide⟩
  have start : Recorded (freshImage 1440 floppy) (1 : UInt32).toNat ([] : List UInt32).length [] :=
    recorded_nil formatted_floppy empty none
  obtain ⟨d, run, five, same⟩ := addBlockPointers_direct [8, 9, 10, 11, 12] (by decide) start
    (by decide) 13
  have count : d.dataCount = 1435 := by
    have super : d.sb = (freshImage 1440 floppy).sb := by
      unfold Device.sb
      rw [same.map]
    rw [Device.dataCount, super, sb_freshImage]
    rfl
  have bits : ∀ m, d.bit m = decide (m = 0) := by
    intro m
    rw [Device.bit, same.map]
    exact bit_freshImage 1440 floppy m
  have found : findFreeBlock d = .done 1 d :=
    findFreeBlock_least five.formatted.some_ five.formatted.dataCount 1 (by rw [count]; decide) (by rw [bits]; decide) (by
      intro m below
      rw [bits]
      simp at below
      simp [below])
  obtain ⟨e, added, six, taken, others⟩ := addBlockPointer_sixth (by decide) five rfl found (by decide)
    (by rw [count]; decide) (by rw [bits]; decide) 13
  refine ⟨e, run.trans added, ?_⟩
  intro inverts
  have wanted := inverts 5 13 rfl
  have word : (e.block 1).word 0 = 16 := by
    have root : e.inode 0 = rootInode := by
      rw [others 0 (by decide) (by decide), same.inodes 0 (by decide), inode_freshImage _ _ _ (by decide),
        if_pos rfl]
    exact (Buf.word_slice (m := 64) _ 0 0 (by omega)).symm.trans (congrArg Inode.size root)
  have look := six.look_indirect (k := 5) (by decide) (by decide)
  rw [taken, show (1 : UInt32).toNat = 1 by rfl, word] at look
  rw [dataToReal_done six.formatted.rooted] at wanted
  have same' := look.symm.trans wanted
  rw [Outcome.done.injEq] at same'
  exact absurd same'.1 (by decide)

end Sos.Efs
