import Sos.Efs.Pointers

/-! `add_block_pointer` on any image: what it reports is what it did, up to the last pointer
of the indirect block. -/

namespace Sos.Efs
open Sos.Lib Sos.Lib.Bytes

theorem seek_congr {d d' : Device} (same : d'.count = d.count) (n : UInt32) : d'.seek n = d.seek n := by
  rw [Device.seek, Device.seek, same]

namespace Device

/-- Where the indirect block of an inode is, if it has one that can be read. -/
def indirectBlock (d : Device) (i : Nat) : Option Nat :=
  if (d.inode i).indirectData = 0 then none else d.seek ((d.inode i).indirectData + 5)

/-- Pointer `s` of inode `i` as it stands on the device; there is a place for 257 of them. -/
def kept (d : Device) (i s : Nat) : Option UInt32 :=
  if s < 5 then some ((d.inode i).direct s)
  else if s ≤ 256 then (d.indirectBlock i).map fun n => (d.block n).word (4 * (s - 5))
  else none

/-- The logical index at the end of the file. -/
def nextIndex (d : Device) (i : Nat) : Nat := (d.inode i).size.toNat / 1024

/-- The indirect block of inode `i` is behind the inode table, and the inode is not in it. -/
def Apart (d : Device) (i : Nat) : Prop := ∀ n, d.indirectBlock i = some n → 5 ≤ n ∧ n ≠ i / 16 + 1

/-- A data block but the first holds no inode, not even number 64. -/
theorem inode_putData_later (d : Device) {n : Nat} (x : Block) {j : Nat} (small : j ≤ 64) (later : n ≠ 0) :
    (d.putData n x).inode j = d.inode j := by
  rw [inode, putData, block_put, if_neg (by omega)]
  rfl

end Device

/-- An image as `mkefs` makes them, without indirect pointers that lead into the superblock
or the inode table. -/
structure Image (d : Device) : Prop where
  formatted : Formatted d
  indirect : ∀ i n, i < 64 → d.indirectBlock i = some n → 5 ≤ n

theorem Image.apart {d : Device} (image : Image d) {i : Nat} (hi : i < 64) : d.Apart i := by
  intro n found
  have behind := image.indirect i n hi found
  omega

/-- Pointer `b` stands at the end of file `i`. Nothing else changed but a block taken for it. -/
structure PointerAdded (d d' : Device) (i : Nat) (b : UInt32) : Prop where
  recorded : d'.kept i (d.nextIndex i) = some b
  pointers : ∀ s p, s ≠ d.nextIndex i → d.kept i s = some p → d'.kept i s = some p
  doubleIndirect : (d'.inode i).doubleIndirectData = (d.inode i).doubleIndirectData
  others : ∀ j, j < 64 → j ≠ i → d'.inode j = d.inode j
  blocks : ∀ n, d'.block n ≠ d.block n → n = i / 16 + 1 ∨ d'.indirectBlock i = some n ∨
    n = 0 ∧ (d.inode i).indirectData = 0 ∧ (d'.inode i).indirectData ≠ 0

/-- There is no such inode, or no indirect block for the pointer. -/
def NoPlace (d : Device) (i : UInt32) : Prop :=
  64 < i.toNat ∨ 5 ≤ d.nextIndex i.toNat ∧ d.indirectBlock i.toNat = none ∧
    ((d.inode i.toNat).indirectData = 0 → findFreeBlock d = .done 0 d)

/-- In block 0 nothing changed but the bit of a new indirect block, which was free. -/
structure IndirectTaken (d d' : Device) (i : Nat) : Prop where
  count : d'.count = d.count
  front : ∀ k, k < sectMap → (d'.block 0).byte k = (d.block 0).byte k
  bits : ∀ m, d'.bit m = true ↔ d.bit m = true ∨ (d.inode i).indirectData = 0 ∧
    (d'.inode i).indirectData ≠ 0 ∧ m = (d'.inode i).indirectData.toNat
  taken : (d.inode i).indirectData = 0 → (d'.inode i).indirectData ≠ 0 →
    (d'.inode i).indirectData.toNat < d.dataCount ∧ d.bit (d'.inode i).indirectData.toNat = false

theorem IndirectTaken.of_same {d d' : Device} {i : Nat} (count : d'.count = d.count)
    (zero : d'.block 0 = d.block 0) (same : (d'.inode i).indirectData = (d.inode i).indirectData) :
    IndirectTaken d d' i where
  count := count
  front := fun k _ => by rw [zero]
  bits := by
    intro m
    rw [Device.bit, zero, same]
    exact ⟨Or.inl, Or.rec id fun new => absurd new.1 new.2.1⟩
  taken := by
    intro absent present
    rw [same] at present
    exact absurd absent present

theorem IndirectTaken.sb {d d' : Device} {i : Nat} (taken : IndirectTaken d d' i) : d'.sb = d.sb := by
  unfold Device.sb
  congr 1
  apply Buf.slice_congr
  intro k inside
  exact taken.front _ (by unfold sectMap; omega)

/-- The call adds the pointer and returns 0, or it returns -1 for want of a place. -/
def Honest (i b : UInt32) (d : Device) : Prop := ∃ r d', addBlockPointer i b d = .done r d' ∧
  (r = 0 ∧ PointerAdded d d' i.toNat b ∨ r = -1 ∧ d' = d ∧ NoPlace d i)

section
variable {d : Device} {i b : UInt32}

theorem addBlockPointer_refused (r : Rooted d) (big : 64 < i.toNat) :
    addBlockPointer i b d = .done (-1) d := by
  rw [addBlockPointer, Prog.bind_done _ (getInode_refused r.tabled i big)]
  rfl

/-- Past the indirect block nothing happens. -/
theorem addBlockPointer_past (r : Rooted d) (hi : i.toNat ≤ 64) (past : 256 < d.nextIndex i.toNat) :
    addBlockPointer i b d = .done 0 d := by
  have next : ((d.inode i.toNat).size / 1024).toNat = d.nextIndex i.toNat := UInt32.toNat_div _ _
  have direct : ¬(d.inode i.toNat).size / 1024 ≤ 4 := by
    rw [block_le_four next]
    omega
  have indirect : ¬(d.inode i.toNat).size / 1024 ≤ indirectPointers := by
    rw [UInt32.le_iff_toNat_le, next]
    exact not_le.mpr past
  rw [addBlockPointer, Prog.bind_done _ (getInode_done r i hi)]
  simp only
  rw [if_neg direct, if_neg fun both => indirect both.2]
  rfl

theorem pointerAdded_direct (apart : d.Apart i.toNat) (few : d.nextIndex i.toNat < 5) : PointerAdded d
    (d.putInode i.toNat ((d.inode i.toNat).setDirect (d.nextIndex i.toNat) b)) i.toNat b := by
  have self : (d.putInode i.toNat ((d.inode i.toNat).setDirect (d.nextIndex i.toNat) b)).inode i.toNat =
      (d.inode i.toNat).setDirect (d.nextIndex i.toNat) b := by
    rw [Device.inode_putInode, if_pos rfl]
  have place : (d.putInode i.toNat ((d.inode i.toNat).setDirect (d.nextIndex i.toNat) b)).indirectBlock
      i.toNat = d.indirectBlock i.toNat := by
    unfold Device.indirectBlock
    rw [self, seek_congr (Device.count_putInode _ _ _)]
    rfl
  refine { recorded := ?_, pointers := ?_, doubleIndirect := ?_, others := ?_, blocks := ?_ }
  · rw [Device.kept, if_pos few, self, Inode.direct_setDirect _ _ _ _ few, if_pos rfl]
  · intro s p other before
    unfold Device.kept at before ⊢
    by_cases direct : s < 5
    · rw [if_pos direct] at before ⊢
      rw [self, Inode.direct_setDirect _ _ _ _ few, if_neg other, before]
    · rw [if_neg direct] at before ⊢
      rw [place]
      cases found : d.indirectBlock i.toNat with
      | none =>
        rw [found, Option.map_none] at before
        rw [Option.map_none]
        exact before
      | some n =>
        have same : (d.putInode i.toNat ((d.inode i.toNat).setDirect (d.nextIndex i.toNat) b)).block n =
            d.block n := by
          rw [Device.putInode, Device.block_put, if_neg (apart n found).2]
        rw [found, Option.map_some] at before
        rw [Option.map_some, same]
        exact before
  · rw [self]
    rfl
  · intro j _ other
    rw [Device.inode_putInode, if_neg other]
  · intro n changed
    left
    by_contra differ
    exact changed (by rw [Device.putInode, Device.block_put, if_neg differ])

/-- A pointer written into the indirect block there is. -/
theorem pointerAdded_entry (apart : d.Apart i.toNat) (many : 5 ≤ d.nextIndex i.toNat)
    (few : d.nextIndex i.toNat ≤ 256) {n : Nat} (found : d.indirectBlock i.toNat = some n) : PointerAdded d
    (d.put n ((d.block n).putWord (4 * (d.nextIndex i.toNat - 5)) b)) i.toNat b := by
  obtain ⟨behind, elsewhere⟩ := apart n found
  have inode : ∀ j, j / 16 + 1 ≠ n →
      (d.put n ((d.block n).putWord (4 * (d.nextIndex i.toNat - 5)) b)).inode j = d.inode j := by
    intro j differ
    rw [Device.inode, Device.block_put, if_neg differ]
    rfl
  have place : (d.put n ((d.block n).putWord (4 * (d.nextIndex i.toNat - 5)) b)).indirectBlock i.toNat =
      some n := by
    rw [← found, Device.indirectBlock, inode _ elsewhere.symm]
    rfl
  refine { recorded := ?_, pointers := ?_, doubleIndirect := ?_, others := fun j bound _ => inode j (by omega),
           blocks := ?_ }
  · rw [Device.kept, if_neg (by omega), if_pos few, place, Option.map_some, Device.block_put, if_pos rfl,
      Buf.word_putWord _ _ _ (by omega)]
  · intro s p other before
    unfold Device.kept at before ⊢
    rw [place, inode _ elsewhere.symm]
    rw [found] at before
    by_cases direct : s < 5
    · rw [if_pos direct] at before ⊢
      exact before
    · rw [if_neg direct] at before ⊢
      by_cases inside : s ≤ 256
      · rw [if_pos inside, Option.map_some] at before ⊢
        rw [← before, Device.block_put, if_pos rfl, Buf.word_putWord_other _ _ _ _ (by omega)]
      · rw [if_neg inside] at before ⊢
        exact before
  · rw [inode _ elsewhere.symm]
  · intro m changed
    right
    left
    rw [place]
    by_contra differ
    exact changed (by rw [Device.block_put, if_neg fun same => differ (by rw [same])])

/-- The first pointer of an indirect block that was just taken. -/
theorem pointerAdded_first (f : Formatted d) (hi : i.toNat ≤ 64) (many : 5 ≤ d.nextIndex i.toNat)
    (few : d.nextIndex i.toNat ≤ 256) (absent : (d.inode i.toNat).indirectData = 0) {t : UInt32} (nonzero : t ≠ 0)
    (inside : t.toNat < d.dataCount) : PointerAdded d
    ((((d.mark t).putInode i.toNat { d.inode i.toNat with indirectData := t }).putData t.toNat
      Buf.zero).putData t.toNat ((Buf.zero : Block).putWord (4 * (d.nextIndex i.toNat - 5)) b))
    i.toNat b := by
  have later : t.toNat ≠ 0 := fun zero => nonzero (UInt32.toNat_inj.mp zero)
  have self : ((((d.mark t).putInode i.toNat { d.inode i.toNat with indirectData := t }).putData t.toNat
      Buf.zero).putData t.toNat ((Buf.zero : Block).putWord (4 * (d.nextIndex i.toNat - 5)) b)).inode
        i.toNat = { d.inode i.toNat with indirectData := t } := by
    rw [Device.inode_putData_later _ _ hi later, Device.inode_putData_later _ _ hi later,
      Device.inode_putInode, if_pos rfl]
  have place : ((((d.mark t).putInode i.toNat { d.inode i.toNat with indirectData := t }).putData t.toNat
      Buf.zero).putData t.toNat ((Buf.zero : Block).putWord (4 * (d.nextIndex i.toNat - 5)) b)).indirectBlock
        i.toNat = some (t.toNat + 5) := by
    rw [Device.indirectBlock, self, if_neg nonzero, ← seekData_done f t inside]
    exact seek_congr rfl _
  refine { recorded := ?_, pointers := ?_, doubleIndirect := ?_, others := ?_, blocks := ?_ }
  · rw [Device.kept, if_neg (by omega), if_pos few, place, Option.map_some, Device.putData,
      Device.block_put, if_pos rfl, Buf.word_putWord _ _ _ (by omega)]
  · intro s p other before
    have none : d.indirectBlock i.toNat = none := if_pos absent
    unfold Device.kept at before ⊢
    rw [none] at before
    by_cases direct : s < 5
    · rw [if_pos direct] at before ⊢
      rw [self, ← before]
      rfl
    · rw [if_neg direct, Option.map_none, ite_self] at before
      cases before
  · rw [self]
  · intro j bound other
    rw [Device.inode_putData _ _ _ _ bound, Device.inode_putData _ _ _ _ bound, Device.inode_putInode,
      if_neg other, Device.inode_mark]
  · intro n changed
    rw [place, self]
    by_contra differ
    have table : n ≠ i.toNat / 16 + 1 := fun same => differ (Or.inl same)
    have taken : n ≠ t.toNat + 5 := fun same => differ (Or.inr (Or.inl (by rw [same])))
    have bitmap : n ≠ 0 := fun zero => differ (Or.inr (Or.inr ⟨zero, absent, nonzero⟩))
    apply changed
    simp only [Device.putData, Device.putInode, Device.mark, Device.block_put]
    rw [if_neg taken, if_neg taken, if_neg table, if_neg bitmap]

theorem indirectTaken_first (f : Formatted d) (hi : i.toNat ≤ 64) (absent : (d.inode i.toNat).indirectData = 0)
    {t : UInt32} (nonzero : t ≠ 0) (inside : t.toNat < d.dataCount) (free : d.bit t.toNat = false) (x : Block) :
    IndirectTaken d ((((d.mark t).putInode i.toNat { d.inode i.toNat with indirectData := t }).putData t.toNat
      Buf.zero).putData t.toNat x) i.toNat := by
  have later : t.toNat ≠ 0 := fun zero => nonzero (UInt32.toNat_inj.mp zero)
  have bound := f.dataCount
  have self : ((((d.mark t).putInode i.toNat { d.inode i.toNat with indirectData := t }).putData t.toNat
      Buf.zero).putData t.toNat x).inode i.toNat = { d.inode i.toNat with indirectData := t } := by
    rw [Device.inode_putData_later _ _ hi later, Device.inode_putData_later _ _ hi later,
      Device.inode_putInode, if_pos rfl]
  refine { count := rfl, front := ?_, bits := ?_, taken := ?_ }
  · intro k front
    simp only [Device.putData, Device.putInode, Device.mark, Device.block_put, ↓reduceIte]
    rw [if_neg (by omega), if_neg (by omega), if_neg (by omega), Buf.byte_blit_outside _ _ _ _ (by omega)]
  · intro m
    rw [self, Device.bit_putData, Device.bit_putData, Device.bit_putInode, Device.bit_mark _ _ _ (by omega),
      Bool.or_eq_true, decide_eq_true_eq]
    constructor
    · rintro (same | before)
      · exact Or.inr ⟨absent, nonzero, same⟩
      · exact Or.inl before
    · rintro (before | ⟨-, -, same⟩)
      · exact Or.inr before
      · exact Or.inl same
  · intro _ _
    rw [self]
    exact ⟨inside, free⟩

theorem addBlockPointer_noPlace (r : Rooted d) (few : i.toNat ≤ 64 → d.nextIndex i.toNat ≤ 256)
    (none : NoPlace d i) : addBlockPointer i b d = .done (-1) d := by
  by_cases hi : i.toNat ≤ 64
  · obtain ⟨many, missing, full⟩ := none.resolve_left (not_lt.mpr hi)
    have next : ((d.inode i.toNat).size / 1024).toNat = d.nextIndex i.toNat := UInt32.toNat_div _ _
    by_cases absent : (d.inode i.toNat).indirectData = 0
    · exact addBlockPointer_no_indirect r hi next b many (few hi) (ensureIndirect_full _ absent (full absent))
    · have place : d.indirectBlock i.toNat = d.seek ((d.inode i.toNat).indirectData + 5) := if_neg absent
      rw [addBlockPointer_ensured r hi next b many (few hi) r (ensureIndirect_keep _ absent), ← place, missing]
  · exact addBlockPointer_refused r (not_le.mp hi)

/-- Where there is a place the pointer is added. -/
theorem addBlockPointer_added (f : Formatted d) (hi : i.toNat ≤ 64) (apart : d.Apart i.toNat)
    (few : d.nextIndex i.toNat ≤ 256) (place : ¬NoPlace d i) : ∃ d', addBlockPointer i b d = .done 0 d' ∧
      PointerAdded d d' i.toNat b ∧ IndirectTaken d d' i.toNat := by
  have r := f.rooted
  have next : ((d.inode i.toNat).size / 1024).toNat = d.nextIndex i.toNat := UInt32.toNat_div _ _
  by_cases direct : d.nextIndex i.toNat < 5
  · refine ⟨_, addBlockPointer_direct r hi next b direct, pointerAdded_direct apart direct,
      .of_same rfl ?_ ?_⟩
    · rw [Device.putInode, Device.block_put, if_neg (by omega)]
    · rw [Device.inode_putInode, if_pos rfl]
      rfl
  have many : 5 ≤ d.nextIndex i.toNat := not_lt.mp direct
  by_cases absent : (d.inode i.toNat).indirectData = 0
  · have none : d.indirectBlock i.toNat = none := if_pos absent
    obtain ⟨t, found, taken⟩ := findFreeBlock_free f
    have nonzero : t ≠ 0 := by
      rintro rfl
      exact place (Or.inr ⟨many, none, fun _ => found⟩)
    obtain ⟨inside, free⟩ := taken.resolve_left nonzero
    have formatted := ((f.mark t).putInode i.toNat
      { d.inode i.toNat with indirectData := t }).putData t.toNat Buf.zero
    have ensured := ensureIndirect_take f hi _ absent found nonzero inside free
    have added := addBlockPointer_indirect r hi next b many few formatted ensured
      (by simpa [Device.dataCount] using inside)
    rw [Device.data_putData, if_pos rfl] at added
    exact ⟨_, added, pointerAdded_first f hi many few absent nonzero inside,
      indirectTaken_first f hi absent nonzero inside free _⟩
  · have seek : d.indirectBlock i.toNat = d.seek ((d.inode i.toNat).indirectData + 5) := if_neg absent
    have added := addBlockPointer_ensured r hi next b many few r (ensureIndirect_keep _ absent)
    rw [← seek] at added
    cases found : d.indirectBlock i.toNat with
    | none => exact absurd (Or.inr ⟨many, found, fun zero => absurd zero absent⟩) place
    | some n =>
      rw [found] at added
      obtain ⟨behind, elsewhere⟩ := apart n found
      refine ⟨_, added, pointerAdded_entry apart many few found, .of_same rfl ?_ ?_⟩
      · rw [Device.block_put, if_neg (by omega)]
      · rw [Device.inode, Device.block_put, if_neg elsewhere.symm]
        rfl

end

theorem image_of_direct {d : Device} (f : Formatted d)
    (none : ∀ i, i < 64 → (d.inode i).indirectData = 0) : Image d where
  formatted := f
  indirect := by
    intro i n bound found
    rw [Device.indirectBlock, if_pos (none i bound)] at found
    cases found

theorem direct_freshImage (i : Nat) (bound : i < 64) :
    ((freshImage 1440 floppy).inode i).indirectData = 0 := by
  rw [inode_freshImage _ _ _ bound]
  split <;> rfl

/-- What `add_block_pointer` returns is true exactly while the next index is at most 256. The
check of the number lets 64 pass, which is read from the first data block. -/
theorem addBlockPointer_honest_iff {d : Device} (image : Image d) {i : UInt32}
    (past : i.toNat = 64 → d.Apart i.toNat) (b : UInt32) :
    Honest i b d ↔ (i.toNat ≤ 64 → d.nextIndex i.toNat ≤ 256) := by
  have f := image.formatted
  constructor
  · rintro ⟨result, d', run, outcome⟩ hi
    by_contra far
    have far' : 256 < d.nextIndex i.toNat := not_le.mp far
    rw [addBlockPointer_past f.rooted hi far', Outcome.done.injEq] at run
    obtain ⟨rfl, rfl⟩ := run
    rcases outcome with ⟨-, added⟩ | ⟨failed, -⟩
    · have recorded := added.recorded
      rw [Device.kept, if_neg (by omega), if_neg far] at recorded
      cases recorded
    · cases failed
  · intro few
    by_cases none : NoPlace d i
    · exact ⟨-1, d, addBlockPointer_noPlace f.rooted few none, Or.inr ⟨rfl, rfl, none⟩⟩
    · have hi : i.toNat ≤ 64 := not_lt.mp fun big => none (Or.inl big)
      have apart : d.Apart i.toNat := by
        by_cases table : i.toNat < 64
        · exact image.apart table
        · exact past (by omega)
      obtain ⟨d', run, added, -⟩ := addBlockPointer_added f hi apart (few hi) none
      exact ⟨0, d', run, Or.inl ⟨rfl, added⟩⟩

theorem addBlockPointer_honest_iff_fresh : Honest 1 7 (freshImage 1440 floppy) ↔
    ((1 : UInt32).toNat ≤ 64 → (freshImage 1440 floppy).nextIndex (1 : UInt32).toNat ≤ 256) :=
  addBlockPointer_honest_iff (image_of_direct formatted_floppy direct_freshImage)
    (fun last => absurd last (by decide)) 7

/-- An empty floppy, but for a file of 257 blocks. -/
def full257 : Device := (freshImage 1440 floppy).putInode 1 { Inode.zero with size := 257 * 1024 }

/-- The 258th block is reported added, and the image is what it was. -/
theorem addBlockPointer_258 : Image full257 ∧ addBlockPointer 1 7 full257 = .done 0 full257 ∧
    ¬Honest 1 7 full257 := by
  have r : Rooted full257 := formatted_floppy.rooted.putInode 1 _
  have self : full257.inode 1 = { Inode.zero with size := 257 * 1024 } := by
    rw [full257, Device.inode_putInode, if_pos rfl]
  have past : 256 < full257.nextIndex (1 : UInt32).toNat := by
    change 256 < full257.nextIndex 1
    rw [Device.nextIndex, self]
    decide
  have run : addBlockPointer 1 7 full257 = .done 0 full257 := addBlockPointer_past r (by decide) past
  refine ⟨image_of_direct (formatted_floppy.putInode 1 _) ?_, run, ?_⟩
  · intro i bound
    rw [full257, Device.inode_putInode]
    split
    · rfl
    · exact direct_freshImage i bound
  rintro ⟨result, d', run', outcome⟩
  rw [run, Outcome.done.injEq] at run'
  obtain ⟨rfl, rfl⟩ := run'
  rcases outcome with ⟨-, added⟩ | ⟨failed, -⟩
  · have recorded := added.recorded
    rw [Device.kept, if_neg (by omega), if_neg (by omega)] at recorded
    cases recorded
  · cases failed

end Sos.Efs
