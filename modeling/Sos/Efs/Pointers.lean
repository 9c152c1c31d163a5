import Sos.Efs.Integrity

/-! The block pointers of a new file, recorded one by one. -/

namespace Sos.Efs
open Sos.Lib Sos.Lib.Bytes

/-- What the caller of `add_block_pointer` does to the inode before the next call. -/
def advance (inodeNum : UInt32) : Prog Device Int := do
  match ← getInode inodeNum with
  | none => return -1
  | some inode => setInode inodeNum { inode with size := inode.size + 1024 }

/-- The blocks of a file, in order. -/
def addBlockPointers (inodeNum : UInt32) : List UInt32 → Prog Device Int
  | [] => return 0
  | [b] => addBlockPointer inodeNum b
  | b :: c :: bs => do
    if (← addBlockPointer inodeNum b) = -1 then return -1
    else if (← advance inodeNum) = -1 then return -1
    else addBlockPointers inodeNum (c :: bs)

/-- The pointers of a file are recorded, and its size says that there were `k` calls. -/
structure Recorded (d : Device) (i k : Nat) (bs : List UInt32) : Prop where
  formatted : Formatted d
  size : (d.inode i).size.toNat = 1024 * k
  ptrs : (List.range bs.length).map (d.ptr i) = bs
  indirect : bs.length ≤ 5 → (d.inode i).indirectData = 0
  inside : (d.inode i).indirectData.toNat < d.dataCount
  used : 5 < bs.length → (d.inode i).indirectData ≠ 0

theorem findFreeBlock_free {d : Device} (f : Formatted d) : ∃ b, findFreeBlock d = .done b d ∧
    (b = 0 ∨ b.toNat < d.dataCount ∧ d.bit b.toNat = false) := by
  by_cases root : d.bit 0 = true
  · rcases findFreeBlock_cases f root with ⟨-, run⟩ | ⟨b, run, -, inside, free⟩
    · exact ⟨0, run, Or.inl rfl⟩
    · exact ⟨b, run, Or.inr ⟨inside, free⟩⟩
  · refine ⟨0, findFreeBlock_least f.some_ f.dataCount 0 f.root (by simpa using root) ?_, Or.inl rfl⟩
    intro m below
    simp at below

/-- One more pointer. -/
theorem Recorded.snoc {d e : Device} {i k l : Nat} {bs : List UInt32} {b : UInt32} (recorded : Recorded d i k bs)
    (formatted : Formatted e) (size : (e.inode i).size.toNat = 1024 * l)
    (kept : ∀ s, s < bs.length → e.ptr i s = d.ptr i s) (last : e.ptr i bs.length = b)
    (indirect : bs.length < 5 → (e.inode i).indirectData = 0)
    (inside : (e.inode i).indirectData.toNat < e.dataCount)
    (used : 5 ≤ bs.length → (e.inode i).indirectData ≠ 0) : Recorded e i l (bs ++ [b]) where
  formatted := formatted
  size := size
  ptrs := by
    rw [List.length_append, List.length_singleton, List.range_succ, List.map_append, List.map_singleton, last]
    congr 1
    refine (List.map_congr_left fun s member => kept s (List.mem_range.mp member)).trans recorded.ptrs
  indirect := by
    intro few
    rw [List.length_append, List.length_singleton] at few
    exact indirect (by omega)
  inside := inside
  used := by
    intro many
    rw [List.length_append, List.length_singleton] at many
    exact used (by omega)

section
variable {d e : Device} {i : UInt32} {b : UInt32} {bs : List UInt32} (hi : i.toNat < 64)
  (recorded : Recorded d i.toNat bs.length bs)
include hi recorded

omit hi in
theorem Recorded.direct (few : bs.length < 5) :
    Recorded (d.putInode i.toNat ((d.inode i.toNat).setDirect bs.length b)) i.toNat bs.length (bs ++ [b]) := by
  have self : (d.putInode i.toNat ((d.inode i.toNat).setDirect bs.length b)).inode i.toNat =
      (d.inode i.toNat).setDirect bs.length b := by
    rw [Device.inode_putInode, if_pos rfl]
  refine recorded.snoc (recorded.formatted.putInode _ _) ?_ ?_ ?_ ?_ ?_ ?_
  · rw [self]
    exact recorded.size
  · intro s before
    rw [Device.ptr_direct _ _ _ (by omega), Device.ptr_direct _ _ _ (by omega), self,
      Inode.direct_setDirect _ _ _ _ few, if_neg (by omega)]
  · rw [Device.ptr_direct _ _ _ few, self, Inode.direct_setDirect _ _ _ _ few, if_pos rfl]
  · intro _
    rw [self]
    exact recorded.indirect (by omega)
  · rw [self, Device.dataCount, Device.sb_putInode]
    exact recorded.inside
  · omega

/-- An entry of the indirect block. -/
theorem Recorded.entry (many : 5 ≤ bs.length) (few : bs.length ≤ 256)
    (present : (d.inode i.toNat).indirectData ≠ 0) :
    Recorded (d.putData (d.inode i.toNat).indirectData.toNat
      ((d.data (d.inode i.toNat).indirectData.toNat).putWord (4 * (bs.length - 5)) b)) i.toNat bs.length
      (bs ++ [b]) := by
  have self := Device.inode_putData d (d.inode i.toNat).indirectData.toNat
    ((d.data (d.inode i.toNat).indirectData.toNat).putWord (4 * (bs.length - 5)) b) i.toNat hi
  refine recorded.snoc (recorded.formatted.putData _ _) ?_ ?_ ?_ ?_ ?_ ?_
  · rw [self]
    exact recorded.size
  · intro s before
    unfold Device.ptr
    rw [self, Device.data_putData, if_pos rfl]
    split
    · rfl
    · exact Buf.word_putWord_other _ _ _ _ (by omega)
  · rw [Device.ptr_indirect _ _ _ many, self, Device.data_putData, if_pos rfl,
      Buf.word_putWord _ _ _ (by omega)]
  · omega
  · rw [self, Device.dataCount, Device.sb_putData]
    exact recorded.inside
  · intro _
    rw [self]
    exact present

/-- The first entry, in an indirect block that was just taken. -/
theorem Recorded.first (five : bs.length = 5) {t : UInt32} (nonzero : t ≠ 0) (inside : t.toNat < d.dataCount) :
    Recorded ((((d.mark t).putInode i.toNat { d.inode i.toNat with indirectData := t }).putData t.toNat
      Buf.zero).putData t.toNat ((Buf.zero : Block).putWord (4 * (bs.length - 5)) b)) i.toNat bs.length
      (bs ++ [b]) := by
  have self : ((((d.mark t).putInode i.toNat { d.inode i.toNat with indirectData := t }).putData t.toNat
      Buf.zero).putData t.toNat ((Buf.zero : Block).putWord (4 * (bs.length - 5)) b)).inode i.toNat =
      { d.inode i.toNat with indirectData := t } := by
    rw [Device.inode_putData _ _ _ _ hi, Device.inode_putData _ _ _ _ hi, Device.inode_putInode, if_pos rfl]
  refine recorded.snoc ((((recorded.formatted.mark t).putInode _ _).putData _ _).putData _ _)
    ?_ ?_ ?_ ?_ ?_ ?_
  · rw [self]
    exact recorded.size
  · intro s before
    rw [Device.ptr_direct _ _ _ (by omega), Device.ptr_direct _ _ _ (by omega), self]
    rfl
  · rw [Device.ptr_indirect _ _ _ (by omega), self, Device.data_putData, if_pos rfl,
      Buf.word_putWord _ _ _ (by omega)]
  · omega
  · rw [self, Device.dataCount, Device.sb_putData, Device.sb_putData, Device.sb_putInode, Device.sb_mark]
    exact inside
  · intro _
    rw [self]
    exact nonzero

/-- What one call does to the file. -/
theorem Recorded.add (few : bs.length ≤ 256) {r : Int} (run : addBlockPointer i b d = .done r e)
    (success : r ≠ -1) : Recorded e i.toNat bs.length (bs ++ [b]) := by
  have f := recorded.formatted
  by_cases direct : bs.length < 5
  · rw [addBlockPointer_direct f.rooted hi.le (next_block recorded.size) b direct] at run
    cases run
    exact recorded.direct direct
  · have many : 5 ≤ bs.length := by omega
    have refused : ensureIndirect i (d.inode i.toNat) d ≠ .done none d := by
      intro failed
      rw [addBlockPointer_no_indirect f.rooted hi.le (next_block recorded.size) b many few failed] at run
      cases run
      exact success rfl
    by_cases present : (d.inode i.toNat).indirectData = 0
    · have five : bs.length = 5 := by
        by_contra more
        exact recorded.used (by omega) present
      obtain ⟨t, found, taken⟩ := findFreeBlock_free f
      by_cases zero : t = 0
      · subst zero
        exact absurd (ensureIndirect_full _ present found) refused
      · obtain ⟨inside, free⟩ := taken.resolve_left zero
        rw [addBlockPointer_indirect f.rooted hi.le (next_block recorded.size) b many few
          (((f.mark t).putInode _ _).putData _ _) (ensureIndirect_take f hi.le _ present found zero inside free)
          (by simpa [Device.dataCount] using inside), Device.data_putData, if_pos rfl] at run
        cases run
        exact recorded.first hi five zero inside
    · rw [addBlockPointer_indirect f.rooted hi.le (next_block recorded.size) b many few f (ensureIndirect_keep _ present)
        recorded.inside] at run
      cases run
      exact recorded.entry hi many few present

omit recorded in
/-- The size does not matter to the pointers. -/
theorem Recorded.resized {k l : Nat} (recorded : Recorded d i.toNat k bs) {v : UInt32}
    (value : v.toNat = 1024 * l) :
    Recorded (d.putInode i.toNat { d.inode i.toNat with size := v }) i.toNat l bs := by
  have self : (d.putInode i.toNat { d.inode i.toNat with size := v }).inode i.toNat =
      { d.inode i.toNat with size := v } := by
    rw [Device.inode_putInode, if_pos rfl]
  have ptr : ∀ s, (d.putInode i.toNat { d.inode i.toNat with size := v }).ptr i.toNat s = d.ptr i.toNat s := by
    intro s
    unfold Device.ptr
    rw [self, Device.data_putInode _ _ _ _ hi]
    rfl
  refine ⟨recorded.formatted.putInode _ _, ?_, ?_, ?_, ?_, ?_⟩
  · rw [self]
    exact value
  · rw [funext ptr]
    exact recorded.ptrs
  · rw [self]
    exact recorded.indirect
  · rw [self, Device.dataCount, Device.sb_putInode]
    exact recorded.inside
  · rw [self]
    exact recorded.used

end

theorem advance_done {d : Device} (f : Formatted d) {i : UInt32} (hi : i.toNat < 64) : advance i d =
    .done 0 (d.putInode i.toNat { d.inode i.toNat with size := (d.inode i.toNat).size + 1024 }) := by
  rw [advance, Prog.bind_done _ (getInode_done f.rooted i hi.le)]
  exact setInode_done f.rooted i _ hi.le

/-- What any number of calls does to the file. -/
theorem addBlockPointers_recorded {d e : Device} {i : UInt32} (hi : i.toNat < 64) {bs cs : List UInt32}
    (recorded : Recorded d i.toNat cs.length cs) (few : cs.length + bs.length ≤ 257)
    (run : addBlockPointers i bs d = .done 0 e) : ∃ k, Recorded e i.toNat k (cs ++ bs) := by
  induction bs generalizing d cs with
  | nil =>
    cases run
    rw [List.append_nil]
    exact ⟨_, recorded⟩
  | cons b bs ih =>
    rw [List.length_cons] at few
    cases bs with
    | nil => exact ⟨_, recorded.add hi (by omega) run (by decide)⟩
    | cons c bs =>
      rw [addBlockPointers] at run
      obtain ⟨r, d₁, added, run⟩ := Prog.of_bind_done run
      by_cases failed : r = -1
      · rw [if_pos failed] at run
        cases run
      · rw [if_neg failed] at run
        have one := recorded.add hi (by omega) added failed
        have sum : ((d₁.inode i.toNat).size + 1024).toNat = 1024 * (cs.length + 1) := by
          rw [UInt32.toNat_add, one.size]
          simp
          omega
        have moved := one.resized hi sum
        rw [Prog.bind_done _ (advance_done one.formatted hi), if_neg (by decide)] at run
        have length : cs.length + 1 = (cs ++ [b]).length := by simp
        rw [length] at moved
        obtain ⟨k, all⟩ := ih moved (by rw [← length]; omega) run
        rw [List.append_assoc, List.singleton_append] at all
        exact ⟨k, all⟩

/-- A new file: nothing is recorded yet. -/
theorem recorded_nil {d : Device} (f : Formatted d) {i : Nat} (empty : (d.inode i).size = 0)
    (none : (d.inode i).indirectData = 0) : Recorded d i 0 [] where
  formatted := f
  size := by rw [empty]; rfl
  ptrs := rfl
  indirect := fun _ => none
  inside := by
    rw [none]
    exact f.root
  used := by
    intro many
    cases many

/-- The superblock, the bitmap and the other inodes are as they were. -/
structure Untouching (d e : Device) (i : Nat) : Prop where
  map : e.block 0 = d.block 0
  inodes : ∀ j, j ≠ i → e.inode j = d.inode j

theorem Untouching.putInode {d e : Device} {i : Nat} (same : Untouching d e i) (x : Inode) :
    Untouching d (e.putInode i x) i where
  map := same.map
  inodes := by
    intro j differ
    rw [Device.inode_putInode, if_neg differ, same.inodes j differ]

theorem Untouching.trans {d e g : Device} {i : Nat} (first : Untouching d e i) (second : Untouching e g i) :
    Untouching d g i where
  map := second.map.trans first.map
  inodes := fun j differ => (second.inodes j differ).trans (first.inodes j differ)

/-- The direct pointers, before one more is recorded. -/
theorem addBlockPointers_direct {d : Device} {i : UInt32} (bs : List UInt32) (hi : i.toNat < 64) {cs : List UInt32}
    (recorded : Recorded d i.toNat cs.length cs) (few : cs.length + bs.length ≤ 5) (last : UInt32) :
    ∃ e, addBlockPointers i (bs ++ [last]) d = addBlockPointer i last e ∧
      Recorded e i.toNat (cs ++ bs).length (cs ++ bs) ∧ Untouching d e i.toNat := by
  induction bs generalizing d cs with
  | nil =>
    rw [List.append_nil]
    exact ⟨d, rfl, recorded, rfl, fun _ _ => rfl⟩
  | cons b bs ih =>
    rw [List.length_cons] at few
    obtain ⟨c, rest, more⟩ : ∃ c rest, bs ++ [last] = c :: rest := by
      cases bs with
      | nil => exact ⟨last, [], rfl⟩
      | cons c bs => exact ⟨c, bs ++ [last], rfl⟩
    have one := recorded.direct (b := b) (by omega)
    have sum : (((d.putInode i.toNat ((d.inode i.toNat).setDirect cs.length b)).inode i.toNat).size +
        1024).toNat = 1024 * (cs.length + 1) := by
      rw [UInt32.toNat_add, one.size]
      simp
      omega
    have moved := one.resized hi sum
    have length : cs.length + 1 = (cs ++ [b]).length := by simp
    rw [length] at moved
    obtain ⟨e, run, recorded', same⟩ := ih moved (by rw [← length]; omega)
    have start : Untouching d d i.toNat := ⟨rfl, fun _ _ => rfl⟩
    rw [List.append_assoc, List.singleton_append] at recorded'
    refine ⟨e, ?_, recorded', ((start.putInode _).putInode _).trans same⟩
    rw [List.cons_append, more, addBlockPointers,
      Prog.bind_done _ (addBlockPointer_direct recorded.formatted.rooted hi.le (next_block recorded.size) b (by omega)),
      if_neg (by decide), Prog.bind_done _ (advance_done one.formatted hi), if_neg (by decide), ← more, run]

/-- The sixth pointer takes the first free block. -/
theorem addBlockPointer_sixth {d : Device} {i t : UInt32} {bs : List UInt32} (hi : i.toNat < 64)
    (recorded : Recorded d i.toNat bs.length bs) (five : bs.length = 5) (found : findFreeBlock d = .done t d)
    (nonzero : t ≠ 0) (inside : t.toNat < d.dataCount) (free : d.bit t.toNat = false) (b : UInt32) : ∃ e,
      addBlockPointer i b d = .done 0 e ∧ Recorded e i.toNat bs.length (bs ++ [b]) ∧
      (e.inode i.toNat).indirectData = t ∧ ∀ j, j < 64 → j ≠ i.toNat → e.inode j = d.inode j := by
  have f := recorded.formatted
  have absent := recorded.indirect (by omega)
  have added := addBlockPointer_indirect f.rooted hi.le (next_block recorded.size) b (by omega) (by omega)
    (((f.mark t).putInode _ _).putData _ _) (ensureIndirect_take f hi.le _ absent found nonzero inside free)
    (by simpa [Device.dataCount] using inside)
  refine ⟨_, added, recorded.add hi (by omega) added (by decide), ?_, ?_⟩
  · rw [Device.inode_putData _ _ _ _ hi, Device.inode_putData _ _ _ _ hi, Device.inode_putInode, if_pos rfl]
  · intro j small differ
    rw [Device.inode_putData _ _ _ _ small, Device.inode_putData _ _ _ _ small, Device.inode_putInode,
      if_neg differ, Device.inode_mark]

end Sos.Efs
