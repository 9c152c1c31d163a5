import Sos.Efs.Inode

/-! Where the pointer to a logical block is: five slots of the inode, a block of pointers, and a
block of pointers to such blocks, in this order. -/

namespace Sos.Efs
open Sos.Lib Sos.Lib.Bytes

inductive Location where
  | direct (slot : UInt32)
  | indirect (entry : UInt32)
  /-- The entry of the double indirect block, and the entry of the block it names. -/
  | double (outer inner : UInt32)
deriving DecidableEq

namespace Location

def InBounds : Location → Prop
  | direct slot => slot.toNat < 5
  | indirect entry => entry.toNat < 256
  | double outer inner => outer.toNat < 256 ∧ inner.toNat < 256

/-- The logical block that belongs there. -/
def position : Location → ℕ
  | direct slot => slot.toNat
  | indirect entry => 5 + entry.toNat
  | double outer inner => 5 + 256 + (256 * outer.toNat + inner.toNat)

/-- The pointer is fetched and its data block looked up. -/
def follow (inode : Inode) : Location → Prog Device UInt32
  | direct slot => logicalToReal (inode.direct slot.toNat)
  | indirect entry => do
    match ← readBlock inode.indirectData with
    | none => return 0
    | some blk => logicalToReal (← pointerAt blk entry)
  | double outer inner => do
    match ← readBlock inode.doubleIndirectData with
    | none => return 0
    | some blk =>
      match ← readBlock (← pointerAt blk outer) with
      | none => return 0
      | some blk => logicalToReal (← pointerAt blk inner)

end Location

/-- How many blocks the pointers of an inode are for. -/
def addressable : ℕ := 5 + 256 + 256 * 256

/-- Two pointers are for different blocks. -/
theorem position_inj {a b : Location} (inside : a.InBounds) (inside' : b.InBounds)
    (same : a.position = b.position) : a = b := by
  cases a with
  | direct slot =>
    cases b with
    | direct slot' => rw [UInt32.toNat_inj.mp same]
    | indirect entry => simp only [Location.InBounds, Location.position] at *; omega
    | double outer inner => simp only [Location.InBounds, Location.position] at *; omega
  | indirect entry =>
    cases b with
    | direct slot => simp only [Location.InBounds, Location.position] at *; omega
    | indirect entry' => rw [UInt32.toNat_inj.mp (Nat.add_left_cancel same)]
    | double outer inner => simp only [Location.InBounds, Location.position] at *; omega
  | double outer inner =>
    cases b with
    | direct slot => simp only [Location.InBounds, Location.position] at *; omega
    | indirect entry => simp only [Location.InBounds, Location.position] at *; omega
    | double outer' inner' =>
      simp only [Location.InBounds, Location.position] at *
      have outers : outer = outer' := UInt32.toNat_inj.mp (by omega)
      have inners : inner = inner' := UInt32.toNat_inj.mp (by omega)
      rw [outers, inners]

/-- The blocks that there is a pointer for are those below `addressable`, with none left out. -/
theorem addressable_iff (n : ℕ) : n < addressable ↔ ∃! l : Location, l.InBounds ∧ l.position = n := by
  unfold addressable
  constructor
  · intro below
    have some_location : ∃ l : Location, l.InBounds ∧ l.position = n := by
      have number (k : ℕ) (small : k < 2 ^ 32) : (UInt32.ofNat k).toNat = k := UInt32.toNat_ofNat_of_lt' small
      by_cases first : n < 5
      · refine ⟨.direct (UInt32.ofNat n), ?_⟩
        simp only [Location.InBounds, Location.position]
        rw [number n (by omega)]
        omega
      · by_cases second : n < 261
        · refine ⟨.indirect (UInt32.ofNat (n - 5)), ?_⟩
          simp only [Location.InBounds, Location.position]
          rw [number (n - 5) (by omega)]
          omega
        · refine ⟨.double (UInt32.ofNat ((n - 261) / 256)) (UInt32.ofNat ((n - 261) % 256)), ?_⟩
          simp only [Location.InBounds, Location.position]
          rw [number ((n - 261) / 256) (by omega), number ((n - 261) % 256) (by omega)]
          omega
    obtain ⟨l, inside, here⟩ := some_location
    refine ⟨l, ⟨inside, here⟩, ?_⟩
    rintro l' ⟨inside', here'⟩
    exact position_inj inside' inside (here'.trans here.symm)
  · rintro ⟨l, ⟨inside, here⟩, -⟩
    cases l with
    | direct slot => simp only [Location.InBounds, Location.position] at *; omega
    | indirect entry => simp only [Location.InBounds, Location.position] at *; omega
    | double outer inner => simp only [Location.InBounds, Location.position] at *; omega

/-- The pointer that `get_logical_block` fetches. -/
def location (lblock : UInt32) : Location :=
  if lblock ≤ 4 then .direct lblock
  else if lblock ≤ indirectPointers then .indirect (lblock - 5)
  else .double ((lblock - indirectPointers) / indirectPointers) (lblock - 5)

theorem getLogicalBlock_follow (inode : Inode) (lblock : UInt32) :
    getLogicalBlock inode lblock = (location lblock).follow inode := by
  unfold getLogicalBlock location
  by_cases direct : lblock ≤ 4
  · rw [if_pos direct, if_pos direct, Location.follow]
  · have above : lblock > 4 := UInt32.not_le.mp direct
    rw [if_neg direct, if_neg direct]
    by_cases indirect : lblock ≤ indirectPointers
    · rw [if_pos ⟨above, indirect⟩, if_pos indirect]
      rfl
    · rw [if_neg fun both => indirect both.2, if_neg indirect]
      rfl

/-- The inner entry is counted from the sixth block of the file on, not from the first block that is
doubly indirect. -/
theorem location_right_iff (lblock : UInt32) :
    (location lblock).InBounds ∧ (location lblock).position = lblock.toNat ↔ lblock.toNat ≤ 256 := by
  unfold location
  by_cases direct : lblock ≤ 4
  · have small : lblock.toNat ≤ 4 := UInt32.le_iff_toNat_le.mp direct
    rw [if_pos direct]
    simp only [Location.InBounds, Location.position, and_true]
    omega
  · have above : 4 < lblock.toNat := by
      have not_small : ¬lblock.toNat ≤ 4 := fun small => direct (UInt32.le_iff_toNat_le.mpr small)
      omega
    have five : (5 : UInt32) ≤ lblock := UInt32.le_iff_toNat_le.mpr above
    have entry : (lblock - 5).toNat = lblock.toNat - 5 := UInt32.toNat_sub_of_le _ _ five
    rw [if_neg direct]
    by_cases indirect : lblock ≤ indirectPointers
    · have small : lblock.toNat ≤ 256 := UInt32.le_iff_toNat_le.mp indirect
      rw [if_pos indirect]
      simp only [Location.InBounds, Location.position, entry]
      omega
    · have large : ¬lblock.toNat ≤ 256 := fun small => indirect (UInt32.le_iff_toNat_le.mpr small)
      rw [if_neg indirect]
      simp only [Location.InBounds, Location.position, entry]
      omega

theorem getSuperblock_returns : Prog.Returns getSuperblock := by
  apply Prog.Returns.bind (Prog.Returns.get _)
  intro block
  cases block with
  | none => exact Prog.Returns.pure _
  | some block => exact Prog.Returns.pure _

theorem dataToReal_returns (dataBlock : UInt32) : Prog.Returns (dataToReal dataBlock) := by
  apply Prog.Returns.bind getSuperblock_returns
  intro sb
  cases sb with
  | none => exact Prog.Returns.pure _
  | some sb => exact Prog.Returns.pure _

theorem logicalToReal_returns (dataBlock : UInt32) : Prog.Returns (logicalToReal dataBlock) := by
  apply Prog.Returns.bind getSuperblock_returns
  intro sb
  cases sb with
  | none => exact Prog.Returns.pure _
  | some sb =>
    apply Prog.Returns.bind (dataToReal_returns dataBlock)
    intro real
    exact Prog.Returns.ite (Prog.Returns.pure _) (dataToReal_returns dataBlock)

theorem pointerAt_returns (blk : Block) {entry : UInt32} (inside : entry.toNat < 256) :
    Prog.Returns (pointerAt blk entry) := by
  rw [pointerAt, if_pos (UInt32.lt_iff_toNat_lt.mpr inside)]
  exact Prog.Returns.pure _

theorem pointerAt_past (blk : Block) {entry : UInt32} (outside : 256 ≤ entry.toNat) :
    pointerAt blk entry = Prog.fault := by
  rw [pointerAt, if_neg]
  intro inside
  exact absurd (UInt32.lt_iff_toNat_lt.mp inside) (Nat.not_lt.mpr outside)

theorem Location.InBounds.follow_returns {l : Location} (inside : l.InBounds) (inode : Inode) :
    Prog.Returns (l.follow inode) := by
  cases l with
  | direct slot => exact logicalToReal_returns _
  | indirect entry =>
    apply Prog.Returns.bind (Prog.Returns.get _)
    intro block
    cases block with
    | none => exact Prog.Returns.pure _
    | some blk => exact (pointerAt_returns blk inside).bind logicalToReal_returns
  | double outer inner =>
    apply Prog.Returns.bind (Prog.Returns.get _)
    intro block
    cases block with
    | none => exact Prog.Returns.pure _
    | some blk =>
      apply (pointerAt_returns blk inside.1).bind
      intro indirect
      apply Prog.Returns.bind (Prog.Returns.get _)
      intro block
      cases block with
      | none => exact Prog.Returns.pure _
      | some blk => exact (pointerAt_returns blk inside.2).bind logicalToReal_returns

/-- No pointer block is indexed past its end, and the pointer fetched is the one of this logical block; past
the last of them an error is returned. -/
def Addressed (inode : Inode) (lblock : UInt32) (d : Device) : Prop :=
  getLogicalBlock inode lblock d ≠ .fault ∧
    (lblock.toNat < addressable → (location lblock).InBounds ∧ (location lblock).position = lblock.toNat) ∧
    (addressable ≤ lblock.toNat → getLogicalBlock inode lblock d = .done 0 d ∨
      getLogicalBlock inode lblock d = .done (-1) d)

/-- Past the last pointer the double indirect block is indexed past its end, unless it cannot be read. -/
theorem getLogicalBlock_past (inode : Inode) {lblock : UInt32} (past : addressable ≤ lblock.toNat) (d : Device) :
    getLogicalBlock inode lblock d = if d.seek inode.doubleIndirectData = none then .done 0 d else .fault := by
  unfold addressable at past
  have direct : ¬lblock ≤ 4 := by
    intro small
    have small' : lblock.toNat ≤ 4 := UInt32.le_iff_toNat_le.mp small
    omega
  have indirect : ¬lblock ≤ indirectPointers := by
    intro small
    have small' : lblock.toNat ≤ 256 := UInt32.le_iff_toNat_le.mp small
    omega
  have outer : ((lblock - indirectPointers) / indirectPointers).toNat = (lblock.toNat - 256) / 256 := by
    have above : indirectPointers ≤ lblock := UInt32.le_of_lt (UInt32.not_le.mp indirect)
    rw [UInt32.toNat_div, UInt32.toNat_sub_of_le _ _ above]
    rfl
  rw [getLogicalBlock_follow, location, if_neg direct, if_neg indirect, Location.follow, readBlock,
    Prog.get_bind_run]
  cases d.seek inode.doubleIndirectData with
  | none => rfl
  | some n =>
    rw [if_neg (Option.some_ne_none n), Option.map_some]
    dsimp only
    rw [pointerAt_past _ (by omega)]
    rfl

theorem addressed_iff (inode : Inode) (lblock : UInt32) (d : Device) :
    getLogicalBlock inode lblock = (location lblock).follow inode ∧
      (Addressed inode lblock d ↔
        lblock.toNat ≤ 256 ∨ addressable ≤ lblock.toNat ∧ d.seek inode.doubleIndirectData = none) := by
  refine ⟨getLogicalBlock_follow inode lblock, ?_⟩
  constructor
  · rintro ⟨returns, inside, reported⟩
    by_cases past : addressable ≤ lblock.toNat
    · rw [getLogicalBlock_past inode past] at returns
      right
      refine ⟨past, ?_⟩
      by_contra read
      exact returns (if_neg read)
    · left
      exact (location_right_iff lblock).mp (inside (Nat.not_le.mp past))
  · rintro (small | ⟨past, unread⟩)
    · have right := (location_right_iff lblock).mpr small
      refine ⟨?_, fun _ => right, ?_⟩
      · obtain ⟨r, d', run⟩ := right.1.follow_returns inode d
        rw [getLogicalBlock_follow, run]
        intro fault
        cases fault
      · intro past
        unfold addressable at past
        omega
    · have run := getLogicalBlock_past inode past d
      rw [if_pos unread] at run
      refine ⟨?_, fun below => absurd past (Nat.not_le.mpr below), fun _ => .inl run⟩
      rw [run]
      intro fault
      cases fault

/-- Block 257 is looked for in the block of the doubly indirect ones, and block 261 past the end of one. -/
theorem not_addressed_first : ¬Addressed Inode.zero 257 ⟨1, fun _ => Buf.zero⟩ ∧
    getLogicalBlock Inode.zero 261 ⟨1, fun _ => Buf.zero⟩ = .fault := by
  constructor
  · rintro ⟨-, right, -⟩
    have small := (location_right_iff 257).mp (right (by decide))
    exact absurd small (by decide)
  · rfl

end Sos.Efs
