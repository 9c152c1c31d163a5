import Sos.Efs.Steady

/-! A copy stays before a data block `l` as long as enough blocks are free there. With the
number of all data blocks for `l` this asks for nothing. -/

namespace Sos.Efs
open Sos.Lib Sos.Lib.Bytes

/-- The number of unmarked blocks before data block `l`. -/
def Device.freeBelow (d : Device) (l : Nat) : Nat :=
  ((Finset.range l).filter fun m => d.bit m = false).card

namespace Device
variable (d : Device) (l : Nat)

theorem freeBelow_mark {b : UInt32} (inside : b.toNat < l) (bound : b.toNat < 3936)
    (free : d.bit b.toNat = false) : (d.mark b).freeBelow l + 1 = d.freeBelow l := by
  have member : b.toNat ∈ (Finset.range l).filter fun m => d.bit m = false := by
    simpa using And.intro inside free
  have rest : ((Finset.range l).filter fun m => (d.mark b).bit m = false) =
      ((Finset.range l).filter fun m => d.bit m = false).erase b.toNat := by
    ext m
    simp only [Finset.mem_filter, Finset.mem_range, Finset.mem_erase, bit_mark d b m bound,
      Bool.or_eq_false_iff, decide_eq_false_iff_not]
    exact and_left_comm
  rw [freeBelow, freeBelow, rest, Finset.card_erase_add_one member]

@[simp] theorem freeBelow_putInode (i : Nat) (x : Inode) : (d.putInode i x).freeBelow l = d.freeBelow l := by
  simp [freeBelow]

@[simp] theorem freeBelow_putData (n : Nat) (b : Block) : (d.putData n b).freeBelow l = d.freeBelow l := by
  simp [freeBelow]

end Device

/-- Boot code, superblock and the data blocks from `l` on are those of the image. -/
structure Spared (l : Nat) (image d : Device) : Prop where
  front : ∀ i, i < sectMap → (d.block 0).byte i = (image.block 0).byte i
  beyond : ∀ n, l ≤ n → d.data n = image.data n

namespace Spared
variable {l : Nat} {image d : Device} (spared : Spared l image d)
include spared

theorem mark (b : UInt32) : Spared l image (d.mark b) where
  front := by
    intro i front
    simp only [Device.mark, Device.block_put, ↓reduceIte]
    rw [Buf.byte_blit_outside _ _ _ _ (by omega), spared.front i front]
  beyond := by
    intro n beyond
    rw [Device.data_mark, spared.beyond n beyond]

theorem putInode {i : Nat} (file : i < 64) (x : Inode) : Spared l image (d.putInode i x) where
  front := by
    intro k front
    simp only [Device.putInode, Device.block_put]
    rw [if_neg (by omega), spared.front k front]
  beyond := by
    intro n beyond
    rw [Device.data_putInode _ _ _ _ file, spared.beyond n beyond]

theorem putData {n : Nat} (before : n < l) (b : Block) : Spared l image (d.putData n b) where
  front := by
    intro k front
    simp only [Device.putData, Device.block_put]
    rw [if_neg (by omega), spared.front k front]
  beyond := by
    intro m beyond
    rw [Device.data_putData, if_neg (by omega), spared.beyond m beyond]

end Spared

/-- A steady device that has changed from an image before data block `l` only. -/
structure Guarded (l : Nat) (image : Device) (entries : Block) (cnt : Nat) (d : Device) : Prop where
  steady : Steady entries cnt d
  limit : l ≤ d.dataCount
  low : ∀ i, i < 64 → (d.inode i).indirectData.toNat < l
  free : ∀ m, l ≤ m → m < d.dataCount → d.bit m = false
  spared : Spared l image d

theorem Steady.guarded {entries : Block} {cnt : Nat} {d : Device} (steady : Steady entries cnt d) :
    Guarded d.dataCount d entries cnt d where
  steady := steady
  limit := le_rfl
  low := steady.indirect
  free := by
    intro m lower upper
    omega
  spared := ⟨fun _ _ => rfl, fun _ _ => rfl⟩

/-- The size leads past the direct pointers and not past the indirect ones. -/
def reaches (size : UInt32) : Bool := decide (size / 1024 > 4 ∧ size / 1024 ≤ indirectPointers)

/-- The data blocks that a round takes for a file of this size; `bare` says that it has no
indirect block yet. -/
def roundDemand (size : UInt32) (bare : Bool) : Nat := if bare && reaches size then 2 else 1

/-- The data blocks that a copy takes. -/
def demand : List ReadResult → UInt32 → Bool → Nat
  | [], _, _ => 0
  | result :: results, size, bare =>
    if result.len = 0 then 0
    else roundDemand size bare + demand results (size + result.len) (bare && !reaches size)

def Inode.bare (x : Inode) : Bool := decide (x.indirectData = 0)

namespace Guarded
variable {l : Nat} {image d : Device} {entries : Block} {cnt : Nat} (g : Guarded l image entries cnt d)
include g

/-- The marks from `l` on are the same. -/
theorem later {entries' : Block} {cnt' : Nat} {d' : Device} (steady : Steady entries' cnt' d')
    (count : d'.dataCount = d.dataCount) (bits : ∀ m, l ≤ m → d'.bit m = d.bit m)
    (low : ∀ i, i < 64 → (d'.inode i).indirectData.toNat < l) (spared : Spared l image d') :
    Guarded l image entries' cnt' d' where
  steady := steady
  limit := by
    rw [count]
    exact g.limit
  low := low
  free := by
    intro m lower upper
    rw [count] at upper
    rw [bits m lower, g.free m lower upper]
  spared := spared

theorem mark {b : UInt32} (inside : b.toNat < l) : Guarded l image entries cnt (d.mark b) := by
  have bound := g.steady.formatted.dataCount
  have limit := g.limit
  refine g.later (g.steady.mark (by omega)) (by simp [Device.dataCount]) ?_ ?_ (g.spared.mark b)
  · intro m lower
    rw [Device.bit_mark _ _ _ (by omega), decide_eq_false (by omega), Bool.false_or]
  · intro i file
    rw [Device.inode_mark]
    exact g.low i file

theorem putData {n : Nat} (file : n ≠ 0) (inside : n < l) (b : Block) :
    Guarded l image entries cnt (d.putData n b) := by
  refine g.later (g.steady.putData file b) (by simp [Device.dataCount]) (fun m _ => d.bit_putData n b m) ?_
    (g.spared.putData inside b)
  intro i upper
  rw [Device.inode_putData _ _ _ _ upper]
  exact g.low i upper

theorem putInode {i : Nat} (file : 1 ≤ i ∧ i < 64) (referenced : (d.inode i).refs ≠ 0) {x : Inode}
    (refs : x.refs = (d.inode i).refs) (inside : x.indirectData.toNat < l) :
    Guarded l image entries cnt (d.putInode i x) := by
  refine g.later (g.steady.putInode file referenced refs (inside.trans_le g.limit)) (by simp [Device.dataCount])
    (fun m _ => d.bit_putInode i x m) ?_ (g.spared.putInode file.2 x)
  intro j upper
  rw [Device.inode_putInode]
  split
  · exact inside
  · exact g.low j upper

/-- Without a free block before `l` the next one is `l`. -/
theorem next (inside : l < d.dataCount) (none : d.freeBelow l = 0) :
    ∃ b : UInt32, findFreeBlock d = .done b d ∧ b.toNat = l := by
  obtain ⟨b, first, least, free⟩ := findFreeBlock_first g.steady.formatted inside (g.free l le_rfl inside)
  refine ⟨b, first, ?_⟩
  by_contra differ
  have member : b.toNat ∈ (Finset.range l).filter fun m => d.bit m = false := by
    rw [Finset.mem_filter, Finset.mem_range]
    exact ⟨by omega, free⟩
  rw [Finset.card_eq_zero.mp none] at member
  exact absurd member (Finset.notMem_empty _)

/-- With all blocks for `l` the device may be full. -/
theorem take (spare : l = d.dataCount ∨ 0 < d.freeBelow l) :
    (d.freeBelow l = 0 ∧ d.Full ∧ findFreeBlock d = .done 0 d) ∨
    ∃ b : UInt32, findFreeBlock d = .done b d ∧ b ≠ 0 ∧ b.toNat < l ∧ d.bit b.toNat = false ∧
      Guarded l image entries cnt (d.mark b) ∧ (d.mark b).freeBelow l + 1 = d.freeBelow l := by
  have f := g.steady.formatted
  have limit := g.limit
  have bound := f.dataCount
  by_cases none : d.freeBelow l = 0
  · have whole : l = d.dataCount := spare.resolve_right (by omega)
    have full : d.Full := Device.freeCount_zero (by
      rw [whole] at none
      exact none)
    exact Or.inl ⟨none, full, findFreeBlock_full f.some_ f.dataCount full⟩
  · right
    obtain ⟨m, member⟩ := Finset.card_pos.mp (Nat.pos_of_ne_zero none)
    have inside : m < l := Finset.mem_range.mp (Finset.mem_filter.mp member).1
    obtain ⟨b, first, least, free⟩ :=
      findFreeBlock_first f (inside.trans_le limit) (Finset.mem_filter.mp member).2
    have before : b.toNat < l := by omega
    exact ⟨b, first, nonzero_of_free g.steady.root free, before, free, g.mark before,
      d.freeBelow_mark l before (by omega) free⟩

end Guarded

/-- Blocks were taken and what concerns the size of inode `i` changed; the rest is guarded as before. -/
structure Advance (l : Nat) (image : Device) (entries : Block) (cnt i : Nat) (d d' : Device) (taken : Nat)
    (size : UInt32) (bare : Bool) : Prop where
  guarded : Guarded l image entries cnt d'
  dataCount : d'.dataCount = d.dataCount
  count : d'.freeBelow l + taken = d.freeBelow l
  size : (d'.inode i).size = size
  bare : (d'.inode i).bare = bare

/-- A block that was free, if there was one, is marked to no purpose. -/
structure Wasted (l : Nat) (image : Device) (entries : Block) (cnt : Nat) (d d' : Device) : Prop where
  guarded : Guarded l image entries cnt d'
  dataCount : d'.dataCount = d.dataCount
  count : d'.freeBelow l = d.freeBelow l - 1
  inode : ∀ j, d'.inode j = d.inode j

/-- The blocks that recording a pointer takes. -/
def pointerDemand (x : Inode) : Nat := if x.bare && reaches x.size then 1 else 0

theorem roundDemand_eq (x : Inode) : roundDemand x.size x.bare = pointerDemand x + 1 := by
  unfold roundDemand pointerDemand
  split <;> rfl

namespace Guarded
variable {l : Nat} {image d : Device} {entries : Block} {cnt : Nat} (g : Guarded l image entries cnt d)
  {i : UInt32} (file : 1 ≤ i.toNat ∧ i.toNat < 64) (before : (d.inode i.toNat).refs ≠ 0)
include g file before

theorem ensureIndirect (spare : l = d.dataCount ∨ (if (d.inode i.toNat).bare then 1 else 0) ≤ d.freeBelow l) :
    (Efs.ensureIndirect i (d.inode i.toNat) d = .done none d ∧ (d.inode i.toNat).bare = true ∧
      d.freeBelow l = 0) ∨
    ∃ d', Efs.ensureIndirect i (d.inode i.toNat) d = .done (some (d'.inode i.toNat)) d' ∧
      Advance l image entries cnt i.toNat d d' (if (d.inode i.toNat).bare then 1 else 0)
        (d.inode i.toNat).size false := by
  by_cases absent : (d.inode i.toNat).indirectData = 0
  · have bare : (d.inode i.toNat).bare = true := decide_eq_true absent
    rw [if_pos bare] at spare ⊢
    rcases g.take spare with ⟨none, _, run⟩ | ⟨t, first, nonzero, inside, free, marked, count⟩
    · exact Or.inl ⟨ensureIndirect_full _ absent run, bare, none⟩
    · right
      have still : ((d.mark t).inode i.toNat).refs ≠ 0 := by rwa [Device.inode_mark]
      have recorded := marked.putInode file still (x := { d.inode i.toNat with indirectData := t })
        (by rw [Device.inode_mark]) inside
      have rootless : t.toNat ≠ 0 := fun zero => nonzero (UInt32.toNat_inj.mp zero)
      have run := ensureIndirect_take g.steady.formatted file.2.le _ absent first nonzero
        (inside.trans_le g.limit) free
      have inode : (((d.mark t).putInode i.toNat { d.inode i.toNat with indirectData := t }).putData t.toNat
          Buf.zero).inode i.toNat = { d.inode i.toNat with indirectData := t } := by
        rw [Device.inode_putData _ _ _ _ file.2, Device.inode_putInode, if_pos rfl]
      refine ⟨_, ?_, recorded.putData rootless inside Buf.zero, by simp [Device.dataCount], by simpa using count, ?_, ?_⟩
      · rw [run, inode]
      · rw [inode]
      · rw [inode]
        exact decide_eq_false nonzero
  · have bare : (d.inode i.toNat).bare = false := decide_eq_false absent
    refine Or.inr ⟨d, ensureIndirect_keep _ absent, g, rfl, ?_, rfl, bare⟩
    rw [bare]
    rfl

/-- Past the pointers of the indirect block nothing is recorded. -/
theorem addBlockPointer (b : UInt32) (spare : l = d.dataCount ∨ pointerDemand (d.inode i.toNat) ≤ d.freeBelow l) :
    (Efs.addBlockPointer i b d = .done (-1) d ∧ d.freeBelow l < pointerDemand (d.inode i.toNat)) ∨
    ∃ d', Efs.addBlockPointer i b d = .done 0 d' ∧ Advance l image entries cnt i.toNat d d'
      (pointerDemand (d.inode i.toNat)) (d.inode i.toNat).size
      ((d.inode i.toNat).bare && !reaches (d.inode i.toNat).size) := by
  have f := g.steady.formatted
  rw [Efs.addBlockPointer, Prog.bind_done _ (getInode_done f.rooted i file.2.le)]
  simp only
  by_cases direct : (d.inode i.toNat).size / 1024 ≤ 4
  · have short : reaches (d.inode i.toNat).size = false :=
      decide_eq_false fun past => absurd direct (UInt32.not_le.mpr past.1)
    rw [if_pos direct, Prog.bind_done _ (setInode_done f.rooted i _ file.2.le), pointerDemand, short, Bool.and_false]
    refine Or.inr ⟨_, rfl, g.putInode file before rfl (g.low _ file.2), by simp [Device.dataCount], by simp, ?_, ?_⟩
    · rw [Device.inode_putInode, if_pos rfl]
      rfl
    · rw [Device.inode_putInode, if_pos rfl, Bool.not_false, Bool.and_true]
      rfl
  rw [if_neg direct]
  by_cases indirect : (d.inode i.toNat).size / 1024 > 4 ∧ (d.inode i.toNat).size / 1024 ≤ indirectPointers
  · have past : reaches (d.inode i.toNat).size = true := decide_eq_true indirect
    rw [pointerDemand, past, Bool.and_true] at spare ⊢
    rw [if_pos indirect, Bool.not_true, Bool.and_false]
    rcases g.ensureIndirect file before spare with ⟨run, bare, none⟩ | ⟨d', run, adv⟩
    · left
      rw [Prog.bind_done _ run, bare, none]
      exact ⟨rfl, Nat.zero_lt_one⟩
    · right
      have later := adv.guarded
      have f' := later.steady.formatted
      have low := later.low i.toNat file.2
      have inside := low.trans_le later.limit
      have rootless : (d'.inode i.toNat).indirectData.toNat ≠ 0 := fun zero =>
        of_decide_eq_false adv.bare (UInt32.toNat_inj.mp zero)
      rw [Prog.bind_done _ run]
      simp only
      rw [Prog.bind_done _ (dataToReal_done f'.rooted _), Prog.bind_done _ (readData_done f' _ inside)]
      simp only
      rw [Prog.bind_done _ (dataToReal_done f'.rooted _), Prog.bind_done _ (writeData_done f' _ _ inside)]
      refine ⟨_, rfl, later.putData rootless low _, ?_, ?_, ?_, ?_⟩
      · rw [Device.dataCount, Device.sb_putData]
        exact adv.dataCount
      · rw [Device.freeBelow_putData]
        exact adv.count
      · rw [Device.inode_putData _ _ _ _ file.2, adv.size]
      · rw [Device.inode_putData _ _ _ _ file.2, adv.bare]
  · have past : reaches (d.inode i.toNat).size = false := decide_eq_false indirect
    rw [if_neg indirect, pointerDemand, past, Bool.and_false]
    refine Or.inr ⟨d, rfl, g, rfl, rfl, rfl, ?_⟩
    rw [Bool.not_false, Bool.and_true]

variable {filename : Name} (found : d.lookup filename.str = some i)
include found

/-- A block is given and recorded, or -1 is returned and a free block that was found stays
marked. -/
theorem fallocBlock (spare : l = d.dataCount ∨
    roundDemand (d.inode i.toNat).size (d.inode i.toNat).bare ≤ d.freeBelow l) :
    (∃ d', Efs.fallocBlock filename d = .done (-1) d' ∧ Wasted l image entries cnt d d' ∧
      d.freeBelow l < roundDemand (d.inode i.toNat).size (d.inode i.toNat).bare) ∨
    ∃ b d', findFreeBlock d = .done b d ∧ b ≠ 0 ∧ b.toNat < l ∧ Efs.fallocBlock filename d = .done (b + 5) d' ∧
      Advance l image entries cnt i.toNat d d' (roundDemand (d.inode i.toNat).size (d.inode i.toNat).bare)
        (d.inode i.toNat).size ((d.inode i.toNat).bare && !reaches (d.inode i.toNat).size) := by
  have f := g.steady.formatted
  have there := findFile_some f g.steady.directory found
  rw [roundDemand_eq] at *
  rcases g.take (spare.imp_right Nat.zero_lt_of_lt) with
    ⟨none, full, _⟩ | ⟨b, first, nonzero, inside, free, marked, count⟩
  · exact Or.inl ⟨d, fallocBlock_full f there full, ⟨g, rfl, by omega, fun _ => rfl⟩, by omega⟩
  · have inode : (d.mark b).inode i.toNat = d.inode i.toNat := d.inode_mark b _
    have same : (d.mark b).dataCount = d.dataCount := by rw [Device.dataCount, Device.sb_mark]; rfl
    have still : ((d.mark b).inode i.toNat).refs ≠ 0 := by rwa [inode]
    have rest := marked.addBlockPointer file still b
    rw [inode, same] at rest
    rw [fallocBlock_free f there first nonzero (inside.trans_le g.limit) free]
    rcases rest (spare.imp_right (by omega)) with ⟨run, short⟩ | ⟨d', run, adv⟩
    · left
      rw [Prog.bind_done _ run, if_pos rfl]
      exact ⟨_, rfl, ⟨marked, same, by omega, d.inode_mark b⟩, by omega⟩
    · right
      have taken := adv.count
      rw [Prog.bind_done _ run, if_neg (by decide)]
      exact ⟨b, d', first, nonzero, inside, dataToReal_done adv.guarded.steady.formatted.rooted b,
        { adv with dataCount := adv.dataCount.trans same, count := by omega }⟩

/-- One round, whatever the read gave. -/
theorem copyBlock (result : ReadResult) (spare : l = d.dataCount ∨
    roundDemand (d.inode i.toNat).size (d.inode i.toNat).bare ≤ d.freeBelow l) :
    (∃ d', Efs.copyBlock filename result d = .done none d' ∧ Wasted l image entries cnt d d' ∧
      d.freeBelow l < roundDemand (d.inode i.toNat).size (d.inode i.toNat).bare) ∨
    ∃ b d', findFreeBlock d = .done b d ∧ Efs.copyBlock filename result d = .done (some (b + 5)) d' ∧
      d'.data b.toNat = result.buff ∧
      Advance l image entries cnt i.toNat d d' (roundDemand (d.inode i.toNat).size (d.inode i.toNat).bare)
        ((d.inode i.toNat).size + result.len)
        ((d.inode i.toNat).bare && !reaches (d.inode i.toNat).size) := by
  rcases g.fallocBlock file before found spare with
    ⟨d', run, later, short⟩ | ⟨b, d', first, nonzero, inside, run, adv⟩
  · exact Or.inl ⟨d', copyBlock_of_minus_one result run, later, short⟩
  · right
    have later := adv.guarded
    have f := later.steady.formatted
    have within := inside.trans_le later.limit
    have present : b + 5 ≠ 0 := by
      intro zero
      have real := real_toNat f b within
      rw [zero] at real
      simp at real
    have rootless : b.toNat ≠ 0 := fun zero => nonzero (UInt32.toNat_inj.mp zero)
    have stored := later.putData rootless inside result.buff
    have again : (d'.putData b.toNat result.buff).lookup filename.str = some i := by
      rw [g.steady.lookup stored.steady, found]
    have still := g.steady.referenced stored.steady file before
    have inode : (d'.putData b.toNat result.buff).inode i.toNat = d'.inode i.toNat :=
      Device.inode_putData _ _ _ _ file.2
    rw [Efs.copyBlock, Prog.bind_done _ run, if_neg present,
      Prog.bind_done _ (writeData_done f b _ within), if_neg (by decide),
      Prog.bind_done _ (findFile_done stored.steady.formatted.rooted stored.steady.directory filename), again]
    simp only
    rw [Prog.bind_done _ (getInode_done stored.steady.formatted.rooted i file.2.le)]
    simp only
    rw [Prog.bind_done _ (setInode_done stored.steady.formatted.rooted i _ file.2.le), if_neg (by decide)]
    refine ⟨b, _, first, rfl, ?_, stored.putInode file still rfl (stored.low _ file.2), ?_, ?_, ?_, ?_⟩
    · rw [Device.data_putInode _ _ _ _ file.2, Device.data_putData, if_pos rfl]
    · rw [Device.dataCount, Device.sb_putInode, Device.sb_putData]
      exact adv.dataCount
    · rw [Device.freeBelow_putInode, Device.freeBelow_putData]
      exact adv.count
    · rw [Device.inode_putInode, if_pos rfl, inode, adv.size]
    · rw [Device.inode_putInode, if_pos rfl, inode]
      exact adv.bare

theorem copyLoop (results : List ReadResult) (spare : l = d.dataCount ∨
    demand results (d.inode i.toNat).size (d.inode i.toNat).bare ≤ d.freeBelow l) :
    ∃ r d', Efs.copyLoop filename results d = .done r d' ∧ Guarded l image entries cnt d' ∧
      (demand results (d.inode i.toNat).size (d.inode i.toNat).bare ≤ d.freeBelow l → r.ret = 0 ∧
        d'.freeBelow l + demand results (d.inode i.toNat).size (d.inode i.toNat).bare = d.freeBelow l) := by
  induction results generalizing d with
  | nil => exact ⟨_, d, rfl, g, fun _ => ⟨rfl, rfl⟩⟩
  | cons result results ih =>
    rw [Efs.copyLoop, demand] at *
    by_cases ended : result.len = 0
    · rw [if_pos ended, if_pos ended]
      exact ⟨_, d, rfl, g, fun _ => ⟨rfl, rfl⟩⟩
    rw [if_neg ended] at spare
    rw [if_neg ended, if_neg ended]
    rcases g.copyBlock file before found result (spare.imp_right (by omega)) with
      ⟨d', run, later, short⟩ | ⟨b, d', first, run, written, adv⟩
    · rw [Prog.bind_done _ run]
      exact ⟨_, d', rfl, later.guarded, by omega⟩
    · have still := g.steady.referenced adv.guarded.steady file before
      have again : d'.lookup filename.str = some i := by
        rw [g.steady.lookup adv.guarded.steady, found]
      have count := adv.count
      have rest := ih adv.guarded still again
      rw [adv.size, adv.bare, adv.dataCount] at rest
      obtain ⟨r, d'', run', last, exact_⟩ := rest (spare.imp_right (by omega))
      rw [Prog.bind_done _ run]
      simp only
      rw [Prog.bind_done _ run']
      refine ⟨_, d'', rfl, last, fun enough => ?_⟩
      obtain ⟨success, count'⟩ := exact_ (by omega)
      exact ⟨success, by omega⟩

end Guarded

/-- On any steady device a copy ends, and the directory stays as it is. -/
theorem Steady.copyLoop {entries : Block} {cnt : Nat} {d : Device} (steady : Steady entries cnt d)
    {filename : Name} (proper : filename.Proper) (results : List ReadResult) :
    ∃ r d', Efs.copyLoop filename results d = .done r d' ∧ Steady entries cnt d' := by
  cases found : d.lookup filename.str with
  | none =>
    obtain ⟨r, run⟩ := copyLoop_missing steady.formatted steady.directory found results
    exact ⟨r, d, run, steady⟩
  | some i =>
    obtain ⟨lower, upper, referenced⟩ := steady.directory.lookup_inode proper found
    obtain ⟨r, d', run, later, -⟩ :=
      steady.guarded.copyLoop ⟨lower, upper⟩ referenced found results (Or.inl rfl)
    exact ⟨r, d', run, later.steady⟩

end Sos.Efs
