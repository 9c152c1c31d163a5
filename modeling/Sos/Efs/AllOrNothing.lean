import Sos.Efs.AddPointer
import Sos.Efs.Names

/-! `falloc_block` on any image: when it allocates and records a block, or else leaves the image
as it was. -/

namespace Sos.Efs
open Sos.Lib Sos.Lib.Bytes

section
variable {γ : Type} {f : Device → γ}

theorem readBlock_keeps (n : UInt32) : Prog.Keeps f (readBlock n) := Prog.Keeps.get

theorem getSuperblock_keeps : Prog.Keeps f getSuperblock := by
  refine Prog.Keeps.bind (readBlock_keeps 0) fun read => ?_
  cases read <;> exact Prog.Keeps.pure _

theorem dataToReal_keeps (n : UInt32) : Prog.Keeps f (dataToReal n) := by
  refine Prog.Keeps.bind getSuperblock_keeps fun read => ?_
  cases read <;> exact Prog.Keeps.pure _

theorem getInode_keeps (i : UInt32) : Prog.Keeps f (getInode i) := by
  refine Prog.Keeps.bind getSuperblock_keeps fun read => ?_
  cases read with
  | none => exact Prog.Keeps.pure _
  | some sb =>
    refine Prog.Keeps.ite (Prog.Keeps.pure _) (Prog.Keeps.bind (readBlock_keeps _) fun read => ?_)
    cases read <;> exact Prog.Keeps.pure _

theorem logicalToReal_keeps (n : UInt32) : Prog.Keeps f (logicalToReal n) := by
  refine Prog.Keeps.bind getSuperblock_keeps fun read => ?_
  cases read with
  | none => exact Prog.Keeps.pure _
  | some sb =>
    exact Prog.Keeps.bind (dataToReal_keeps n) fun _ => Prog.Keeps.ite (Prog.Keeps.pure _) (dataToReal_keeps n)

theorem pointerAt_keeps (x : Block) (k : UInt32) : Prog.Keeps f (pointerAt x k) :=
  Prog.Keeps.ite (Prog.Keeps.pure _) Prog.Keeps.fault

theorem getLogicalBlock_keeps (x : Inode) (k : UInt32) : Prog.Keeps f (getLogicalBlock x k) := by
  have last : ∀ (y : Block) (k : UInt32), Prog.Keeps f (pointerAt y k >>= logicalToReal) := fun y k =>
    Prog.Keeps.bind (pointerAt_keeps y k) logicalToReal_keeps
  refine Prog.Keeps.ite (logicalToReal_keeps _) (Prog.Keeps.ite ?_ ?_)
  · refine Prog.Keeps.bind (readBlock_keeps _) fun read => ?_
    cases read with
    | none => exact Prog.Keeps.pure _
    | some y => exact last y _
  · refine Prog.Keeps.bind (readBlock_keeps _) fun read => ?_
    cases read with
    | none => exact Prog.Keeps.pure _
    | some y =>
      refine Prog.Keeps.bind (pointerAt_keeps y _) fun n => Prog.Keeps.bind (readBlock_keeps n) fun read => ?_
      cases read with
      | none => exact Prog.Keeps.pure _
      | some z => exact last z _

theorem searchBlocks_keeps (x : Inode) (filename : Name) (left : Nat) (i : UInt32) :
    Prog.Keeps f (searchBlocks x filename left i) := by
  induction left generalizing i with
  | zero => exact Prog.Keeps.pure _
  | succ left ih =>
    refine Prog.Keeps.bind (getLogicalBlock_keeps x i) fun n => Prog.Keeps.ite (Prog.Keeps.pure _) ?_
    refine Prog.Keeps.bind (readBlock_keeps n) fun read => ?_
    cases read with
    | none => exact Prog.Keeps.pure _
    | some y =>
      dsimp only
      split
      · exact Prog.Keeps.pure _
      · exact ih (i + 1)

theorem findFile_keeps (filename : Name) : Prog.Keeps f (findFile filename) := by
  refine Prog.Keeps.bind (getInode_keeps 0) fun read => ?_
  cases read with
  | none => exact Prog.Keeps.pure _
  | some x => exact searchBlocks_keeps x filename _ 0

end

/-- Block `b` was free; it was marked, and so was a new indirect block if one was needed, and
the file's inode has it as its next block. -/
structure BlockGiven (d d' : Device) (i : Nat) (b : UInt32) : Prop where
  pos : 0 < b.toNat
  inside : b.toNat < d.dataCount
  free : d.bit b.toNat = false
  marked : IndirectTaken (d.mark b) d' i
  recorded : PointerAdded (d.mark b) d' i b

/-- The call gives the number of the disk block of a new block of the file, or it gives 0 and
changes nothing. -/
def AllOrNothing (filename : Name) (d : Device) : Prop := ∃ r d', fallocBlock filename d = .done r d' ∧
  ((∃ i b, findFile filename d = .done (some i) d ∧ r = b + d.sb.dataOffset ∧ BlockGiven d d' i.toNat b) ∨
    r = 0 ∧ d' = d)

/-- File `i` has a place for one more pointer, and there are free blocks for it: one, or two if
the file needs an indirect block as well. -/
structure Extendable (d : Device) (i : UInt32) : Prop where
  number : i.toNat ≤ 64
  index : d.nextIndex i.toNat ≤ 256
  indirect : 5 ≤ d.nextIndex i.toNat → (d.inode i.toNat).indirectData ≠ 0 → d.indirectBlock i.toNat ≠ none
  free : roundDemand (d.inode i.toNat).size (d.inode i.toNat).bare ≤ d.freeBelow d.dataCount

theorem not_allOrNothing_minus_one {d d' : Device} (f : Formatted d) {filename : Name}
    (run : fallocBlock filename d = .done (-1) d') : ¬AllOrNothing filename d := by
  rintro ⟨r, e, run', ⟨i, b, -, real, given⟩ | ⟨zero, -⟩⟩
  · rw [run, Outcome.done.injEq, real, f.dataOffset] at run'
    have number := real_toNat f b given.inside
    have inside := given.inside
    have bound := f.dataCount
    rw [← run'.1] at number
    change 4294967295 = _ at number
    omega
  · rw [run, Outcome.done.injEq, zero] at run'
    exact absurd run'.1 (by decide)

theorem freeBelow_zero_iff (d : Device) : d.freeBelow d.dataCount = 0 ↔ d.Full := by
  constructor
  · exact Device.freeCount_zero
  · intro full
    refine Finset.card_eq_zero.mpr (Finset.filter_eq_empty_iff.mpr fun m member => ?_)
    rw [full m (Finset.mem_range.mp member)]
    decide

theorem findFreeBlock_zero_iff {d : Device} (f : Formatted d) (root : d.bit 0 = true) :
    findFreeBlock d = .done 0 d ↔ d.freeBelow d.dataCount = 0 := by
  rw [freeBelow_zero_iff]
  rcases findFreeBlock_cases f root with ⟨full, run⟩ | ⟨b, run, nonzero, inside, free⟩
  · exact iff_of_true run full
  · refine iff_of_false (fun zero => ?_) fun full => ?_
    · rw [run, Outcome.done.injEq] at zero
      exact nonzero zero.1
    · rw [full b.toNat inside] at free
      cases free

theorem roundDemand_device {d : Device} {i : Nat} (few : d.nextIndex i ≤ 256) :
    roundDemand (d.inode i).size (d.inode i).bare =
      if 5 ≤ d.nextIndex i ∧ (d.inode i).indirectData = 0 then 2 else 1 := by
  have next : ((d.inode i).size / 1024).toNat = d.nextIndex i := UInt32.toNat_div _ _
  have upper : (d.inode i).size / 1024 ≤ indirectPointers := by
    rw [UInt32.le_iff_toNat_le, next]
    exact few
  have lower : (d.inode i).size / 1024 > 4 ↔ 5 ≤ d.nextIndex i := by
    rw [gt_iff_lt, UInt32.lt_iff_toNat_lt, next]
    exact Iff.rfl
  unfold roundDemand Inode.bare reaches
  simp only [Bool.and_eq_true, decide_eq_true_eq]
  refine if_congr ?_ rfl rfl
  rw [lower]
  exact ⟨fun both => ⟨both.2.1, both.1⟩, fun both => ⟨both.2, both.1, upper⟩⟩

/-- The search comes to an end, and it changes nothing. -/
theorem AllOrNothing.searched {d : Device} (f : Formatted d) {filename : Name} (all : AllOrNothing filename d) :
    ∃ found, findFile filename d = .done found d := by
  obtain ⟨r, d', run, -⟩ := all
  rw [fallocBlock, Prog.bind_done _ (getSuperblock_done f.rooted)] at run
  obtain ⟨found, e, searched, -⟩ := Prog.of_bind_done run
  have same : e = d := findFile_keeps (f := id) filename d found e searched
  rw [same] at searched
  exact ⟨found, searched⟩

section
variable {d : Device} (f : Formatted d) (root : d.bit 0 = true) {i b : UInt32} (hi : i.toNat ≤ 64)
  (few : d.nextIndex i.toNat ≤ 256) (inside : b.toNat < d.dataCount) (free : d.bit b.toNat = false)
include f root hi few inside free

/-- With `b` marked there is a place for the pointer if the file was extendable. -/
theorem noPlace_mark_iff : NoPlace (d.mark b) i ↔ ¬Extendable d i := by
  have bound := f.dataCount
  have room : (d.mark b).freeBelow d.dataCount + 1 = d.freeBelow d.dataCount :=
    d.freeBelow_mark d.dataCount inside (by omega) free
  have total : (d.mark b).dataCount = d.dataCount := by rw [Device.dataCount, Device.sb_mark]; rfl
  have still : (d.mark b).bit 0 = true := by
    rw [Device.bit_mark _ _ _ (by omega), root, Bool.or_true]
  have full := findFreeBlock_zero_iff (f.mark b) still
  rw [total] at full
  have demand := roundDemand_device few
  have same : (d.mark b).inode i.toNat = d.inode i.toNat := d.inode_mark b _
  have place : (d.mark b).indirectBlock i.toNat = d.indirectBlock i.toNat := by
    rw [Device.indirectBlock, same]
    rfl
  have next : (d.mark b).nextIndex i.toNat = d.nextIndex i.toNat := by
    rw [Device.nextIndex, same]
    rfl
  rw [NoPlace, next, place, same, full]
  constructor
  · rintro (big | ⟨many, none, short⟩) extendable
    · omega
    · by_cases absent : (d.inode i.toNat).indirectData = 0
      · have enough := extendable.free
        rw [demand, if_pos ⟨many, absent⟩] at enough
        have zero := short absent
        omega
      · exact extendable.indirect many absent none
  · intro stuck
    right
    by_contra placed
    refine stuck ⟨hi, few, fun many present none => ?_, ?_⟩
    · exact placed ⟨many, none, fun absent => absurd absent present⟩
    · rw [demand]
      by_cases absent : 5 ≤ d.nextIndex i.toNat ∧ (d.inode i.toNat).indirectData = 0
      · rw [if_pos absent]
        have spare : (d.mark b).freeBelow d.dataCount ≠ 0 := fun zero =>
          placed ⟨absent.1, if_pos absent.2, fun _ => zero⟩
        omega
      · rw [if_neg absent]
        omega

/-- What the call does once a free block is found and the index is one that can be recorded. -/
theorem fallocBlock_marked (apart : d.Apart i.toNat) {filename : Name}
    (found : findFile filename d = .done (some i) d) (first : findFreeBlock d = .done b d) (nonzero : b ≠ 0) :
    (¬Extendable d i ∧ fallocBlock filename d = .done (-1) (d.mark b)) ∨
      Extendable d i ∧ ∃ d', fallocBlock filename d = .done (b + d.sb.dataOffset) d' ∧ BlockGiven d d' i.toNat b := by
  have f1 := f.mark b
  have same : (d.mark b).inode i.toNat = d.inode i.toNat := d.inode_mark b _
  have few1 : (d.mark b).nextIndex i.toNat ≤ 256 := by
    rw [Device.nextIndex, same]
    exact few
  rw [fallocBlock_free f found first nonzero inside free]
  by_cases none : NoPlace (d.mark b) i
  · left
    refine ⟨(noPlace_mark_iff f root hi few inside free).mp none, ?_⟩
    rw [Prog.bind_done _ (addBlockPointer_noPlace f1.rooted (fun _ => few1) none)]
    rfl
  · right
    have apart1 : (d.mark b).Apart i.toNat := by
      intro n there
      rw [Device.indirectBlock, same] at there
      exact apart n there
    obtain ⟨d', run, added, taken⟩ := addBlockPointer_added f1 hi apart1 few1 none
    have pos : 0 < b.toNat := Nat.pos_of_ne_zero fun zero => nonzero (UInt32.toNat_inj.mp zero)
    have r : Rooted d' := {
      inodeOffset := by rw [taken.sb, f1.inodeOffset]
      inodeCount := by rw [taken.sb, f1.inodeCount]
      dataOffset := by rw [taken.sb, f1.dataOffset]
      room := by rw [taken.count]; exact f1.rooted.room }
    refine ⟨not_not.mp (none ∘ (noPlace_mark_iff f root hi few inside free).mpr), d', ?_, pos, inside, free,
      taken, added⟩
    rw [Prog.bind_done _ run, if_neg (by decide), dataToReal_done r, f.dataOffset]

end

/-- A block past the last pointer is marked, and recorded nowhere. -/
theorem fallocBlock_past {d : Device} (f : Formatted d) {i b : UInt32} {filename : Name} (hi : i.toNat ≤ 64)
    (far : 256 < d.nextIndex i.toNat) (found : findFile filename d = .done (some i) d)
    (first : findFreeBlock d = .done b d) (nonzero : b ≠ 0) (inside : b.toNat < d.dataCount)
    (free : d.bit b.toNat = false) : fallocBlock filename d = .done (b + 5) (d.mark b) := by
  have same : (d.mark b).inode i.toNat = d.inode i.toNat := d.inode_mark b _
  have far1 : 256 < (d.mark b).nextIndex i.toNat := by
    rw [Device.nextIndex, same]
    exact far
  rw [fallocBlock_free f found first nonzero inside free,
    Prog.bind_done _ (addBlockPointer_past (f.mark b).rooted hi far1), if_neg (by decide),
    dataToReal_done (f.mark b).rooted]

theorem not_allOrNothing_past {d : Device} (f : Formatted d) {i b : UInt32} {filename : Name}
    (far : 256 < d.nextIndex i.toNat) (found : findFile filename d = .done (some i) d)
    (run : fallocBlock filename d = .done (b + 5) (d.mark b)) (inside : b.toNat < d.dataCount) :
    ¬AllOrNothing filename d := by
  rintro ⟨r, d', run', ⟨j, c, found', -, given⟩ | ⟨zero, -⟩⟩
  · rw [found, Outcome.done.injEq, Option.some.injEq] at found'
    obtain rfl := found'.1
    have next : (d.mark c).nextIndex i.toNat = d.nextIndex i.toNat := by
      rw [Device.nextIndex, Device.inode_mark]
      rfl
    have recorded := given.recorded.recorded
    rw [next, Device.kept, if_neg (by omega), if_neg (by omega)] at recorded
    cases recorded
  · rw [run, Outcome.done.injEq, zero] at run'
    have number := real_toNat f b inside
    rw [run'.1, UInt32.toNat_zero] at number
    omega

/-- Whatever file is found, the call allocates and records a block if the file is extendable,
and otherwise it fails to be all or nothing. -/
theorem allOrNothing_found_iff {d : Device} (f : Formatted d) (root : d.bit 0 = true) {i : UInt32}
    {filename : Name} (apart : i.toNat ≤ 64 → d.Apart i.toNat) (found : findFile filename d = .done (some i) d) :
    AllOrNothing filename d ↔ Extendable d i := by
  rcases findFreeBlock_cases f root with ⟨full, -⟩ | ⟨b, first, nonzero, inside, free⟩
  · have none := (freeBelow_zero_iff d).mpr full
    refine iff_of_false (not_allOrNothing_minus_one f (fallocBlock_full f found full)) fun extendable => ?_
    have enough := extendable.free
    rw [roundDemand_device extendable.index, none] at enough
    split at enough <;> omega
  by_cases hi : i.toNat ≤ 64
  · by_cases few : d.nextIndex i.toNat ≤ 256
    · rcases fallocBlock_marked f root hi few inside free (apart hi) found first nonzero with
        ⟨stuck, run⟩ | ⟨extendable, d', run, given⟩
      · exact iff_of_false (not_allOrNothing_minus_one f run) stuck
      · exact iff_of_true ⟨_, d', run, Or.inl ⟨i, b, found, rfl, given⟩⟩ extendable
    · have run := fallocBlock_past f hi (not_le.mp few) found first nonzero inside free
      exact iff_of_false (not_allOrNothing_past f (not_le.mp few) found run inside) fun extendable =>
        few extendable.index
  · have run : fallocBlock filename d = .done (-1) (d.mark b) := by
      rw [fallocBlock_free f found first nonzero inside free,
        Prog.bind_done _ (addBlockPointer_refused (f.mark b).rooted (not_le.mp hi))]
      rfl
    exact iff_of_false (not_allOrNothing_minus_one f run) fun extendable => hi extendable.number

/-- `falloc_block` is all or nothing exactly where it succeeds: it never reports a failure by 0,
and it keeps the block that it marked. -/
theorem fallocBlock_allOrNothing_iff {d : Device} (image : Image d) (root : d.bit 0 = true) {filename : Name}
    (past : ∀ i, findFile filename d = .done (some i) d → i.toNat = 64 → d.Apart i.toNat) :
    AllOrNothing filename d ↔ ∃ i, findFile filename d = .done (some i) d ∧ Extendable d i := by
  have f := image.formatted
  by_cases there : ∃ i, findFile filename d = .done (some i) d
  · obtain ⟨i, found⟩ := there
    have apart : i.toNat ≤ 64 → d.Apart i.toNat := by
      intro hi
      by_cases table : i.toNat < 64
      · exact image.apart table
      · exact past i found (by omega)
    rw [allOrNothing_found_iff f root apart found]
    constructor
    · exact fun extendable => ⟨i, found, extendable⟩
    · rintro ⟨j, found', extendable⟩
      rw [found, Outcome.done.injEq, Option.some.injEq] at found'
      rw [found'.1]
      exact extendable
  · refine iff_of_false (fun all => ?_) fun ⟨i, found, _⟩ => there ⟨i, found⟩
    obtain ⟨search, searched⟩ := all.searched f
    cases search with
    | none => exact not_allOrNothing_minus_one f (fallocBlock_missing f searched) all
    | some i => exact there ⟨i, searched⟩

/-- The new file a on a floppy can have a block. -/
theorem fallocBlock_allOrNothing_iff_floppy : ∃ d, newFile (fileName Buf.zero [0x61]) (freshImage 1440 floppy) =
    .done 0 d ∧ findFile (fileName Buf.zero [0x61]) d = .done (some 1) d ∧ Extendable d 1 ∧
      AllOrNothing (fileName Buf.zero [0x61]) d := by
  have str : (fileName Buf.zero [0x61]).str = [0x61] := fileName_str _ _ (by decide) (by decide)
  have proper : (fileName Buf.zero [0x61]).Proper := by
    rw [Name.Proper, str]
    exact ⟨by decide, by decide⟩
  obtain ⟨cnt, steady⟩ := (listed_freshImage (by decide) (by decide) (by decide) : Listed (freshImage 1440 floppy)).steady
  obtain ⟨d, made, created⟩ : ∃ d, newFile (fileName Buf.zero [0x61]) (freshImage 1440 floppy) = .done 0 d ∧
      Created (freshImage 1440 floppy) d (fileName Buf.zero [0x61]) 1 :=
    newFile_freshImage (by decide) (by decide) (by decide) proper
  obtain ⟨cnt', later⟩ : ∃ cnt', Steady (d.data 0) cnt' d := by
    rcases steady.newFile proper with refused | ⟨d', i, cnt', made', -, -, later, -⟩
    · rw [made, Outcome.done.injEq] at refused
      exact absurd refused.1 (by decide)
    · rw [made, Outcome.done.injEq] at made'
      obtain ⟨-, rfl⟩ := made'
      exact ⟨cnt', later⟩
  have found : findFile (fileName Buf.zero [0x61]) d = .done (some 1) d := by
    rw [findFile_done later.formatted.rooted later.directory, created.listed (by rw [str]; decide)]
  have direct : ∀ j, j < 64 → (d.inode j).indirectData = 0 := by
    intro j inside
    have below := created.low later.directory Nat.one_pos (fun j inside => by
      rw [direct_freshImage j inside]
      decide) j inside
    exact UInt32.toNat_inj.mp (Nat.lt_one_iff.mp below)
  have size : (d.inode (1 : UInt32).toNat).size = 0 := created.size
  have spare : d.freeBelow d.dataCount ≠ 0 := by
    rw [Ne, freeBelow_zero_iff]
    intro full
    have taken := full 1 (by
      rw [created.dataCount]
      decide)
    rw [created.bits, bit_freshImage] at taken
    exact absurd taken (by decide)
  have extendable : Extendable d 1 := by
    refine ⟨by decide, ?_, fun late => ?_, ?_⟩
    · rw [Device.nextIndex, size]
      decide
    · rw [Device.nextIndex, size] at late
      exact absurd late (by decide)
    · rw [size, roundDemand, show reaches 0 = false from by decide, Bool.and_false]
      exact Nat.one_le_iff_ne_zero.mpr spare
  refine ⟨d, made, found, extendable, ?_⟩
  refine (fallocBlock_allOrNothing_iff (image_of_direct later.formatted direct) later.root fun i again past => ?_).mpr
    ⟨1, found, extendable⟩
  rw [found, Outcome.done.injEq, Option.some.injEq] at again
  rw [← again.1] at past
  exact absurd past (by decide)

/-- No file is called a on an empty floppy. -/
theorem missing_floppy : findFile (fileName Buf.zero [0x61]) (freshImage 1440 floppy) =
    .done none (freshImage 1440 floppy) := by
  have str : (fileName Buf.zero [0x61]).str = [0x61] := fileName_str _ _ (by decide) (by decide)
  have dir := directory_freshImage 1440 floppy
  rw [findFile_done formatted_floppy.rooted dir, str, dir.lookup_only (by decide) (by decide)]

/-- That the file is not there is reported by -1, and not by 0. -/
theorem fallocBlock_minus_one :
    fallocBlock (fileName Buf.zero [0x61]) (freshImage 1440 floppy) = .done (-1) (freshImage 1440 floppy) ∧
      ¬AllOrNothing (fileName Buf.zero [0x61]) (freshImage 1440 floppy) := by
  have run := fallocBlock_missing formatted_floppy missing_floppy
  exact ⟨run, not_allOrNothing_minus_one formatted_floppy run⟩

end Sos.Efs
