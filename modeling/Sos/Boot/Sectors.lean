import Sos.Efs.Lossless
import Sos.Efs.Names

/-! The image with the two stages of the boot loader on it, and what `writeefs` does to them. -/

namespace Sos.Efs
open Sos.Lib Sos.Lib.Bytes

namespace Device

/-- `dd if=.. conv=notrunc seek=sector`, in sectors of 512 bytes. -/
def dd {n : Nat} (d : Device) (sector : Nat) (source : Buf n) : Device where
  count := max d.count ((512 * sector + n + 1023) / 1024)
  block := fun m => Buf.tabulate fun i =>
    if 512 * sector ≤ 1024 * m + i ∧ 1024 * m + i < 512 * sector + n then
      source.byte (1024 * m + i - 512 * sector)
    else (d.block m).byte i

def sector (d : Device) (s : Nat) : Buf 512 := (d.block (s / 2)).slice (512 * (s % 2))

variable {n : Nat} (d : Device) (s : Nat) (source : Buf n)

theorem byte_dd_outside {m i : Nat} (outside : 1024 * m + i < 512 * s ∨ 512 * s + n ≤ 1024 * m + i) :
    ((d.dd s source).block m).byte i = (d.block m).byte i := by
  by_cases inside : i < 1024
  · rw [dd, Buf.byte_tabulate _ inside, if_neg (by omega)]
  · rw [Buf.byte, Buf.byte, dif_neg inside, dif_neg inside]

theorem block_dd_outside {m : Nat} (outside : 1024 * m + 1024 ≤ 512 * s ∨ 512 * s + n ≤ 1024 * m) :
    (d.dd s source).block m = d.block m := by
  apply Buf.ext
  intro i inside
  exact d.byte_dd_outside s source (by omega)

end Device

/-- `stage2_sector`. -/
def stage2Sector : Nat := 2874

/-- The data block that starts with this sector. -/
def stage2Block : Nat := stage2Sector / 2 - 5

/-- What the Makefile puts on the formatted image. -/
def bootImage {n : Nat} (formatted : Device) (boot1 : Buf 512) (boot2 : Buf n) : Device :=
  (formatted.dd 0 boot1).dd stage2Sector boot2

/-- Boot code, superblock and the sectors of stage 2 are those of the image. -/
structure Bootable (image d : Device) : Prop where
  boot1 : ∀ i, i < bootcodeLen → (d.block 0).byte i = (image.block 0).byte i
  superblock : d.sb = image.sb
  stage2 : ∀ s, stage2Sector ≤ s → d.sector s = image.sector s

theorem Spared.bootable {image d : Device} (spared : Spared stage2Block image d) : Bootable image d where
  boot1 := fun i front => spared.front i (front.trans (by decide))
  superblock := by
    unfold Device.sb
    congr 1
    apply Buf.slice_congr
    intro i inside
    exact spared.front _ (by unfold sectMap bootcodeLen; omega)
  stage2 := by
    intro s past
    have number : s / 2 = s / 2 - 5 + 5 := by
      unfold stage2Sector at past
      omega
    have block : d.block (s / 2) = image.block (s / 2) := by
      rw [number]
      exact spared.beyond (s / 2 - 5) (by unfold stage2Block stage2Sector at *; omega)
    rw [Device.sector, Device.sector, block]

section
variable {formatted : Device} {boot1 : Buf 512} {n : Nat} {boot2 : Buf n}

/-- The file system is not touched. -/
theorem block_bootImage {m : Nat} (lower : 1 ≤ m) (upper : m < 1437) :
    (bootImage formatted boot1 boot2).block m = formatted.block m := by
  rw [bootImage, Device.block_dd_outside _ _ _ (by unfold stage2Sector; omega),
    Device.block_dd_outside _ _ _ (by omega)]

theorem byte_bootImage {i : Nat} (lower : 512 ≤ i) (upper : i < 1024) :
    ((bootImage formatted boot1 boot2).block 0).byte i = (formatted.block 0).byte i := by
  rw [bootImage, Device.byte_dd_outside _ _ _ (by unfold stage2Sector; omega),
    Device.byte_dd_outside _ _ _ (by omega)]

theorem sb_bootImage : (bootImage formatted boot1 boot2).sb = formatted.sb := by
  unfold Device.sb
  congr 1
  apply Buf.slice_congr
  intro i inside
  exact byte_bootImage (by unfold bootcodeLen; omega) (by unfold bootcodeLen; omega)

theorem bit_bootImage {m : Nat} (inside : m < 3936) :
    (bootImage formatted boot1 boot2).bit m = formatted.bit m := by
  unfold Device.bit
  rw [byte_bootImage (by unfold sectMap bootcodeLen; omega) (by unfold sectMap bootcodeLen; omega)]

theorem inode_bootImage {i : Nat} (inside : i < 64) :
    (bootImage formatted boot1 boot2).inode i = formatted.inode i := by
  unfold Device.inode
  rw [block_bootImage (by omega) (by omega)]

theorem data_bootImage {m : Nat} (inside : m < stage2Block) :
    (bootImage formatted boot1 boot2).data m = formatted.data m :=
  block_bootImage (by omega) (by unfold stage2Block stage2Sector at inside; omega)

variable {disk : Device} (room : 1440 ≤ disk.count)

theorem dataCount_bootImage : (bootImage (freshImage 1440 disk) boot1 boot2).dataCount = 1435 := by
  rw [Device.dataCount, sb_bootImage, sb_freshImage]
  rfl

include room

theorem formatted_bootImage : Formatted (bootImage (freshImage 1440 disk) boot1 boot2) where
  ident := by rw [sb_bootImage, sb_freshImage]; rfl
  inodeOffset := by rw [sb_bootImage, sb_freshImage]; rfl
  inodeCount := by rw [sb_bootImage, sb_freshImage]; rfl
  dataOffset := by rw [sb_bootImage, sb_freshImage]; rfl
  root := by rw [dataCount_bootImage]; decide
  dataCount := by rw [dataCount_bootImage]; decide
  room := by
    have first : disk.count ≤ ((freshImage 1440 disk).dd 0 boot1).count := Nat.le_max_left _ _
    have second : ((freshImage 1440 disk).dd 0 boot1).count ≤
        (bootImage (freshImage 1440 disk) boot1 boot2).count := Nat.le_max_left _ _
    rw [dataCount_bootImage]
    omega

theorem guarded_bootImage : Guarded stage2Block (bootImage (freshImage 1440 disk) boot1 boot2)
    ((bootImage (freshImage 1440 disk) boot1 boot2).data 0) 1
    (bootImage (freshImage 1440 disk) boot1 boot2) where
  steady :=
    { formatted := formatted_bootImage room
      directory := (directory_freshImage 1440 disk).frame (data_bootImage (by decide))
        (inode_bootImage (by decide)) (fun j inside => by rw [inode_bootImage inside])
        (fun j inside _ => inode_bootImage inside)
      entries := rfl
      root := by
        rw [bit_bootImage (by decide), bit_freshImage]
        rfl
      indirect := by
        intro i inside
        rw [inode_bootImage inside, inode_freshImage _ _ _ inside, dataCount_bootImage]
        split <;> decide }
  limit := by
    rw [dataCount_bootImage]
    decide
  low := by
    intro i inside
    rw [inode_bootImage inside, inode_freshImage _ _ _ inside]
    split <;> decide
  free := by
    intro m lower upper
    rw [dataCount_bootImage] at upper
    unfold stage2Block stage2Sector at lower
    rw [bit_bootImage (by omega), bit_freshImage, decide_eq_false (by omega)]
  spared := ⟨fun _ _ => rfl, fun _ _ => rfl⟩

end

/-- `new_file` writes to the inode table and the root directory only. -/
theorem Guarded.newFile {l : Nat} {image d : Device} {entries : Block} {cnt : Nat}
    (g : Guarded l image entries cnt d) {filename : Name} (proper : filename.Proper) :
    ((∀ m, m < 64 → (d.inode m).refs ≠ 0) ∧ Efs.newFile filename d = .done (-1) d) ∨
    ∃ d' i cnt', Efs.newFile filename d = .done 0 d' ∧ Created d d' filename i ∧
      Guarded l image (d'.data 0) cnt' d' ∧ (d.lookup filename.str = none → (d.inode i.toNat).refs = 0) := by
  have f := g.steady.formatted
  have dir := g.steady.directory
  have some_ : 0 < l := Nat.zero_lt_of_lt (g.low 0 (by decide))
  have keep : ∀ d' i cnt', Created d d' filename i → Directory d' cnt' → Spared l image d' →
      Guarded l image (d'.data 0) cnt' d' := fun d' i cnt' c dir' spared =>
    g.later (c.steady dir' g.steady) c.dataCount (fun m _ => c.bits m) (c.low dir' some_ g.low) spared
  rcases newFile_outcomes f.rooted dir proper with
    ⟨i, found, made⟩ | ⟨missing, ⟨full, refused⟩ | ⟨i, bound, unused, -, made⟩⟩
  · have c := created_found dir proper f found
    refine Or.inr ⟨_, i, cnt, made, c,
      keep _ _ _ c (directory_found dir proper found) (g.spared.putInode c.file.2 _), fun missing => ?_⟩
    rw [found] at missing
    cases missing
  · exact Or.inl ⟨full, refused⟩
  · have c := dir.created_fresh unused bound f proper missing
    have spared : Spared l image (d.fresh cnt filename i) :=
      ((g.spared.putData some_ _).putInode (by decide) _).putInode bound _
    exact Or.inr ⟨_, i, cnt + 1, made, c, keep _ _ _ c (dir.directory_fresh unused bound proper) spared,
      fun _ => unused⟩

namespace Command

/-- What the run takes is free before data block `l`. A file that gets no inode, or no name to
be found by, takes no blocks. -/
def Spares (l : Nat) (c : Command) (d : Device) : Prop :=
  c.name.Proper ∧ ∀ results, c.reads = some results → match d.lookup c.name.str with
    | some i => demand results 0 (d.inode i.toNat).bare ≤ d.freeBelow l
    | none => (∀ i, i < 64 → (d.inode i).refs ≠ 0) ∨ 11 < c.name.str.length ∨
        demand results 0 true ≤ d.freeBelow l

end Command

theorem Created.freeBelow {d d' : Device} {filename : Name} {i : UInt32} (c : Created d d' filename i) (l : Nat) :
    d'.freeBelow l = d.freeBelow l := by
  unfold Device.freeBelow
  simp only [c.bits]

/-- The blocks are free that the rounds take after `new_file`. -/
theorem Command.Spares.created {l : Nat} {c : Command} {d d1 : Device} (spares : c.Spares l d) {i j : UInt32}
    (made : Created d d1 c.name i) (fresh : d.lookup c.name.str = none → (d.inode i.toNat).refs = 0)
    (found : d1.lookup c.name.str = some j) {results : List ReadResult} (opened : c.reads = some results) :
    j = i ∧ demand results (d1.inode i.toNat).size (d1.inode i.toNat).bare ≤ d1.freeBelow l := by
  have proper := spares.1
  have kept : 11 < c.name.str.length → d1.lookup c.name.str = d.lookup c.name.str :=
    fun long => made.kept _ proper.1 (cut_ne long)
  have bare : (d1.inode i.toNat).bare = (d.inode i.toNat).bare := by
    rw [Inode.bare, Inode.bare, made.indirect]
  have enough := spares.2 results opened
  rw [made.size, bare, made.freeBelow]
  cases before : d.lookup c.name.str with
  | some k =>
    have same : k = i := by
      rcases made.origin with old | ⟨missing, _⟩
      · rw [before] at old
        exact Option.some.inj old
      · rw [before] at missing
        cases missing
    have listed := made.found proper (Or.inr ⟨k, before⟩)
    rw [found] at listed
    rw [before, same] at enough
    exact ⟨Option.some.inj listed, enough⟩
  | none =>
    have short : c.name.str.length ≤ 11 := by
      by_contra long
      rw [kept (by omega), before] at found
      cases found
    have listed := made.listed short
    rw [found] at listed
    rw [before] at enough
    have indirect : (d.inode i.toNat).indirectData = 0 := by
      rcases made.origin with old | ⟨_, _, absent⟩
      · rw [before] at old
        cases old
      · exact absent
    have absent : (d.inode i.toNat).bare = true := decide_eq_true indirect
    rw [absent]
    refine ⟨Option.some.inj listed, ?_⟩
    rcases enough with full | long | enough
    · exact absurd (fresh before) (full _ made.file.2)
    · omega
    · exact enough

/-- One run. -/
theorem Guarded.run {l : Nat} {image d : Device} {entries : Block} {cnt : Nat}
    (g : Guarded l image entries cnt d) {c : Command} (spares : c.Spares l d) :
    ∃ r d' cnt', c.run d = .done r d' ∧ Guarded l image (d'.data 0) cnt' d' := by
  have f := g.steady.formatted
  have proper := spares.1
  have run : c.run d = readWrite c.stack c.file c.reads d := writeefs_formatted f _ _ _
  rw [run]
  rcases g.newFile proper with ⟨_, refused⟩ | ⟨d1, i, cnt1, made, created, g1, fresh⟩
  · refine ⟨_, d, cnt, readWrite_refused refused _, ?_⟩
    rw [g.steady.entries]
    exact g
  · cases opened : c.reads with
    | none =>
      exact ⟨_, d1, cnt1, readWrite_unopened made, g1⟩
    | some results =>
      have copy : readWrite c.stack c.file (some results) d = Efs.copyLoop c.name results d1 :=
        readWrite_created made results
      rw [copy]
      cases found : d1.lookup c.name.str with
      | none =>
        obtain ⟨r, run⟩ := copyLoop_missing g1.steady.formatted g1.steady.directory found results
        exact ⟨r, d1, cnt1, run, g1⟩
      | some j =>
        obtain ⟨rfl, enough⟩ := spares.created created fresh found opened
        obtain ⟨lower, upper, referenced⟩ := g1.steady.directory.lookup_inode proper found
        obtain ⟨r, d', run, later, _⟩ := g1.copyLoop ⟨lower, upper⟩ referenced found results (Or.inr enough)
        refine ⟨r, d', cnt1, run, ?_⟩
        rw [later.steady.entries]
        exact later

/-- As long as every run finds the blocks it takes in front of stage 2, none of them damages
the boot chain. -/
theorem bootChain_kept {disk formatted : Device} {r : Int} (room : 1440 ≤ disk.count)
    (made : mkefs 1440 disk = .done r formatted) (boot1 : Buf 512) {n : Nat} (boot2 : Buf n) :
    ∀ log d, Runs Command.run (Command.Spares stage2Block) (bootImage formatted boot1 boot2) log d →
      Bootable (bootImage formatted boot1 boot2) d := by
  intro log d runs
  rw [mkefs_done (by omega)] at made
  cases made
  have guarded : ∃ cnt, Guarded stage2Block (bootImage (freshImage 1440 disk) boot1 boot2) (d.data 0) cnt d := by
    refine runs.invariant (fun _ d => ∃ cnt, Guarded stage2Block _ (d.data 0) cnt d)
      ⟨1, guarded_bootImage room⟩ ?_
    rintro log s c o t ⟨cnt, g⟩ spares run
    obtain ⟨o', t', cnt', run', later⟩ := g.run spares
    rw [run'] at run
    cases run
    exact ⟨cnt', later⟩
  obtain ⟨cnt, g⟩ := guarded
  exact g.spared.bootable

def floppyImage : Device := bootImage (freshImage 1440 floppy) (Buf.zero : Buf 512) (Buf.zero : Buf 2048)

def letters : Chunk := ⟨List.replicate 1024 0x61, by rw [List.length_replicate]⟩

/-- A file `a` of this many blocks. -/
def install (blocks : Nat) : Command := ⟨Buf.zero, [0x61], some (List.replicate blocks (.bytes letters))⟩

theorem len_letters : (ReadResult.bytes letters).len = 1024 := by
  rw [ReadResult.len, letters, List.length_replicate]
  rfl

theorem reaches_blocks {size : UInt32} {k : Nat} (whole : size.toNat = 1024 * k) :
    reaches size = decide (4 < k ∧ k ≤ 256) := by
  have quot : (size / 1024).toNat = k := by
    have block : (1024 : UInt32).toNat = 1024 := rfl
    rw [UInt32.toNat_div, block]
    omega
  have four : (4 : UInt32).toNat = 4 := rfl
  have last : indirectPointers.toNat = 256 := rfl
  apply decide_eq_decide.mpr
  rw [gt_iff_lt, UInt32.lt_iff_toNat_lt, UInt32.le_iff_toNat_le, quot, four, last]

theorem demand_letters_kept (n : Nat) (size : UInt32) : demand (List.replicate n (.bytes letters)) size false = n := by
  induction n generalizing size with
  | zero => rfl
  | succ n ih =>
    rw [List.replicate_succ, demand, len_letters, if_neg (by decide), Bool.false_and, ih, roundDemand,
      Bool.false_and, if_neg Bool.false_ne_true, Nat.add_comm]

/-- One block more than the file has, for the pointers. -/
theorem demand_letters {n k : Nat} {size : UInt32} (whole : size.toNat = 1024 * k) (before : k ≤ 5)
    (past : 6 ≤ k + n) : demand (List.replicate n (.bytes letters)) size true = n + 1 := by
  induction n generalizing k size with
  | zero => omega
  | succ n ih =>
    have block : (1024 : UInt32).toNat = 1024 := rfl
    rw [List.replicate_succ, demand, len_letters, if_neg (by decide), roundDemand, reaches_blocks whole,
      Bool.true_and]
    by_cases last : k = 5
    · rw [decide_eq_true (by omega), if_pos rfl, Bool.not_true, Bool.and_false, demand_letters_kept]
      omega
    · have next : (size + 1024).toNat = 1024 * (k + 1) := by
        rw [UInt32.toNat_add, block]
        omega
      rw [decide_eq_false (by omega), if_neg Bool.false_ne_true, Bool.not_false, Bool.and_true,
        ih next (by omega) (by omega)]
      omega

theorem freeBelow_floppyImage : floppyImage.freeBelow stage2Block = 1431 := by
  have free : ((Finset.range stage2Block).filter fun m => floppyImage.bit m = false) =
      (Finset.range stage2Block).erase 0 := by
    ext m
    simp only [Finset.mem_filter, Finset.mem_erase, Finset.mem_range]
    constructor
    · rintro ⟨inside, free⟩
      rw [floppyImage, bit_bootImage (by unfold stage2Block stage2Sector at inside; omega), bit_freshImage,
        decide_eq_false_iff_not] at free
      exact ⟨free, inside⟩
    · rintro ⟨nonzero, inside⟩
      rw [floppyImage, bit_bootImage (by unfold stage2Block stage2Sector at inside; omega), bit_freshImage]
      exact ⟨inside, decide_eq_false nonzero⟩
  rw [Device.freeBelow, free, Finset.card_erase_of_mem (Finset.mem_range.mpr (by decide)), Finset.card_range]
  rfl

theorem name_install (blocks : Nat) : (install blocks).name.str = [0x61] ∧ (install blocks).name.Proper := by
  have short : ShortName [0x61] := ⟨by decide, by decide, by decide, by decide⟩
  have name : (install blocks).name = fileName Buf.zero [0x61] := rfl
  rw [name]
  exact ⟨short.str _, short.proper _⟩

theorem mkefs_floppy : mkefs 1440 floppy = .done 0 (freshImage 1440 floppy) := mkefs_done (by decide)

theorem guarded_floppyImage : Guarded stage2Block floppyImage (floppyImage.data 0) 1 floppyImage :=
  guarded_bootImage (by decide)

/-- The first `new_file` on the floppy. -/
theorem newFile_floppyImage (blocks : Nat) : ∃ d i cnt, newFile (install blocks).name floppyImage = .done 0 d ∧
    Created floppyImage d (install blocks).name i ∧ Guarded stage2Block floppyImage (d.data 0) cnt d ∧
    d.lookup (install blocks).name.str = some i ∧ (d.inode i.toNat).bare = true := by
  obtain ⟨str, proper⟩ := name_install blocks
  have image : ∀ i, i < 64 → floppyImage.inode i = if i = 0 then rootInode else Inode.zero := by
    intro i inside
    rw [floppyImage, inode_bootImage inside, inode_freshImage _ _ _ inside]
  rcases guarded_floppyImage.newFile proper with ⟨full, _⟩ | ⟨d, i, cnt, made, created, g, _⟩
  · have used := full 1 (by decide)
    rw [image 1 (by decide)] at used
    exact absurd rfl used
  · refine ⟨d, i, cnt, made, created, g, created.listed (by rw [str]; decide), ?_⟩
    rw [Inode.bare, created.indirect, image _ created.file.2]
    split <;> rfl

/-- A file that takes all blocks in front of stage 2. -/
theorem install_fills : ∃ r d i cnt, (install 1430).run floppyImage = .done r d ∧
    Guarded stage2Block floppyImage (d.data 0) cnt d ∧ d.lookup [0x61] = some i ∧ d.freeBelow stage2Block = 0 := by
  obtain ⟨str, proper⟩ := name_install 1430
  obtain ⟨d, i, cnt, made, created, g, found, bare⟩ := newFile_floppyImage 1430
  obtain ⟨lower, upper, referenced⟩ := g.steady.directory.lookup_inode proper found
  have free : d.freeBelow stage2Block = 1431 := by rw [created.freeBelow, freeBelow_floppyImage]
  have enough : demand (List.replicate 1430 (.bytes letters)) (d.inode i.toNat).size (d.inode i.toNat).bare =
      1431 := by
    have empty : (0 : UInt32).toNat = 1024 * 0 := rfl
    rw [created.size, bare, demand_letters empty (by decide) (by decide)]
  obtain ⟨r, d', run, later, counts⟩ := g.copyLoop ⟨lower, upper⟩ referenced found
    (List.replicate 1430 (.bytes letters)) (Or.inr (by omega))
  have count := (counts (by omega)).2
  have whole : (install 1430).run floppyImage = .done r d' := by
    rw [Command.run, writeefs_formatted guarded_floppyImage.steady.formatted]
    exact (readWrite_created made _).trans run
  refine ⟨r, d', i, cnt, whole, ?_, ?_, by omega⟩
  · rw [later.steady.entries]
    exact later
  · rw [← str, g.steady.lookup later.steady, found]

theorem spares_install : (install 1430).Spares stage2Block floppyImage := by
  obtain ⟨str, proper⟩ := name_install 1430
  refine ⟨proper, fun results opened => ?_⟩
  cases opened
  rw [guarded_floppyImage.steady.directory.lookup_only proper.1 proper.2]
  have empty : (0 : UInt32).toNat = 1024 * 0 := rfl
  refine Or.inr (Or.inr ?_)
  rw [demand_letters empty (by decide) (by decide), freeBelow_floppyImage]

theorem bootChain_kept_filled : ∃ r d,
    Runs Command.run (Command.Spares stage2Block) floppyImage [(install 1430, r)] d ∧ Bootable floppyImage d := by
  obtain ⟨r, d, i, cnt, run, g, found, full⟩ := install_fills
  have runs : Runs Command.run (Command.Spares stage2Block) floppyImage [(install 1430, r)] d :=
    Runs.nil.call spares_install run
  exact ⟨r, d, runs, bootChain_kept (by decide) mkefs_floppy Buf.zero Buf.zero _ d runs⟩

/-- One more block is the first one of stage 2. -/
theorem install_overwrites {d : Device} {entries : Block} {cnt : Nat}
    (g : Guarded stage2Block floppyImage entries cnt d) {i : UInt32} (found : d.lookup [0x61] = some i)
    (full : d.freeBelow stage2Block = 0) : ∃ r d', (install 1).run d = .done r d' ∧
      d'.data stage2Block = (ReadResult.bytes letters).buff := by
  obtain ⟨str, proper⟩ := name_install 1
  have listed : d.lookup (install 1).name.str = some i := by rw [str, found]
  rcases g.newFile proper with ⟨_, refused⟩ | ⟨d1, j, cnt1, made, created, g1, _⟩
  · rw [newFile_found g.steady.formatted.rooted g.steady.directory _ proper listed] at refused
    cases refused
  have f := g1.steady.formatted
  have found1 := created.listed (by rw [str]; decide)
  obtain ⟨lower, upper, referenced⟩ := g1.steady.directory.lookup_inode proper found1
  have full1 : d1.freeBelow stage2Block = 0 := by rw [created.freeBelow, full]
  have count : d1.dataCount = 1435 := by
    rw [Device.dataCount, g1.spared.bootable.superblock]
    exact dataCount_bootImage
  have inside : stage2Block < d1.dataCount := by
    rw [count]
    decide
  have free := g1.free stage2Block le_rfl inside
  obtain ⟨b, first, number⟩ := g1.next inside full1
  rcases g1.steady.guarded.copyBlock ⟨lower, upper⟩ referenced found1 (.bytes letters) (Or.inl rfl) with
    ⟨_, _, _, short⟩ | ⟨b', d', taken, run, written, _⟩
  · have one : ∀ bare, roundDemand 0 bare = 1 := by decide
    rw [created.size, one] at short
    have none : d1.freeCount = 0 := Nat.lt_one_iff.mp short
    rw [Device.freeCount_zero none _ inside] at free
    cases free
  · rw [first] at taken
    cases taken
    rw [number] at written
    refine ⟨⟨0, [b + 5]⟩, d', ?_, written⟩
    rw [Command.run, writeefs_formatted g.steady.formatted]
    refine (readWrite_created made _).trans ?_
    change copyLoop (install 1).name [.bytes letters] d1 = _
    rw [copyLoop, len_letters, if_neg (by decide), Prog.bind_done _ run]
    rfl

/-- The disk is filled, and then the file is made anew. -/
theorem bootChain_overwritten : ¬∀ log d, Runs Command.run (fun c _ => c.name.Proper) floppyImage log d →
    Bootable floppyImage d := by
  intro claimed
  obtain ⟨r, d, i, cnt, filled, g, found, full⟩ := install_fills
  obtain ⟨r', d', run, written⟩ := install_overwrites g found full
  have before : Runs Command.run (fun c _ => c.name.Proper) floppyImage [(install 1430, r)] d :=
    Runs.nil.call (i := install 1430) (name_install 1430).2 filled
  have runs : Runs Command.run (fun c _ => c.name.Proper) floppyImage
      [(install 1, r'), (install 1430, r)] d' := before.call (i := install 1) (name_install 1).2 run
  have kept := congrArg (fun b : Buf 512 => b.byte 0) ((claimed _ _ runs).stage2 stage2Sector le_rfl)
  have sector : ∀ d : Device, (d.sector stage2Sector).byte 0 = (d.data stage2Block).byte 0 :=
    fun d => Buf.byte_slice _ _ (by decide)
  have now : (ReadResult.bytes letters).buff.byte 0 = 0x61 := by
    rw [ReadResult.buff, Buf.byte_tabulate _ (by decide)]
    rfl
  have old : (floppyImage.data stage2Block).byte 0 = 0 := by
    have boot2 : (floppyImage.data stage2Block).byte 0 = (Buf.zero : Buf 2048).byte 0 := by
      unfold floppyImage bootImage Device.data Device.dd
      rw [Buf.byte_tabulate _ (by decide), if_pos (by decide)]
      rfl
    rw [boot2, Buf.byte_zero]
  change (d'.sector stage2Sector).byte 0 = (floppyImage.sector stage2Sector).byte 0 at kept
  rw [sector, sector, written, now, old] at kept
  exact absurd kept (by decide)

end Sos.Efs
