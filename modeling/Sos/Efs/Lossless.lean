import Sos.Efs.Lost

/-! Which runs lose a block. Truncation keeps the marks of the blocks it drops; a lone free
block is lost where an indirect block is needed too, and so is every block past the 257th. -/

namespace Sos.Efs
open Sos.Lib Sos.Lib.Bytes

/-- A run of `writeefs` on a regular file, or on a file that cannot be opened. -/
structure Request where
  stack : Name
  file : List UInt8
  source : Option (List UInt8)

namespace Request

def run (q : Request) : Prog Device CopyResult := writeefs q.stack q.file (q.source.map readsOf)

def name (q : Request) : Name := fileName q.stack (baseName q.file)

def chunks (q : Request) : List Chunk :=
  match q.source with
  | none => []
  | some contents => Efs.chunks (blockTotal contents) contents

/-- The file is not there or has no blocks, and the copy ends with its source or at a
full device. A file that gets no inode, or no name to be found by, takes no blocks. -/
def Lossless (q : Request) (d : Device) : Prop :=
  q.name.Proper ∧ match d.lookup q.name.str with
    | some i => (d.inode i.toNat).size = 0 ∧
        Fits d.freeCount (d.inode i.toNat).indirectData q.chunks.length
    | none => (∀ i, i < 64 → (d.inode i).refs ≠ 0) ∨ 11 < q.name.str.length ∨
        Fits d.freeCount 0 q.chunks.length

theorem whole_chunks (q : Request) : Whole q.chunks := by
  unfold chunks
  split
  · trivial
  · exact Efs.whole_chunks _ _ rfl

end Request

/-- What a request does, in terms of `new_file` and of the rounds after it. -/
theorem Request.run_created {q : Request} {d d1 : Device} (f : Formatted d)
    (made : newFile q.name d = .done 0 d1)
    {r : CopyResult} {d' : Device} (copied : copyLoop q.name (q.chunks.map .bytes) d1 = .done r d') :
    ∃ r, q.run d = .done r d' := by
  rw [run, writeefs_formatted f]
  unfold chunks at copied
  cases opened : q.source with
  | none =>
    rw [opened] at copied
    cases copied
    exact ⟨_, readWrite_unopened made⟩
  | some contents =>
    rw [opened] at copied
    refine ⟨r, ?_⟩
    rw [Option.map_some, readWrite_created made]
    exact copied

theorem Request.run_refused {q : Request} {d : Device} (f : Formatted d)
    (refused : newFile q.name d = .done (-1) d) : ∃ r, q.run d = .done r d :=
  ⟨⟨-1, []⟩, by rw [run, writeefs_formatted f, readWrite_refused refused]⟩

theorem Fits.budget {d : Device} {i n : Nat} (fits : Fits d.freeCount (d.inode i).indirectData n) :
    d.Budget i 0 n := by
  rcases fits.2 with short | poor
  · exact Or.inl (by omega)
  · exact Or.inr (by omega)

/-- The step: a request that meets the condition returns and loses nothing. -/
theorem Request.lossless_step {q : Request} {d : Device} (sound : Sound d) (lossless : q.Lossless d) :
    ∃ r d', q.run d = .done r d' ∧ Sound d' ∧ ∀ m, ¬d.Lost m → ¬d'.Lost m := by
  obtain ⟨proper, condition⟩ := lossless
  obtain ⟨cnt, dir⟩ := sound.directory
  have f := sound.formatted
  -- what remains to be done once an empty file is there and can be found
  have finish : ∀ (i : UInt32) (d1 : Device) (cnt' : Nat), newFile q.name d = .done 0 d1 →
      Created d d1 q.name i → Directory d1 cnt' → d1.lookup q.name.str = some i →
      (d.inode i.toNat).size = 0 → Fits d.freeCount (d.inode i.toNat).indirectData q.chunks.length →
      ∃ r d', q.run d = .done r d' ∧ Sound d' ∧ ∀ m, ¬d.Lost m → ¬d'.Lost m := by
    intro i d1 cnt' made c dir1 listed empty fits
    have sound1 := c.sound dir1 sound
    have referenced := (dir1.lookup_inode proper listed).2.2
    obtain ⟨r, d', copied, copying⟩ := copyLoop_copying proper q.chunks q.whole_chunks sound1 listed
      (Nat.zero_le _) (fun _ => by rw [c.size]; rfl) (c.budget fits.budget)
    obtain ⟨r', run⟩ := run_created f made copied
    refine ⟨r', d', run, (copying.kept sound1 referenced).sound, ?_⟩
    intro m kept
    apply copying.not_lost c.file sound1 referenced c.blocks_self ?_
      (c.not_lost dir sound.owned empty kept)
    intro absent more _ count
    rw [c.indirect] at absent
    rw [c.freeCount] at count
    exact fits.1 ⟨absent, by omega, by omega⟩
  have unlisted : ∀ (i : UInt32) (d1 : Device) (cnt' : Nat), newFile q.name d = .done 0 d1 →
      Created d d1 q.name i → Directory d1 cnt' → d.lookup q.name.str = none →
      11 < q.name.str.length → (d.inode i.toNat).size = 0 →
      ∃ r d', q.run d = .done r d' ∧ Sound d' ∧ ∀ m, ¬d.Lost m → ¬d'.Lost m := by
    intro i d1 cnt' made c dir1 missing long empty
    have hidden : d1.lookup q.name.str = none := by rw [c.kept _ proper.1 (cut_ne long), missing]
    obtain ⟨r, copied⟩ := copyLoop_missing c.formatted dir1 hidden (q.chunks.map .bytes)
    obtain ⟨r', run⟩ := run_created f made copied
    exact ⟨r', d1, run, c.sound dir1 sound, fun m kept => c.not_lost dir sound.owned empty kept⟩
  rcases newFile_cases f dir proper with ⟨missing, refused⟩ | ⟨d1, i, cnt', made, c, dir1⟩
  · obtain ⟨r, run⟩ := run_refused f refused
    exact ⟨r, d, run, sound, fun _ kept => kept⟩
  · rcases c.origin with found | ⟨missing, empty, absent⟩
    · rw [found] at condition
      exact finish i d1 cnt' made c dir1 (c.found proper (Or.inr ⟨i, found⟩)) condition.1 condition.2
    · rw [missing] at condition
      rcases condition with none | long | fits
      · rw [newFile_full f.rooted dir q.name missing none] at made
        cases made
      · exact unlisted i d1 cnt' made c dir1 missing long empty
      · by_cases short : q.name.str.length ≤ 11
        · exact finish i d1 cnt' made c dir1 (c.listed short) empty (by rwa [absent])
        · exact unlisted i d1 cnt' made c dir1 missing (by omega) empty

theorem lost_freshImage {blockCount : UInt32} {disk : Device} (m : Nat) :
    ¬(freshImage blockCount disk).Lost m := by
  rintro ⟨marked, nobody⟩
  refine nobody .root trivial ?_
  rw [bit_freshImage] at marked
  have zero : m = 0 := by simpa using marked
  rw [zero]
  rfl

/-- No block is lost in a history whose runs all meet the condition. -/
theorem lossless_history {blockCount : UInt32} {disk : Device} (lower : 6 ≤ blockCount.toNat)
    (upper : blockCount.toNat ≤ 3941) (fits : blockCount.toNat ≤ disk.count) :
    ∃ image, mkefs blockCount disk = .done 0 image ∧
      ∀ log d, Runs Request.run Request.Lossless image log d →
        Accounted d ∧ ∀ q : Request, q.Lossless d → ∃ r d', q.run d = .done r d' := by
  refine ⟨freshImage blockCount disk, mkefs_done (by omega), ?_⟩
  intro log d runs
  have kept := runs.invariant (fun _ d => Sound d ∧ ∀ m, ¬d.Lost m)
    ⟨sound_freshImage lower upper fits, lost_freshImage⟩ (by
      rintro log s q r t ⟨sound, none⟩ lossless run
      obtain ⟨r', d', run', sound', later⟩ := Request.lossless_step sound lossless
      rw [run'] at run
      cases run
      exact ⟨sound', fun m => later m (none m)⟩)
  refine ⟨(accounted_iff kept.1.formatted).mpr fun m _ => kept.2 m, ?_⟩
  intro q lossless
  obtain ⟨r, d', run, _⟩ := Request.lossless_step kept.1 lossless
  exact ⟨r, d', run⟩

theorem lossless_history_floppy : ∃ image, mkefs 1440 floppy = .done 0 image ∧
    ∀ log d, Runs Request.run Request.Lossless image log d →
      Accounted d ∧ ∀ q : Request, q.Lossless d → ∃ r d', q.run d = .done r d' :=
  lossless_history (by decide) (by decide) (by decide)

/-- Writing a file again that has blocks already loses them, every time. -/
theorem rewrite_loses {d : Device} (sound : Sound d) {job : Job} (regular : job.Regular)
    {i : UInt32} (found : d.lookup job.base = some i) (nonempty : (d.inode i.toNat).size ≠ 0) :
    ∃ r d', job.run d = .done r d' ∧ ¬Accounted d' := by
  have str := regular.name.str job.stack
  have size := regular.size
  have upper := regular.name.upper
  rw [Job.run, writeefs_formatted sound.formatted, readsOf]
  have found' : d.lookup (fileName job.stack (baseName job.file)).str = some i := by
    change d.lookup (fileName job.stack job.base).str = some i
    rw [str, found]
  rcases readWrite_cases sound (regular.name.proper job.stack) (Or.inr ⟨i, found'⟩)
    (whole_chunks _ job.contents rfl)
    (fun _ _ _ => Or.inl (by rw [length_chunks, blockTotal]; omega)) with
    ⟨missing, _⟩ | ⟨j, d1, r, d', c, sound1, referenced, copying, run⟩
  · exfalso
    change d.lookup (fileName job.stack (baseName job.file)).str = none at missing
    rw [found'] at missing
    cases missing
  · refine ⟨r, d', run, ?_⟩
    have same : j = i := by
      rcases c.origin with old | ⟨missing, _⟩
      · change d.lookup (fileName job.stack (baseName job.file)).str = some j at old
        rw [found'] at old
        exact (Option.some.inj old).symm
      · change d.lookup (fileName job.stack (baseName job.file)).str = none at missing
        rw [found'] at missing
        cases missing
    subst same
    have had : 0 < d.blocks j.toNat := by
      have positive : (d.inode j.toNat).size.toNat ≠ 0 :=
        fun zero => nonempty (UInt32.toNat_inj.mp (by rw [zero]; rfl))
      unfold Device.blocks
      omega
    obtain ⟨cnt1, dir1⟩ := sound1.directory
    have lost := copying.lost sound1 referenced (c.lost dir1 sound.owned had)
    have kept := copying.kept sound1 referenced
    have inside : (d.ptr j.toNat 0).toNat < d'.dataCount := by
      rw [kept.dataCount, c.dataCount]
      exact sound.owned.inside (.slot j.toNat 0) ⟨c.file.1, c.file.2, had⟩
    intro accounted
    exact (accounted_iff kept.sound.formatted).mp accounted _ inside lost

/-- One byte under the name `a`. -/
def letter : Request := { stack := Buf.zero, file := [0x61], source := some [0x78] }

def letterJob : Job := { stack := Buf.zero, file := [0x61], contents := [0x78] }

theorem letterJob_succeeds : (match (mkefs 1440 >>= fun _ => letterJob.run) floppy with
    | .done r _ => r.ret
    | _ => -1) = 0 := by
  decide +kernel

/-- Twice the same file. -/
theorem rewrite_loses_letter : ∃ image r d r' d', mkefs 1440 floppy = .done 0 image ∧
    letter.run image = .done r d ∧ letter.run d = .done r' d' ∧ ¬Accounted d' := by
  have made : mkefs 1440 floppy = .done 0 (freshImage 1440 floppy) :=
    mkefs_done (by decide)
  have sound : Sound (freshImage 1440 floppy) := sound_freshImage (by decide) (by decide) (by decide)
  have regular : letterJob.Regular :=
    { name := { lower := by decide, upper := by decide, text := by decide, root := by decide }
      size := by decide }
  have success := letterJob_succeeds
  rw [Prog.bind_done _ made] at success
  rcases Job.run_cases regular sound with ⟨_, run⟩ | ⟨r, d, i, run, w⟩
  · rw [run] at success
    cases success
  · rw [run] at success
    change r.ret = 0 at success
    have size : (d.inode i.toNat).size ≠ 0 := by
      intro zero
      rcases w.ended with ⟨_, contents⟩ | failure
      · rw [Device.content, zero] at contents
        cases contents
      · rw [failure] at success
        cases success
    obtain ⟨r', d', again, unaccounted⟩ := rewrite_loses w.sound regular w.listed size
    exact ⟨_, r, d, r', d', made, run, again, unaccounted⟩

end Sos.Efs
