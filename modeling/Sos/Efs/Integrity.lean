import Sos.Efs.History

/-! What a user of the two tools is promised: a file that was stored is read back, no
other file is touched, and no block belongs to two owners. -/

namespace Sos.Efs
open Sos.Lib Sos.Lib.Bytes

/-- A name whose last run came to the end of its source has the bytes of that source. -/
def Faithful (log : Log) (d : Device) : Prop :=
  ∀ base job r, latest log base = some (job, r) → r.ret = 0 → ∀ stack, ∃ i inode,
    findFile (fileName stack base) d = .done (some i) d ∧ getInode i d = .done (some inode) d ∧
      d.Holds inode job.contents

/-- A name is found with the same file in both images, or in neither. -/
def SameFile (d d' : Device) (filename : Name) : Prop :=
  (findFile filename d = .done none d ∧ findFile filename d' = .done none d') ∨
  ∃ i inode inode', findFile filename d = .done (some i) d ∧ findFile filename d' = .done (some i) d' ∧
    getInode i d = .done (some inode) d ∧ getInode i d' = .done (some inode') d' ∧
    inode'.size = inode.size ∧ ∀ contents, d'.Holds inode' contents ↔ d.Holds inode contents

/-- A run returns, and no other name notices. -/
def Undisturbing (d : Device) (job : Job) : Prop :=
  ∃ r d', job.run d = .done r d' ∧ (r.ret = 0 ∨ r.ret = -1) ∧
    ∀ base stack, ShortName base → base ≠ job.base → SameFile d d' (fileName stack base)

theorem Stored.faithful {log : Log} {d : Device} (stored : Stored log d) : Faithful log d := by
  intro base job r last success stack
  have short := stored.short last
  obtain ⟨cnt, dir⟩ := stored.sound.directory
  have f := stored.sound.formatted
  rcases stored.current base job r last with ⟨refused, _⟩ | ⟨i, found, _, _, contents⟩
  · rw [refused] at success
    cases success
  · rw [← short.str stack] at found
    have upper := (dir.lookup_inode (short.proper stack) found).2.1
    refine ⟨i, d.inode i.toNat, ?_, getInode_done f.rooted i upper.le, ?_⟩
    · rw [findFile_done f.rooted dir, found]
    · exact (Device.holds_iff f i.toNat _).mpr (contents success)

theorem Written.sameFile {d d' : Device} {job : Job} {r : CopyResult} {i : UInt32} (sound : Sound d)
    (w : Written d d' job r i) (regular : job.Regular) {base : List UInt8} (stack : Name)
    (short : ShortName base) (differ : base ≠ job.base) : SameFile d d' (fileName stack base) := by
  obtain ⟨cnt, dir⟩ := sound.directory
  obtain ⟨cnt', dir'⟩ := w.sound.directory
  have f := sound.formatted
  have f' := w.sound.formatted
  have search := findFile_done f.rooted dir (fileName stack base)
  have search' := findFile_done f'.rooted dir' (fileName stack base)
  rw [short.str stack] at search search'
  rw [w.kept base short.nonempty differ] at search'
  cases found : d.lookup base with
  | none =>
    rw [found] at search search'
    exact Or.inl ⟨search, search'⟩
  | some j =>
    rw [found] at search search'
    obtain ⟨lower, upper, apart⟩ := w.apart regular.name short differ found
    refine Or.inr ⟨j, d.inode j.toNat, d'.inode j.toNat, search, search', getInode_done f.rooted j upper.le,
      getInode_done f'.rooted j upper.le, by rw [w.others _ lower upper apart], ?_⟩
    intro contents
    rw [Device.holds_iff f, Device.holds_iff f', w.contents _ lower upper apart]

theorem Sound.undisturbing {d : Device} (sound : Sound d) {job : Job} (regular : job.Regular) :
    Undisturbing d job := by
  rcases Job.run_cases regular sound with ⟨_, refused⟩ | ⟨r, d', i, run, w⟩
  · refine ⟨_, d, refused, Or.inr rfl, ?_⟩
    intro base stack short _
    obtain ⟨cnt, dir⟩ := sound.directory
    have f := sound.formatted
    have search := findFile_done f.rooted dir (fileName stack base)
    cases found : d.lookup (fileName stack base).str with
    | none =>
      rw [found] at search
      exact Or.inl ⟨search, search⟩
    | some j =>
      rw [found] at search
      have upper := (dir.lookup_inode (short.proper stack) found).2.1
      exact Or.inr ⟨j, _, _, search, search, getInode_done f.rooted j upper.le, getInode_done f.rooted j upper.le, rfl,
        fun _ => Iff.rfl⟩
  · refine ⟨r, d', run, ?_, fun base stack short differ => w.sameFile sound regular stack short differ⟩
    rcases w.ended with ⟨success, _⟩ | failure
    · exact Or.inl success
    · exact Or.inr failure

/-- The file system stores what it is given, over any history of runs. -/
theorem history_stores {blockCount : UInt32} {disk : Device} (lower : 6 ≤ blockCount.toNat)
    (upper : blockCount.toNat ≤ 3941) (fits : blockCount.toNat ≤ disk.count) :
    ∃ image, mkefs blockCount disk = .done 0 image ∧ ∀ log d, Histories image log d →
      Faithful log d ∧ ∀ job : Job, job.Regular → Undisturbing d job := by
  refine ⟨freshImage blockCount disk, mkefs_done (by omega), ?_⟩
  intro log d runs
  have stored := (stored_freshImage lower upper fits).of_history runs
  exact ⟨stored.faithful, fun job regular => stored.sound.undisturbing regular⟩

/-- A floppy disk that was never written. -/
def floppy : Device := { count := 1440, block := fun _ => Buf.zero }

theorem formatted_floppy : Formatted (freshImage 1440 floppy) := by
  have sound : Sound (freshImage 1440 floppy) := sound_freshImage (by decide) (by decide) (by decide)
  exact sound.formatted

theorem history_stores_floppy : ∃ image, mkefs 1440 floppy = .done 0 image ∧
    ∀ log d, Histories image log d →
      Faithful log d ∧ ∀ job : Job, job.Regular → Undisturbing d job :=
  history_stores (by decide) (by decide) (by decide)

/-- Every owner has a data block of its own, and `check_block` finds it marked. -/
structure Exclusive (d : Device) : Prop where
  unique : ∀ a b : Ref, a.Live d → b.Live d → a.target d = b.target d → a = b
  inside : ∀ a : Ref, a.Live d → a.target d < d.sb.dataCount.toNat
  marked : ∀ a : Ref, a.Live d → checkBlock (UInt32.ofNat (a.target d)) d = .done 1 d

theorem Sound.exclusive {d : Device} (sound : Sound d) : Exclusive d where
  unique := sound.owned.unique
  inside := sound.owned.inside
  marked := by
    intro a live
    have f := sound.formatted
    have inside := sound.owned.inside a live
    have bound := f.dataCount
    have number : (UInt32.ofNat (a.target d)).toNat = a.target d := by
      rw [UInt32.toNat_ofNat']
      omega
    rw [checkBlock_done f.some_ _ (by omega), number, sound.owned.marked a live]
    rfl

/-- No block is owned twice, over any history of runs. -/
theorem history_exclusive {blockCount : UInt32} {disk : Device} (lower : 6 ≤ blockCount.toNat)
    (upper : blockCount.toNat ≤ 3941) (fits : blockCount.toNat ≤ disk.count) :
    ∃ image, mkefs blockCount disk = .done 0 image ∧ ∀ log d, Histories image log d →
      Exclusive d := by
  refine ⟨freshImage blockCount disk, mkefs_done (by omega), ?_⟩
  intro log d runs
  exact ((stored_freshImage lower upper fits).of_history runs).sound.exclusive

theorem history_exclusive_floppy : ∃ image, mkefs 1440 floppy = .done 0 image ∧
    ∀ log d, Histories image log d → Exclusive d :=
  history_exclusive (by decide) (by decide) (by decide)

theorem dataCount_five : (match mkefs 5 floppy with
    | .done _ image => image.sb.dataCount
    | _ => 1) = 0 := by
  decide +kernel

/-- With five blocks the root directory's is past the last data block. -/
theorem history_exclusive_five : ∃ r image, mkefs 5 floppy = .done r image ∧
    Histories image [] image ∧ ¬Exclusive image := by
  have count := dataCount_five
  cases made : mkefs 5 floppy with
  | done r image =>
    rw [made] at count
    change image.sb.dataCount = 0 at count
    refine ⟨r, image, rfl, .nil, ?_⟩
    intro exclusive
    have inside := exclusive.inside .root trivial
    rw [count] at inside
    exact absurd inside (Nat.not_lt_zero _)
  | exit image =>
    rw [made] at count
    cases count
  | fault =>
    rw [made] at count
    cases count
  | timeout =>
    rw [made] at count
    cases count

end Sos.Efs
