import Sos.Efs.Job

/-! Any number of runs after `mkefs`: every file has what its last run gave it. -/

namespace Sos.Efs
open Sos.Lib Sos.Lib.Bytes

abbrev Log := List (Job × CopyResult)

/-- The last run for a name. -/
def latest (log : Log) (base : List UInt8) : Option (Job × CopyResult) :=
  log.find? fun p => p.1.base = base

theorem latest_base {log : Log} {base : List UInt8} {p : Job × CopyResult}
    (last : latest log base = some p) : p.1.base = base := by
  simpa using List.find?_some last

theorem latest_self (log : Log) (job : Job) (r : CopyResult) :
    latest ((job, r) :: log) job.base = some (job, r) := by
  simp [latest]

theorem latest_other (log : Log) (job : Job) (r : CopyResult) {base : List UInt8}
    (differ : base ≠ job.base) : latest ((job, r) :: log) base = latest log base := by
  simp [latest, differ.symm]

/-- The file of a name is the one its last run wrote. -/
def Current (d : Device) (base : List UInt8) (job : Job) (r : CopyResult) : Prop :=
  (r = ⟨-1, []⟩ ∧ d.lookup base = none) ∨
  ∃ i, d.lookup base = some i ∧ d.blocks i.toNat = r.blocks.length ∧
    (∀ k v, r.blocks[k]? = some v → v = d.ptr i.toNat k + 5) ∧
    (r.ret = 0 → d.content i.toNat = job.contents)

structure Stored (log : Log) (d : Device) : Prop where
  sound : Sound d
  regular : ∀ p, p ∈ log → p.1.Regular
  current : ∀ base job r, latest log base = some (job, r) → Current d base job r
  named : ∀ i, 1 ≤ i → i < 64 → (d.inode i).size ≠ 0 →
    ∃ base p v, latest log base = some p ∧ d.lookup base = some v ∧ v.toNat = i

theorem Stored.short {log : Log} {d : Device} (stored : Stored log d) {base : List UInt8}
    {p : Job × CopyResult} (last : latest log base = some p) : ShortName base := by
  rw [← latest_base last]
  exact (stored.regular p (List.mem_of_find?_eq_some last)).name

namespace Written
variable {d d' : Device} {job : Job} {r : CopyResult} {i : UInt32} (w : Written d d' job r i)
include w

/-- Another name in the directory has another inode. -/
theorem apart (short : ShortName job.base) {base : List UInt8} (other : ShortName base)
    (differ : base ≠ job.base) {j : UInt32} (found : d.lookup base = some j) :
    1 ≤ j.toNat ∧ j.toNat < 64 ∧ j.toNat ≠ i.toNat := by
  obtain ⟨cnt, dir⟩ := w.sound.directory
  have now : d'.lookup base = some j := by rw [w.kept base other.nonempty differ, found]
  rw [← other.str job.stack] at now
  have bounds := dir.lookup_inode (other.proper job.stack) now
  have listed := w.listed
  rw [← short.str job.stack] at listed
  refine ⟨bounds.1, bounds.2.1, dir.lookup_injective (other.proper job.stack)
    (short.proper job.stack) now listed ?_⟩
  rwa [other.str job.stack, short.str job.stack]

theorem current_other (short : ShortName job.base) {base : List UInt8} (other : ShortName base)
    (differ : base ≠ job.base) {job' : Job} {r' : CopyResult} (current : Current d base job' r') :
    Current d' base job' r' := by
  rcases current with ⟨refused, missing⟩ | ⟨j, found, blocks, placed, contents⟩
  · exact Or.inl ⟨refused, by rw [w.kept base other.nonempty differ, missing]⟩
  · right
    obtain ⟨lower, upper, distinct⟩ := w.apart short other differ found
    have blocks' : d'.blocks j.toNat = d.blocks j.toNat := by
      unfold Device.blocks
      rw [w.others _ lower upper distinct]
    refine ⟨j, by rw [w.kept base other.nonempty differ, found], by rw [blocks', blocks], ?_, ?_⟩
    · intro k v at_
      have inside : k < d.blocks j.toNat := by
        rw [blocks]
        exact (List.getElem?_eq_some_iff.mp at_).1
      rw [w.ptrs _ k lower upper distinct inside]
      exact placed k v at_
    · intro success
      rw [w.contents _ lower upper distinct, contents success]

end Written

/-- One more run. -/
theorem Stored.step {log : Log} {d : Device} (stored : Stored log d) {job : Job}
    (regular : job.Regular) {r : CopyResult} {d' : Device} (run : job.run d = .done r d') :
    Stored ((job, r) :: log) d' := by
  have regulars : ∀ p, p ∈ (job, r) :: log → p.1.Regular := by
    intro p member
    rcases List.mem_cons.mp member with rfl | old
    · exact regular
    · exact stored.regular p old
  rcases Job.run_cases regular stored.sound with ⟨missing, refused⟩ | ⟨r₁, d₁, i, written, w⟩
  · rw [refused] at run
    cases run
    refine ⟨stored.sound, regulars, ?_, ?_⟩
    · intro base job' r' last
      by_cases same : base = job.base
      · subst same
        rw [latest_self] at last
        cases last
        exact Or.inl ⟨rfl, missing⟩
      · rw [latest_other _ _ _ same] at last
        exact stored.current base job' r' last
    · intro i lower upper nonzero
      obtain ⟨base, p, v, last, found, value⟩ := stored.named i lower upper nonzero
      refine ⟨base, p, v, ?_, found, value⟩
      rw [latest_other, last]
      rintro rfl
      rw [missing] at found
      cases found
  · rw [written] at run
    cases run
    refine ⟨w.sound, regulars, ?_, ?_⟩
    · intro base job' r' last
      by_cases same : base = job.base
      · subst same
        rw [latest_self] at last
        cases last
        refine Or.inr ⟨i, w.listed, w.blocks, w.placed, ?_⟩
        intro success
        rcases w.ended with ⟨_, contents⟩ | failure
        · exact contents
        · rw [success] at failure
          cases failure
      · rw [latest_other _ _ _ same] at last
        exact w.current_other regular.name (stored.short last) same (stored.current base job' r' last)
    · intro j lower upper nonzero
      by_cases self : j = i.toNat
      · exact ⟨job.base, (job, r), i, latest_self log job r, w.listed, self.symm⟩
      · rw [w.others j lower upper self] at nonzero
        obtain ⟨base, p, v, last, found, value⟩ := stored.named j lower upper nonzero
        have differ : base ≠ job.base := by
          rintro rfl
          rw [w.origin v found] at value
          exact self value.symm
        exact ⟨base, p, v, by rw [latest_other _ _ _ differ, last],
          by rw [w.kept base (stored.short last).nonempty differ, found], value⟩

theorem stored_freshImage {blockCount : UInt32} {disk : Device} (lower : 6 ≤ blockCount.toNat)
    (upper : blockCount.toNat ≤ 3941) (fits : blockCount.toNat ≤ disk.count) :
    Stored [] (freshImage blockCount disk) where
  sound := sound_freshImage lower upper fits
  regular := by simp
  current := by simp [latest]
  named := by
    intro i low high nonzero
    rw [inode_freshImage _ _ _ high, if_neg (by omega)] at nonzero
    exact absurd rfl nonzero

/-- Runs of `writeefs` on regular files. -/
abbrev Histories : Device → Log → Device → Prop := Runs Job.run fun job _ => job.Regular

theorem Stored.of_history {image : Device} (init : Stored [] image) {log : Log} {d : Device}
    (runs : Histories image log d) : Stored log d :=
  runs.invariant Stored init fun _ _ _ _ _ stored regular run => stored.step regular run

namespace Device

/-- The block of the device that data block `n` is. -/
def real (d : Device) (n : UInt32) : Block := d.block (d.sb.dataOffset.toNat + n.toNat)

/-- The pointer to block `k` of a file. -/
def filePtr (d : Device) (inode : Inode) (k : Nat) : UInt32 :=
  if k ≤ 4 then inode.direct k else (d.real inode.indirectData).word (4 * (k - 5))

/-- The bytes of a file, one by one. -/
def Holds (d : Device) (inode : Inode) (contents : List UInt8) : Prop :=
  inode.size.toNat = contents.length ∧ ∀ k (h : k < contents.length),
    (d.real (d.filePtr inode (k / 1024))).byte (k % 1024) = contents[k]

theorem real_eq {d : Device} (f : Formatted d) (n : UInt32) : d.real n = d.data n.toNat := by
  rw [real, f.dataOffset, data, Nat.add_comm]
  rfl

theorem filePtr_eq {d : Device} (f : Formatted d) (i k : Nat) : d.filePtr (d.inode i) k = d.ptr i k := by
  unfold filePtr ptr
  rw [real_eq f]
  by_cases direct : k ≤ 4
  · rw [if_pos direct, if_pos (by omega)]
  · rw [if_neg direct, if_neg (by omega)]

theorem holds_iff {d : Device} (f : Formatted d) (i : Nat) (contents : List UInt8) :
    d.Holds (d.inode i) contents ↔ d.content i = contents := by
  have byte : ∀ k, (d.real (d.filePtr (d.inode i) (k / 1024))).byte (k % 1024) =
      (d.data (d.ptr i (k / 1024)).toNat).byte (k % 1024) := by
    intro k
    rw [real_eq f, filePtr_eq f]
  constructor
  · rintro ⟨size, bytes⟩
    apply List.ext_getElem
    · simp [content, size]
    · intro k left right
      simp only [content, List.getElem_map, List.getElem_range]
      rw [← bytes k right, byte]
  · rintro rfl
    refine ⟨by simp [content], ?_⟩
    intro k inside
    simp only [byte, content, List.getElem_map, List.getElem_range]

end Device

end Sos.Efs
