import Sos.Boot.LoadRun
import Sos.Efs.Integrity
import Sos.Efs.Rootless
import Sos.Efs.Success

/-! The kernels that are loaded in full and without a write to the loader itself. -/

namespace Sos.Boot
open Sos.Lib Sos.Lib.Bytes Sos.Efs

/-- `SS` and `SP` of the first stage: the stack that is still in use ends here. -/
def stackTop : Nat := 0x07C0 * 16 + 0x2000

/-- The second stage with its data and buffers, and the stack behind it. -/
def Reserved (L : Layout) (x : Nat) : Prop :=
  stage2LoadAddr ≤ x ∧ (x < stage2LoadAddr + (L.efsSuperblock.toNat + 1082) ∨ x < stackTop)

/-- The loop ends with the contents in place, and no block has been read to what is reserved. -/
def Loads (L : Layout) (d : Device) (ax : UInt16) (contents : List UInt8) : Prop :=
  ∀ p : Phys, SuperblockLoaded L d p.segment → ∃ fuel offsets p',
    loadKernel L (sectors d) fuel ax p = some (offsets, p') ∧
    (∀ k (h : k < contents.length), p' (kernelAddress + k) = contents[k]) ∧
    ∀ bx ∈ offsets, ∀ x, kernelAddress + bx.toNat ≤ x → x < kernelAddress + bx.toNat + 1024 →
      ¬Reserved L x

section
variable {L : Layout} {d : Device} {i : Nat} (f : Formatted d) (own : Owned d) (file : 1 ≤ i ∧ i < 64)
  {contents : List UInt8} (holds : d.content i = contents)
include f own file holds

omit f own file in
theorem size_content : (d.inode i).size.toNat = contents.length := by
  rw [← holds]
  simp [Device.content]

omit f own file in
theorem byte_content {k : Nat} (inside : k < contents.length) :
    contents[k] = (d.data (d.ptr i (k / 1024)).toNat).byte (k % 1024) := by
  subst holds
  simp [Device.content]

theorem loads_short (short : contents.length < 34 * 1024) : Loads L d (UInt16.ofNat i) contents := by
  have size := size_content holds
  have base : kernelAddress = 0x500 := rfl
  have stage2 : stage2LoadAddr = 0x9000 := rfl
  intro p super
  obtain ⟨m, begin_, loading⟩ := loadKernel_loading f file p super
  rw [lastBlockOf, size] at loading
  obtain ⟨p', final, run⟩ := loading.run f own file (Nat.zero_add _) (by omega)
  have ends := run (contents.length % 65536 / 1024 + 1)
  rw [if_pos (by omega)] at ends
  refine ⟨_, _, p', (begin_ _).trans ends, ?_, ?_⟩
  · intro k inside
    rw [byte_content holds inside]
    exact final.blocks k (by omega) (by unfold Device.blocks; omega)
  · intro bx member x above below reserved
    obtain ⟨j, listed, rfl⟩ := List.mem_map.mp member
    have bound := (List.mem_range'_1.mp listed).2
    have low := reserved.1
    rw [UInt16.toNat_ofNat'] at below
    omega

/-- From 34 blocks on the loader overwrites itself, or, where the low half of the size is
small again, it leaves bytes out. -/
theorem not_loads_long (long : 34 * 1024 ≤ contents.length) : ¬Loads L d (UInt16.ofNat i) contents := by
  have size := size_content holds
  have base : kernelAddress = 0x500 := rfl
  have stage2 : stage2LoadAddr = 0x9000 := rfl
  intro loads
  -- memory that differs from the contents behind the 34th block
  obtain ⟨p, super, other⟩ : ∃ p : Phys, SuperblockLoaded L d p.segment ∧
      p (kernelAddress + 34816) ≠ contents.getD 34816 0 := by
    refine ⟨Phys.withSegment (fun _ => contents.getD 34816 0 + 1)
      (readSector (sectors d) 1 L.efsSuperblock fun _ => 0), ?_, ?_⟩
    · rw [Phys.segment_withSegment]
      exact superblockLoaded_readSector L d _
    · rw [Phys.withSegment_below _ _ (by omega)]
      intro same
      have value := congrArg UInt8.toNat same
      have bound := (contents.getD 34816 0).toNat_lt
      rw [UInt8.toNat_add] at value
      simp only [UInt8.reduceToNat] at value
      omega
  obtain ⟨fuel, offsets, p', ends, bytes, writes⟩ := loads p super
  obtain ⟨m, begin_, loading⟩ := loadKernel_loading f file p super
  rw [lastBlockOf, size] at loading
  rw [begin_] at ends
  by_cases past : 34 ≤ contents.length % 65536 / 1024
  · have member := loading.past f own file (by omega) past (by omega) ends
    refine writes _ member stage2LoadAddr ?_ ?_ ⟨le_rfl, Or.inr (by decide)⟩ <;>
      rw [UInt16.toNat_ofNat'] <;> omega
  · obtain ⟨p'', final, run⟩ := loading.run f own file (Nat.zero_add _) (by omega)
    have whole := (run fuel).symm.trans ends
    split at whole
    · cases whole
      have inside : 34816 < contents.length := by omega
      have unread : 1024 * (contents.length % 65536 / 1024 + 1) ≤ 34816 := by omega
      have kept := final.rest (kernelAddress + 34816) (Nat.add_le_add_left unread _) (by decide)
      have wanted := bytes 34816 inside
      rw [List.getD_eq_getElem _ _ inside, ← wanted] at other
      exact other kept.symm
    · cases whole

theorem loads_iff : Loads L d (UInt16.ofNat i) contents ↔ contents.length < 34 * 1024 := by
  constructor
  · intro loads
    by_contra long
    exact not_loads_long f own file holds (by omega) loads
  · exact loads_short f own file holds

end

/-- Of the files that the library stores, the loader loads those of less than 34 blocks. -/
theorem loadKernel_loads_iff {blockCount : UInt32} {disk image : Device} (upper : blockCount.toNat ≤ 3941)
    (fits : blockCount.toNat ≤ disk.count) (small : blockCount.toNat < 6 → disk.count = blockCount.toNat)
    (made : mkefs blockCount disk = .done 0 image) {log : Log} {d : Device} (runs : Histories image log d)
    {filename : Name} (proper : filename.Proper) {i : UInt32} {inode : Inode} {contents : List UInt8}
    (found : findFile filename d = .done (some i) d) (read : getInode i d = .done (some inode) d)
    (holds : d.Holds inode contents) (L : Layout) :
    Loads L d i.toUInt16 contents ↔ contents.length < 34 * 1024 := by
  by_cases enough : 6 ≤ blockCount.toNat
  · rw [mkefs_done (by omega)] at made
    cases made
    have sound := ((stored_freshImage enough upper fits).of_history runs).sound
    obtain ⟨cnt, dir⟩ := sound.directory
    have f := sound.formatted
    rw [findFile_done f.rooted dir] at found
    injection found with found
    have file := dir.lookup_inode proper found
    rw [getInode_done f.rooted i file.2.1.le] at read
    cases read
    rw [← UInt16.ofNat_uInt32ToNat]
    exact loads_iff f sound.owned ⟨file.1, file.2.1⟩ ((Device.holds_iff f i.toNat contents).mp holds)
  · have rootless := mkefs_rootless (by omega) (small (by omega)) made
    rw [rootless.history runs, rootless.findFile_none] at found
    cases found

/-- `writeefs` of a default kernel with these bytes. -/
def kernelJob (contents : List UInt8) : Job := ⟨Buf.zero, defaultKernelFile, contents⟩

theorem regular_kernelJob {contents : List UInt8} (size : contents.length ≤ 257 * 1024) :
    (kernelJob contents).Regular :=
  ⟨shortName_defaultKernelFile, size⟩

/-- A floppy disk with such a kernel. -/
theorem kernelJob_stored (contents : List UInt8) (size : contents.length ≤ 257 * 1024) :
    ∃ image log d i inode, mkefs 1440 floppy = .done 0 image ∧ Histories image log d ∧
      findFile defaultKernel d = .done (some i) d ∧ getInode i d = .done (some inode) d ∧
      d.Holds inode contents ∧ 1 ≤ i.toNat ∧ i.toNat < 64 ∧ Stored log d := by
  have stored : Stored [] (freshImage 1440 floppy) :=
    stored_freshImage (by decide) (by decide) (by decide)
  have regular := regular_kernelJob size
  have free : (freshImage 1440 floppy).freeCount = 1434 := freeCount_freshImage (by decide)
  obtain ⟨r, d, i, run, w, success⟩ := Job.run_succeeds regular stored.sound
    ⟨1, by omega, by rw [inode_freshImage _ _ _ (by omega)]; decide⟩ (by
      change blockTotal contents + 1 ≤ _
      rw [free, blockTotal]
      omega)
  have runs : Histories (freshImage 1440 floppy) [(kernelJob contents, r)] d := Runs.nil.call regular run
  obtain ⟨cnt, dir⟩ := w.sound.directory
  have f := w.sound.formatted
  refine ⟨_, _, d, i, d.inode i.toNat, mkefs_done (by decide), runs, ?_,
    getInode_done f.rooted i w.file.2.le, ?_, w.file.1, w.file.2, stored.of_history runs⟩
  · have str : defaultKernel.str = baseName defaultKernelFile := by decide
    rw [findFile_done f.rooted dir, str]
    exact congrArg (fun found => Outcome.done found d) w.listed
  · rw [Device.holds_iff f]
    rcases w.ended with ⟨_, same⟩ | failure
    · exact same
    · rw [failure] at success
      cases success

/-- A kernel of a single `hlt`. -/
theorem loadKernel_loads_halt : ∃ d i, findFile defaultKernel d = .done (some i) d ∧
    ∀ L, Loads L d i.toUInt16 [0xF4] := by
  obtain ⟨image, log, d, i, inode, made, runs, found, read, holds, _⟩ :=
    kernelJob_stored [0xF4] (by decide)
  refine ⟨d, i, found, fun L => ?_⟩
  have proper : defaultKernel.Proper := ⟨by decide, by decide⟩
  exact (loadKernel_loads_iff (by decide) (by decide) (by decide) made runs proper found read holds L).mpr
    (by decide)

/-- 34 blocks of `nop`, well below what the file system allows. -/
theorem loadKernel_overruns : ∃ image log d i inode contents, mkefs 1440 floppy = .done 0 image ∧
    Histories image log d ∧ findFile defaultKernel d = .done (some i) d ∧
    getInode i d = .done (some inode) d ∧ d.Holds inode contents ∧ contents.length ≤ 257 * 1024 ∧
    ∀ L, ¬Loads L d i.toUInt16 contents := by
  have size : (List.replicate 34816 (0x90 : UInt8)).length = 34816 := List.length_replicate
  obtain ⟨image, log, d, i, inode, made, runs, found, read, holds, lower, upper, stored⟩ :=
    kernelJob_stored (List.replicate 34816 0x90) (by omega)
  refine ⟨image, log, d, i, inode, _, made, runs, found, read, holds, by omega, ?_⟩
  intro L
  have f := stored.sound.formatted
  rw [getInode_done f.rooted i upper.le] at read
  cases read
  rw [← UInt16.ofNat_uInt32ToNat]
  exact not_loads_long f stored.sound.owned ⟨lower, upper⟩ ((Device.holds_iff f i.toNat _).mp holds) (by omega)

end Sos.Boot
