import Sos.Efs.History
import Sos.Efs.Lost

/-! With an inode and enough blocks left a run comes to the end of its source. -/

namespace Sos.Efs
open Sos.Lib Sos.Lib.Bytes

theorem Device.Full.freeCount {d : Device} (full : d.Full) : d.freeCount = 0 := by
  rw [Device.freeCount, Finset.card_eq_zero, Finset.filter_eq_empty_iff]
  intro m inside
  rw [full m (Finset.mem_range.mp inside)]
  simp

/-- A block for every chunk, and one for the pointers where there is none yet. -/
theorem Copying.succeeds {i k : Nat} {d d' : Device} {chunks : List Chunk} {r : CopyResult}
    (copying : Copying i k d chunks r d') (f : Formatted d)
    (enough : chunks.length + (if (d.inode i).indirectData = 0 then 1 else 0) ≤ d.freeCount) :
    r.ret = 0 := by
  induction copying with
  | finished k d => rfl
  | full k d c cs full =>
    rw [full.freeCount] at enough
    simp at enough
  | stuck k d c cs b inside free full high absent =>
    have bound := f.dataCount
    rw [Device.freeCount_one (by omega) inside free full, if_pos absent] at enough
    simp at enough
  | round k d d₁ d₂ c cs b t r grown direct some_ rest ih =>
    apply ih grown.formatted
    have count := grown.freeCount
    rw [List.length_cons] at enough
    cases taken : t with
    | none =>
      rw [if_pos taken] at count
      rw [grown.kept taken]
      omega
    | some x =>
      obtain ⟨high, absent, _⟩ := grown.taken x taken
      rw [if_neg (by simp [taken])] at count
      rw [if_pos absent] at enough
      rw [if_neg (grown.used high)]
      omega

theorem Job.run_succeeds {job : Job} (regular : job.Regular) {d : Device} (sound : Sound d)
    (free : ∃ m, m < 64 ∧ (d.inode m).refs = 0) (enough : blockTotal job.contents + 1 ≤ d.freeCount) :
    ∃ r d' i, job.run d = .done r d' ∧ Written d d' job r i ∧ r.ret = 0 := by
  obtain ⟨cnt, dir⟩ := sound.directory
  have f := sound.formatted
  have proper := regular.name.proper job.stack
  have str := regular.name.str job.stack
  have total : (chunks (blockTotal job.contents) job.contents).length = blockTotal job.contents :=
    length_chunks _ _
  have size := regular.size
  obtain ⟨i, bound, unused, least⟩ := firstFree (d := d) (by simpa using free)
  rcases newFile_cases f dir proper with ⟨missing, refused⟩ | ⟨d₁, j, cnt', made, c, dir'⟩
  · rw [newFile_fresh f.rooted dir _ missing bound unused least] at refused
    cases refused
  · have listed := c.found proper (Or.inl (by rw [str]; have := regular.name.upper; omega))
    have sound₁ := c.sound dir' sound
    obtain ⟨r, d', run, copying⟩ := copyLoop_copying proper _ (whole_chunks _ job.contents rfl) sound₁ listed
      (Nat.zero_le _) (fun _ => by rw [c.size]; rfl) (Or.inl (by rw [total, blockTotal]; omega))
    have success := copying.succeeds c.formatted (by
      rw [total, c.freeCount]
      split <;> omega)
    have done : job.run d = .done r d' := by
      rw [Job.run, writeefs_formatted f, readsOf]
      exact (readWrite_created made _).trans run
    rcases Job.run_cases regular sound with ⟨_, refused⟩ | ⟨r', d'', i, run', w⟩
    · rw [done] at refused
      cases refused
      cases success
    · rw [done] at run'
      cases run'
      exact ⟨r, d', i, done, w, success⟩

theorem freeCount_freshImage {blockCount : UInt32} {disk : Device} (lower : 6 ≤ blockCount.toNat) :
    (freshImage blockCount disk).freeCount = blockCount.toNat - 6 := by
  have count : (freshImage blockCount disk).dataCount = blockCount.toNat - 5 := by
    rw [Device.dataCount, sb_freshImage]
    change (blockCount - 5).toNat = _
    rw [UInt32.toNat_sub_of_le _ _ (by rw [UInt32.le_iff_toNat_le]; simp; omega)]
    rfl
  have free : ((Finset.range (blockCount.toNat - 5)).filter fun m => (freshImage blockCount disk).bit m = false) =
      (Finset.range (blockCount.toNat - 5)).erase 0 := by
    ext m
    rw [Finset.mem_filter, Finset.mem_erase, bit_freshImage, decide_eq_false_iff_not]
    exact And.comm
  rw [Device.freeCount, count, free, Finset.card_erase_of_mem (by simp; omega), Finset.card_range]
  omega

end Sos.Efs
