import Sos.Kernel.Mapping
import Sos.Kernel.Teardown

/-! `alloc_addr_space` when frames run out. The loops that count down to give frames back have
no end; only a failure at the directory, before either list is used, is undone. -/

namespace Sos.Kernel
open Sos.Lib Machine

/-- A failed call has left nothing behind, and has written to nothing but the heap's own words. -/
structure Undone {R : Region} (s : Machine) (h : Heap R) (t : Machine) : Prop where
  frames : t.frameMap = s.frameMap
  blocks : ∃ h' : Heap R, Hosts t h' ∧ h'.used.Perm h.used
  outside : ∀ x : UInt32, x.toNat < R.base.toNat ∨ R.hi ≤ x.toNat → t.mem x = s.mem x
  live : ∀ d, d ∈ h.used → ∀ x, d.Has x → t.mem x = s.mem x

/-- Where there are too few frames, `alloc_addr_space` reports it and leaves all as it was. -/
def AllOrNothing {R : Region} (fuel : Nat) (s : Machine) (h : Heap R) (size : UInt32) : Prop :=
  (freeList s).length < 1 + numPts size + numFrames size →
    ∃ as t, allocAddrSpace goOn fuel size s = .done (retFailure, as) t ∧ Undone s h t

section
variable {unheld : Prog Machine Unit}

/-- The index is never below zero. -/
theorem freeDown_endless (list : UInt32) (fuel : Nat) (i : UInt32) (s t : Machine) :
    freeDown unheld list fuel i s ≠ .done () t := by
  induction fuel generalizing i s with
  | zero =>
    intro run
    cases run
  | succ fuel ih =>
    intro run
    rw [freeDown] at run
    obtain ⟨_, u, -, run⟩ := Prog.of_bind_done run
    obtain ⟨_, v, -, run⟩ := Prog.of_bind_done run
    exact ih (i - 1) v run

/-- Without a frame for a page the routine does not come back. -/
theorem fillTable_stuck {fuel left : Nat} {as : AddrSpace} {i j p : UInt32} {s t : Machine} :
    fillTable unheld fuel as i left j p s ≠ .done none t := by
  induction left generalizing j p s with
  | zero =>
    intro run
    cases run
  | succ left ih =>
    intro run
    by_cases wanted : p = 0
    · rw [fillTable, if_pos wanted] at run
      cases run
    · rw [fillTable, if_neg wanted] at run
      obtain ⟨⟨error, frame⟩, u, -, run⟩ := Prog.of_bind_done run
      simp only [] at run
      obtain ⟨_, v, -, run⟩ := Prog.of_bind_done run
      cases error with
      | true =>
        simp only [if_true] at run
        obtain ⟨_, _, -, run⟩ := Prog.of_bind_done run
        obtain ⟨⟨⟩, w, down, -⟩ := Prog.of_bind_done run
        exact freeDown_endless as.frames fuel (j - 1) _ w down
      | false =>
        simp only [Bool.false_eq_true, if_false] at run
        obtain ⟨_, _, -, run⟩ := Prog.of_bind_done run
        obtain ⟨_, _, -, run⟩ := Prog.of_bind_done run
        obtain ⟨_, _, -, run⟩ := Prog.of_bind_done run
        exact ih run

/-- Nor without one for a page table. -/
theorem fillTables_stuck {fuel left : Nat} {as : AddrSpace} {i p : UInt32} {s t : Machine} :
    fillTables unheld fuel as left i p s ≠ .done false t := by
  induction left generalizing i p s with
  | zero =>
    intro run
    cases run
  | succ left ih =>
    intro run
    rw [fillTables] at run
    obtain ⟨⟨error, table⟩, u, -, run⟩ := Prog.of_bind_done run
    simp only [] at run
    obtain ⟨_, v, -, run⟩ := Prog.of_bind_done run
    cases error with
    | true =>
      simp only [if_true] at run
      obtain ⟨_, _, -, run⟩ := Prog.of_bind_done run
      obtain ⟨_, _, -, run⟩ := Prog.of_bind_done run
      obtain ⟨⟨⟩, w, down, -⟩ := Prog.of_bind_done run
      exact freeDown_endless as.pts fuel (i - 1) _ w down
    | false =>
      simp only [Bool.false_eq_true, if_false] at run
      obtain ⟨rest, w, table, run⟩ := Prog.of_bind_done run
      cases rest with
      | none => exact fillTable_stuck table
      | some r =>
        simp only [] at run
        obtain ⟨_, _, -, run⟩ := Prog.of_bind_done run
        obtain ⟨_, _, -, run⟩ := Prog.of_bind_done run
        exact ih run

/-- A reported failure is one at the directory. -/
theorem allocAddrSpace_failed {fuel : Nat} {size : UInt32} {as : AddrSpace} {s t : Machine}
    (run : allocAddrSpace unheld fuel size s = .done (retFailure, as) t) : freeList s = [] := by
  rw [allocAddrSpace] at run
  obtain ⟨frames, _, first, run⟩ := Prog.of_bind_done run
  obtain ⟨m₁, rfl⟩ := kalloc_mem first
  obtain ⟨pts, _, second, run⟩ := Prog.of_bind_done run
  obtain ⟨m₂, rfl⟩ := kalloc_mem second
  rcases memmanAllocFrame_cases ((s.withMem m₁).withMem m₂) with ⟨empty, -⟩ | ⟨f, fs, -, taken⟩
  · exact empty
  · rw [Prog.bind_done _ taken] at run
    simp only [Bool.false_eq_true, if_false] at run
    obtain ⟨_, _, -, run⟩ := Prog.of_bind_done run
    obtain ⟨made, u, tables, run⟩ := Prog.of_bind_done run
    cases made with
    | true =>
      simp only [if_true] at run
      obtain ⟨_, _, -, run⟩ := Prog.of_bind_done run
      cases run
    | false => exact absurd tables fillTables_stuck

end

section
variable {R : Region} {s : Machine} {h h₁ h₂ : Heap R} {fuel : Nat} {size : UInt32} {b c : Slot}
  (hosts : Hosts s h) (steps : R.length.toNat / 8 < fuel)
  (framesGiven : h.request ((size / frameLen + 1) * 4) = some (b, h₁))
  (ptsGiven : h₁.request (((size / frameLen + 1) / ptEntries + 1) * 4) = some (c, h₂))
include hosts steps framesGiven ptsGiven

/-- A failure at the directory is undone. -/
theorem allocAddrSpace_undone (empty : freeList s = []) :
    ∃ as t, allocAddrSpace goOn fuel size s = .done (retFailure, as) t ∧ Undone s h t := by
  have givenB := h.request_some framesGiven
  have givenC := h₁.request_some ptsGiven
  obtain ⟨m₁, run₁, hosts₁, touches₁⟩ := hosts.request_done steps framesGiven
  obtain ⟨m₂, run₂, hosts₂, touches₂⟩ := hosts₁.request_done steps ptsGiven
  have usedB : b ∈ h₂.used := by simp [givenC.used, givenB.used]
  obtain ⟨h₃, m₃, run₃, hosts₃, perm₃, kept₃⟩ := hosts₂.kfree_used steps usedB
  have used₃ : h₃.used.Perm (c :: h.used) := by
    have both : (b :: h₃.used).Perm (c :: b :: h.used) := by
      rw [givenC.used, givenB.used] at perm₃
      exact perm₃.symm
    exact (both.trans (List.Perm.swap b c h.used)).cons_inv
  obtain ⟨h₄, m₄, run₄, hosts₄, perm₄, kept₄⟩ := hosts₃.kfree_used steps (used₃.mem_iff.mpr List.mem_cons_self)
  rcases memmanAllocFrame_cases ((s.withMem m₁).withMem m₂) with ⟨-, starved⟩ | ⟨f, fs, some, -⟩
  · refine ⟨⟨0, size / frameLen + 1, b.addr + 8, (size / frameLen + 1) / ptEntries + 1, c.addr + 8⟩,
      s.withMem m₄, ?_, rfl, ⟨h₄, hosts₄, (perm₄.symm.trans used₃).cons_inv⟩, ?_, ?_⟩
    · rw [allocAddrSpace, Prog.bind_done _ run₁, Prog.bind_done _ run₂, Prog.bind_done _ starved]
      simp only [if_true]
      rw [Prog.bind_done _ (run₃ goOn), Prog.bind_done _ (run₄ goOn)]
      rfl
    · intro x outside
      calc m₄ x = m₃ x := hosts₃.kfree_outside steps (run₄ goOn) outside
        _ = m₂ x := hosts₂.kfree_outside steps (run₃ goOn) outside
        _ = m₁ x := touches₂.outside h₂.layout outside
        _ = s.mem x := touches₁.outside h₁.layout outside
    · intro d old x data
      have used₁ : d ∈ h₁.used := by simp [givenB.used, old]
      have used₂ : d ∈ h₂.used := by simp [givenC.used, used₁]
      calc m₄ x = m₃ x := kept₄ d (used₃.mem_iff.mpr (List.mem_cons_of_mem c old)) x data
        _ = m₂ x := kept₃ d used₂ x data
        _ = m₁ x := touches₂.data h₂.layout (List.mem_append_right _ used₂) data
        _ = s.mem x := touches₁.data h₁.layout (List.mem_append_right _ used₁) data
  · rw [show freeList ((s.withMem m₁).withMem m₂) = [] from empty] at some
    cases some

/-- With a heap that can give the two lists, a lack of frames is handled if and only if there
is not even one for the directory. -/
theorem allocAddrSpace_undone_iff : AllOrNothing fuel s h size ↔
    freeList s = [] ∨ 1 + numPts size + numFrames size ≤ (freeList s).length := by
  constructor
  · intro holds
    by_cases enough : 1 + numPts size + numFrames size ≤ (freeList s).length
    · exact Or.inr enough
    · obtain ⟨as, t, run, -⟩ := holds (Nat.lt_of_not_le enough)
      exact Or.inl (allocAddrSpace_failed run)
  · rintro (empty | enough) few
    · exact allocAddrSpace_undone hosts steps framesGiven ptsGiven empty
    · omega

end

/-- The same memory with one free frame. -/
def oneFrame (m : Mem) : Machine := { fourMegabytes m with frameCount := 513 }

theorem freeList_oneFrame (m : Mem) : freeList (oneFrame m) = [512] := by
  change ((List.range 513).filter fun i =>
    (if i < 512 then (⟨true, 1⟩ : Frame) else ⟨false, 0⟩).count = 0) = [512]
  decide +kernel

theorem allocAddrSpace_undone_iff_one : ∃ m₀, initAlloc 0x100000 0x100000 (fun _ => 0) = .done retSuccess m₀ ∧
    (AllOrNothing 131073 (oneFrame m₀) (Heap.init megabyte) 0 ↔
      freeList (oneFrame m₀) = [] ∨ 1 + numPts 0 + numFrames 0 ≤ (freeList (oneFrame m₀)).length) := by
  obtain ⟨m₀, init, rep⟩ := initAlloc_done megabyte fun _ => 0
  have hosts : Hosts (oneFrame m₀) (Heap.init megabyte) := ⟨rfl, rfl, rep⟩
  have both : (((Heap.init megabyte).request 4).bind fun r => r.2.request 4).isSome = true := by
    decide +kernel
  obtain ⟨⟨c, h'⟩, both⟩ := Option.isSome_iff_exists.mp both
  obtain ⟨⟨b, h₁⟩, first, second⟩ := Option.bind_eq_some_iff.mp both
  exact ⟨m₀, init, allocAddrSpace_undone_iff hosts (by decide) first second⟩

/-- With a frame for the directory and none for a page table the failure is not reported,
however long one waits. -/
theorem allocAddrSpace_hangs : ∃ m₀, initAlloc 0x100000 0x100000 (fun _ => 0) = .done retSuccess m₀ ∧
    Hosts (oneFrame m₀) (Heap.init megabyte) ∧
    ∀ fuel, ¬AllOrNothing fuel (oneFrame m₀) (Heap.init megabyte) 0 := by
  obtain ⟨m₀, init, rep⟩ := initAlloc_done megabyte fun _ => 0
  refine ⟨m₀, init, ⟨rfl, rfl, rep⟩, fun fuel holds => ?_⟩
  have list := freeList_oneFrame m₀
  obtain ⟨as, t, run, -⟩ := holds (by rw [list]; decide)
  rw [allocAddrSpace_failed run] at list
  cases list

end Sos.Kernel
