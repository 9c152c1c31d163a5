import Sos.Kernel.Frames

/-! The loops of `alloc_addr_space` as lists of word stores. -/

namespace Sos.Kernel
open Sos.Lib Machine

variable {unheld : Prog Machine Unit}

/-- The stores for the entries of a page table from `j` on. -/
def tableWrites (as : AddrSpace) (table : UInt32) : UInt32 → List Nat → List (UInt32 × UInt32)
  | _, [] => []
  | j, f :: fs =>
    (as.frames + 4 * j, frameAddr f + 1) :: (table + 4 * j, frameToPteUser (frameAddr f + 1)) ::
      tableWrites as table (j + 1) fs

theorem fetch_done {s : Machine} {p : UInt32} (valid : p ≠ 0) (i : UInt32) :
    fetch p i s = .done (s.mem.load (p + 4 * i)) s := by
  rw [fetch, if_neg valid]
  rfl

theorem assign_done {s : Machine} {p : UInt32} (valid : p ≠ 0) (i v : UInt32) :
    assign p i v s = .done () (s.stored [(p + 4 * i, v)]) := by
  rw [assign, if_neg valid]
  rfl

theorem setFrameWord_done (s : Machine) (p i v : UInt32) :
    setFrameWord p i v s = .done () (s.stored [(p + 4 * i, v)]) := rfl

theorem sub_one_toNat {v : UInt32} (nonzero : v ≠ 0) : (v - 1).toNat = v.toNat - 1 := by
  have positive : v.toNat ≠ 0 := fun zero => nonzero (UInt32.toNat_inj.mp zero)
  exact UInt32.toNat_sub_of_le _ _ (UInt32.le_iff_toNat_le.mpr (by simp; omega))

theorem fillTable_stop (fuel : Nat) (as : AddrSpace) (i j : UInt32) (left : Nat) (s : Machine) :
    fillTable unheld fuel as i left j 0 s = .done (some 0) s := by
  cases left with
  | zero => rfl
  | succ left => rw [fillTable, if_pos rfl]; rfl

/-- One entry, with a frame and a list to put it in. -/
theorem fillTable_step {fuel : Nat} {as : AddrSpace} {i j p table : UInt32} {left f : Nat}
    {fs : List Nat} {s : Machine} (wanted : p ≠ 0) (list : freeList s = f :: fs)
    (frames : as.frames ≠ 0) (pts : as.pts ≠ 0) (entry : s.mem.load (as.pts + 4 * i) = table)
    (apart : (s.mem.store (as.frames + 4 * j) (frameAddr f + 1)).load (as.pts + 4 * i) =
      s.mem.load (as.pts + 4 * i)) :
    fillTable unheld fuel as i (left + 1) j p s =
      fillTable unheld fuel as i left (j + 1) (p - 1)
        ((s.claimed [f]).stored (tableWrites as table j [f])) := by
  rcases memmanAllocFrame_cases s with ⟨none, -⟩ | ⟨g, gs, some, run⟩
  · rw [list] at none
    cases none
  · rw [list, List.cons.injEq] at some
    obtain ⟨rfl, rfl⟩ := some
    rw [fillTable, if_neg wanted, Prog.bind_done _ run]
    simp only []
    rw [Prog.bind_done _ (assign_done frames j _)]
    simp only [Bool.false_eq_true, if_false]
    rw [Prog.bind_done _ (fetch_done pts i), Prog.bind_done _ (fetch_done frames j)]
    have entry' : ((s.claimed [f]).stored [(as.frames + 4 * j, frameAddr f + 1)]).mem.load
        (as.pts + 4 * i) = table := apart.trans entry
    have same : ((s.claimed [f]).stored [(as.frames + 4 * j, frameAddr f + 1)]).mem.load
        (as.frames + 4 * j) = frameAddr f + 1 := Mem.load_store_same _ _ _
    rw [entry', same, Prog.bind_done _ (setFrameWord_done _ _ _ _)]
    rfl

/-- Without a frame the routine does not go on. -/
theorem fillTable_starved {fuel : Nat} {as : AddrSpace} {i j p : UInt32} {left : Nat}
    {s : Machine} (wanted : p ≠ 0) (empty : freeList s = []) (r : UInt32) (t : Machine) :
    fillTable unheld fuel as i (left + 1) j p s ≠ .done (some r) t := by
  intro run
  rcases memmanAllocFrame_cases s with ⟨-, first⟩ | ⟨f, fs, some, -⟩
  · rw [fillTable, if_neg wanted, Prog.bind_done _ first] at run
    simp only [if_true] at run
    obtain ⟨_, _, -, run⟩ := Prog.of_bind_done run
    obtain ⟨_, _, -, run⟩ := Prog.of_bind_done run
    obtain ⟨_, _, -, run⟩ := Prog.of_bind_done run
    obtain ⟨_, _, -, run⟩ := Prog.of_bind_done run
    obtain ⟨_, _, -, run⟩ := Prog.of_bind_done run
    obtain ⟨_, _, -, run⟩ := Prog.of_bind_done run
    cases run
  · rw [empty] at some
    cases some

theorem fillTable_unlisted {fuel : Nat} {as : AddrSpace} {i j p : UInt32} {left : Nat}
    {s : Machine} (wanted : p ≠ 0) (frames : as.frames = 0) (r : UInt32) (t : Machine) :
    fillTable unheld fuel as i (left + 1) j p s ≠ .done (some r) t := by
  intro run
  rw [fillTable, if_neg wanted] at run
  obtain ⟨⟨error, frame⟩, _, -, run⟩ := Prog.of_bind_done run
  simp only [frames] at run
  obtain ⟨_, _, null, -⟩ := Prog.of_bind_done run
  cases null

/-- The stores for a table leave the link to it. -/
structure Clear (as : AddrSpace) (i a : UInt32) (bound : Nat) : Prop where
  pts : Mem.Aligned as.pts
  frames : Mem.Aligned as.frames
  table : Mem.Aligned a
  apartList : ∀ k : UInt32, k.toNat < bound → as.pts + 4 * i ≠ as.frames + 4 * k
  apartTable : ∀ k : UInt32, k.toNat < bound → as.pts + 4 * i ≠ a + 4 * k

theorem tableWrites_aligned {as : AddrSpace} {a : UInt32} (frames : Mem.Aligned as.frames)
    (aligned : Mem.Aligned a) (fs : List Nat) (j : UInt32) :
    ∀ w, w ∈ tableWrites as a j fs → Mem.Aligned w.1 := by
  induction fs generalizing j with
  | nil => simp [tableWrites]
  | cons f fs ih =>
    intro w member
    rcases List.mem_cons.mp member with rfl | member
    · exact frames.add (Mem.aligned_four j)
    · rcases List.mem_cons.mp member with rfl | member
      · exact aligned.add (Mem.aligned_four j)
      · exact ih (j + 1) w member

section
variable (unheld : Prog Machine Unit) (fuel : Nat) {as : AddrSpace} {i a : UInt32} {bound : Nat}
  (clear : Clear as i a bound)
include clear

theorem Clear.kept {j : UInt32} (inside : j.toNat < bound) (m : Mem) (v w : UInt32) :
    (m.store (as.frames + 4 * j) v).load (as.pts + 4 * i) = m.load (as.pts + 4 * i) ∧
      ((m.store (as.frames + 4 * j) v).store (a + 4 * j) w).load (as.pts + 4 * i) =
        m.load (as.pts + 4 * i) := by
  have link := clear.pts.add (Mem.aligned_four i)
  have first := Mem.load_store_ne (m := m) v (clear.frames.add (Mem.aligned_four j)) link
    (clear.apartList j inside)
  refine ⟨first, ?_⟩
  rw [Mem.load_store_ne w (clear.table.add (Mem.aligned_four j)) link (clear.apartTable j inside), first]

/-- The entries of a table, as many as there are and as are wanted. -/
theorem fillTable_done (pts : as.pts ≠ 0) (frames : as.frames ≠ 0) (small : bound ≤ 1024) (left : Nat)
    {j p : UInt32} {s : Machine} (inside : j.toNat + min left p.toNat ≤ bound)
    (entry : s.mem.load (as.pts + 4 * i) = a)
    (enough : min left p.toNat ≤ (freeList s).length) : ∃ r : UInt32,
      r.toNat = p.toNat - min left p.toNat ∧
      fillTable unheld fuel as i left j p s = .done (some r)
        ((s.claimed ((freeList s).take (min left p.toNat))).stored
          (tableWrites as a j ((freeList s).take (min left p.toNat)))) := by
  induction left generalizing j p s with
  | zero => exact ⟨p, by simp, by simp [fillTable, tableWrites]⟩
  | succ left ih =>
    by_cases wanted : p = 0
    · subst wanted
      exact ⟨0, by simp, by simp [fillTable_stop, tableWrites]⟩
    · have less := sub_one_toNat wanted
      have positive : p.toNat ≠ 0 := fun zero => wanted (UInt32.toNat_inj.mp zero)
      have next : (j + 1).toNat = j.toNat + 1 := Bytes.toNat_succ (by omega)
      cases list : freeList s with
      | nil =>
        rw [list] at enough
        simp at enough
        omega
      | cons f fs =>
        have kept := clear.kept (j := j) (by omega) s.mem (frameAddr f + 1)
          (frameToPteUser (frameAddr f + 1))
        have list' : freeList ((s.claimed [f]).stored (tableWrites as a j [f])) = fs :=
          freeList_claimed (show freeList s = [f] ++ fs from list)
        have count : min (left + 1) p.toNat = min left (p - 1).toNat + 1 := by omega
        rw [fillTable_step wanted list frames pts entry kept.1]
        obtain ⟨r, value, run⟩ := ih (j := j + 1) (p := p - 1)
          (s := (s.claimed [f]).stored (tableWrites as a j [f])) (by omega) (kept.2.trans entry)
          (by
            rw [list']
            rw [list, List.length_cons] at enough
            omega)
        refine ⟨r, by omega, ?_⟩
        rw [run, list', count, List.take_succ_cons, stored_claimed, stored_append, claimed_append]
        rfl

/-- When the entries of a table were made there was a frame for each of them. -/
theorem fillTable_served (pts : as.pts ≠ 0) (frames : as.frames ≠ 0) (small : bound ≤ 1024)
    {left : Nat} {j p r : UInt32} {s t : Machine} (inside : j.toNat + min left p.toNat ≤ bound)
    (entry : s.mem.load (as.pts + 4 * i) = a)
    (run : fillTable unheld fuel as i left j p s = .done (some r) t) :
    min left p.toNat ≤ (freeList s).length := by
  induction left generalizing j p s with
  | zero => simp
  | succ left ih =>
    by_cases wanted : p = 0
    · subst wanted
      simp
    · have less := sub_one_toNat wanted
      have positive : p.toNat ≠ 0 := fun zero => wanted (UInt32.toNat_inj.mp zero)
      have next : (j + 1).toNat = j.toNat + 1 := Bytes.toNat_succ (by omega)
      cases list : freeList s with
      | nil => exact absurd run (fillTable_starved wanted list r t)
      | cons f fs =>
        have kept := clear.kept (j := j) (by omega) s.mem (frameAddr f + 1)
          (frameToPteUser (frameAddr f + 1))
        have list' : freeList ((s.claimed [f]).stored (tableWrites as a j [f])) = fs :=
          freeList_claimed (show freeList s = [f] ++ fs from list)
        rw [fillTable_step wanted list frames pts entry kept.1] at run
        have rest := ih (j := j + 1) (p := p - 1)
          (s := (s.claimed [f]).stored (tableWrites as a j [f])) (by omega) (kept.2.trans entry) run
        rw [list'] at rest
        rw [List.length_cons]
        omega

end

end Sos.Kernel
