import Sos.Kernel.Directories
import Sos.Kernel.Places

/-! What `alloc_addr_space` does when it returns successfully, and when it does so. -/

namespace Sos.Kernel
open Sos.Lib Machine

variable {unheld : Prog Machine Unit}

def numFrames (size : UInt32) : Nat := size.toNat / 4096 + 1

def numPts (size : UInt32) : Nat := numFrames size / 1024 + 1

theorem numFrames_le (size : UInt32) : numFrames size ≤ 1048576 := by
  have bound := size.toNat_lt
  unfold numFrames
  omega

theorem numFrames_toNat (size : UInt32) : (size / frameLen + 1).toNat = numFrames size := by
  have bound := numFrames_le size
  unfold numFrames at *
  rw [UInt32.toNat_add, UInt32.toNat_div]
  simp [frameLen]
  omega

theorem numPts_toNat (size : UInt32) :
    ((size / frameLen + 1) / ptEntries + 1).toNat = numPts size := by
  have bound := numFrames_le size
  unfold numPts
  rw [UInt32.toNat_add, UInt32.toNat_div, numFrames_toNat]
  simp [ptEntries]
  omega

/-- The stores that copy the kernel's directory entries from `i` on. -/
def kernelWrites (kern pd : UInt32) : Nat → UInt32 → Mem → List (UInt32 × UInt32)
  | 0, _, _ => []
  | left + 1, i, m =>
    (pd + 4 * i, m.load (kern + 4 * i)) ::
      kernelWrites kern pd left (i + 1) (m.store (pd + 4 * i) (m.load (kern + 4 * i)))

theorem mapKernel_done (pd : UInt32) (left : Nat) (i : UInt32) (s : Machine) :
    mapKernel pd left i s = .done () (s.stored (kernelWrites s.kernPageDir pd left i s.mem)) := by
  induction left generalizing i s with
  | zero => rfl
  | succ left ih => exact ih (i + 1) (s.stored [(pd + 4 * i, s.mem.load (s.kernPageDir + 4 * i))])

theorem mem_kernelWrites {kern pd : UInt32} {left : Nat} {i x v : UInt32} {m : Mem}
    (member : (x, v) ∈ kernelWrites kern pd left i m) :
    ∃ k, k < left ∧ x = pd + 4 * (i + UInt32.ofNat k) := by
  induction left generalizing i m with
  | zero => simp [kernelWrites] at member
  | succ left ih =>
    rcases List.mem_cons.mp member with same | member
    · obtain ⟨rfl, -⟩ := Prod.mk.inj same
      exact ⟨0, by omega, by rw [show i + UInt32.ofNat 0 = i from UInt32.add_zero i]⟩
    · obtain ⟨k, short, place⟩ := ih member
      exact ⟨k + 1, by omega, by rw [place, index_shift]⟩

/-- The machine when the page tables are about to be made. -/
def Machine.cleared (s : Machine) (m : Mem) (pd : Nat) : Machine :=
  (s.withMem (fill m (frameAddr pd) 0 4096)).claimed [pd]

/-- All that a successful `alloc_addr_space` did: the blocks `b` and `c` for the two lists,
the memory `m` after that, the directory's frame `pd` and the other free frames `fs`. -/
structure Built {R : Region} (s : Machine) (h : Heap R) (size : UInt32) (as : AddrSpace)
    (t : Machine) (b c : Slot) (h' : Heap R) (m : Mem) (pd : Nat) (fs : List Nat) : Prop where
  lists : ∃ h₁, h.request ((size / frameLen + 1) * 4) = some (b, h₁) ∧
    h₁.request (((size / frameLen + 1) / ptEntries + 1) * 4) = some (c, h')
  hosts : Hosts (s.withMem m) h'
  touches : Touches R (h'.free ++ h'.used) s.mem m
  list : freeList s = pd :: fs
  enough : demand (numPts size) (numFrames size) ≤ fs.length
  space : as = ⟨frameAddr pd, size / frameLen + 1, b.addr + 8,
    (size / frameLen + 1) / ptEntries + 1, c.addr + 8⟩
  result : t = ((s.withMem (fill m (frameAddr pd) 0 4096)).claimed
      (pd :: fs.take (demand (numPts size) (numFrames size)))).stored
    (spaceWrites as (numPts size) 0 (numFrames size) fs ++
      kernelWrites s.kernPageDir (frameAddr pd) 256 0
        ((fill m (frameAddr pd) 0 4096).storeAll (spaceWrites as (numPts size) 0 (numFrames size) fs)))

theorem list_small (size : UInt32) :
    (((size / frameLen + 1) * 4).toNat + 3) / 4 * 4 = 4 * numFrames size := by
  have bound := numFrames_le size
  rw [UInt32.toNat_mul, numFrames_toNat]
  simp
  omega

theorem pts_small (size : UInt32) :
    ((((size / frameLen + 1) / ptEntries + 1) * 4).toNat + 3) / 4 * 4 = 4 * numPts size := by
  have bound := numFrames_le size
  rw [UInt32.toNat_mul, numPts_toNat]
  unfold numPts
  simp
  omega

section
variable {R : Region} {s : Machine} {h h₁ h' : Heap R} {size : UInt32} {b c : Slot} {m : Mem} {pd : Nat}
  {fs : List Nat}

/-- The stores to the lists and to the tables do not meet. -/
theorem clear_space (spared : Spared R s 0) (list : freeList s = pd :: fs)
    (first : Given h ((size / frameLen + 1) * 4) b h₁)
    (second : Given h₁ (((size / frameLen + 1) / ptEntries + 1) * 4) c h') {a w v : UInt32} {k f : Nat}
    (member : f ∈ fs) (inside : k < numPts size) :
    Clear ⟨a, w, b.addr + 8, v, c.addr + 8⟩ (0 + UInt32.ofNat k) (frameAddr f)
      (min 1024 (numFrames size)) := by
  have lenB := first.len
  have lenC := second.len
  rw [list_small] at lenB
  rw [pts_small] at lenC
  have slotB : b ∈ h'.free ++ h'.used := by simp [second.used, first.used]
  have slotC := second.slot
  have differ : b ≠ c := second.ne (by simp [first.used])
  have bound := numFrames_le size
  have few : numPts size ≤ 1025 := by
    unfold numPts
    omega
  have index : (0 + UInt32.ofNat k).toNat = k := by
    rw [UInt32.zero_add, UInt32.toNat_ofNat']
    omega
  have free : f ∈ freeList s := by simp [list, member]
  refine ⟨?_, ?_, frameAddr_aligned f, ?_, ?_⟩
  · exact (h'.layout.2 c slotC).add (by decide)
  · exact (h'.layout.2 b slotB).add (by decide)
  · intro i short
    exact h'.layout.word_ne slotC slotB differ.symm (by rw [index]; omega) (by omega)
  · intro i short
    exact spared.word_ne h'.layout slotC (by rw [index]; omega) free (by omega)

theorem freeList_cleared (list : freeList s = pd :: fs) : freeList (s.cleared m pd) = fs :=
  freeList_claimed (show freeList (s.withMem (fill m (frameAddr pd) 0 4096)) = [pd] ++ fs from list)

/-- With both lists and enough frames the tables are made and the kernel mapped. -/
theorem fillTables_cleared {fuel : Nat} (spared : Spared R s 0) (list : freeList s = pd :: fs)
    (first : Given h ((size / frameLen + 1) * 4) b h₁)
    (second : Given h₁ (((size / frameLen + 1) / ptEntries + 1) * 4) c h')
    (enough : demand (numPts size) (numFrames size) ≤ fs.length) {as : AddrSpace}
    (space : as = ⟨frameAddr pd, size / frameLen + 1, b.addr + 8,
      (size / frameLen + 1) / ptEntries + 1, c.addr + 8⟩) :
    fillTables unheld fuel as (numPts size) 0 (size / frameLen + 1) (s.cleared m pd) =
      .done true (((s.cleared m pd).claimed (fs.take (demand (numPts size) (numFrames size)))).stored
        (spaceWrites as (numPts size) 0 (numFrames size) fs)) := by
  have list' := freeList_cleared (m := m) list
  have pts : as.pts ≠ 0 := by
    rw [space]
    exact second.valid
  have frames : as.frames ≠ 0 := by
    rw [space]
    exact first.valid
  have run := fillTables_done unheld fuel pts frames (Nat.min_le_left 1024 (numFrames size))
    (numPts size) 0 (size / frameLen + 1) (s.cleared m pd) (by
      intro k f member inside
      rw [list'] at member
      rw [space]
      exact clear_space spared list first second member inside)
    (by rw [numFrames_toNat]) (by rwa [numFrames_toNat, list'])
  rw [list', numFrames_toNat] at run
  exact run

/-- The routine behind its first three allocations. -/
theorem allocAddrSpace_eq {fuel : Nat} {frames pts a : UInt32} {s₁ s₂ s₃ : Machine}
    (runF : kalloc fuel ((size / frameLen + 1) * 4) s = .done frames s₁)
    (runP : kalloc fuel (((size / frameLen + 1) / ptEntries + 1) * 4) s₁ = .done pts s₂)
    (runD : memmanAllocFrame frameUser s₂ = .done (false, a) s₃) :
    allocAddrSpace unheld fuel size s = (do
      let as : AddrSpace :=
        ⟨a, size / frameLen + 1, frames, (size / frameLen + 1) / ptEntries + 1, pts⟩
      if ← fillTables unheld fuel as (numPts size) 0 (size / frameLen + 1) then
        mapKernel a 256 0
        return (retSuccess, as)
      else return (retFailure, as) : Prog Machine (Int × AddrSpace))
      (s₃.withMem (fill s₃.mem a 0 4096)) := by
  unfold allocAddrSpace
  rw [Prog.bind_done _ runF, Prog.bind_done _ runP, Prog.bind_done _ runD]
  simp only [Bool.false_eq_true, if_false, numPts_toNat]
  rfl

theorem allocAddrSpace_done {fuel : Nat} (hosts : Hosts s h) (steps : R.length.toNat / 8 < fuel)
    (spared : Spared R s 0) (list : freeList s = pd :: fs)
    (enough : demand (numPts size) (numFrames size) ≤ fs.length)
    (framesGiven : h.request ((size / frameLen + 1) * 4) = some (b, h₁))
    (ptsGiven : h₁.request (((size / frameLen + 1) / ptEntries + 1) * 4) = some (c, h')) :
    ∃ as t m, (∀ unheld, allocAddrSpace unheld fuel size s = .done (retSuccess, as) t) ∧
      Built s h size as t b c h' m pd fs := by
  have first := h.request_some framesGiven
  have second := h₁.request_some ptsGiven
  obtain ⟨m₁, runF, hosts₁, touches₁⟩ := hosts.request_done steps framesGiven
  obtain ⟨m, runP, hosts₂, touches₂⟩ := hosts₁.request_done steps ptsGiven
  rcases memmanAllocFrame_cases (s.withMem m) with ⟨empty, -⟩ | ⟨f, gs, taken, runD⟩
  · rw [show freeList (s.withMem m) = pd :: fs from list] at empty
    cases empty
  · rw [show freeList (s.withMem m) = pd :: fs from list, List.cons.injEq] at taken
    obtain ⟨rfl, rfl⟩ := taken
    refine ⟨_, _, m, ?_, ⟨h₁, framesGiven, ptsGiven⟩, hosts₂, ?_, list, enough, rfl, rfl⟩
    · intro unheld
      rw [allocAddrSpace_eq runF runP runD]
      refine (Prog.bind_done _ (fillTables_cleared spared list first second enough rfl)).trans ?_
      simp only [if_true]
      rw [Prog.bind_done _ (mapKernel_done _ _ _ _), stored_append, Machine.cleared, claimed_append]
      rfl
    · exact (second.touches touches₁).trans touches₂

theorem allocAddrSpace_true {fuel : Nat} {frames pts : UInt32} {s₁ s₂ : Machine}
    (runF : kalloc fuel ((size / frameLen + 1) * 4) s = .done frames s₁)
    (runP : kalloc fuel (((size / frameLen + 1) / ptEntries + 1) * 4) s₁ = .done pts s₂)
    {as : AddrSpace} {t : Machine} (run : allocAddrSpace unheld fuel size s = .done (retSuccess, as) t) :
    frames ≠ 0 ∧ pts ≠ 0 ∧ ∃ f gs u, freeList s₂ = f :: gs ∧ fillTables unheld fuel
      ⟨frameAddr f, size / frameLen + 1, frames, (size / frameLen + 1) / ptEntries + 1, pts⟩
      (numPts size) 0 (size / frameLen + 1) (s₂.cleared s₂.mem f) = .done true u := by
  rcases memmanAllocFrame_cases s₂ with ⟨-, runD⟩ | ⟨f, gs, list, runD⟩
  · unfold allocAddrSpace at run
    rw [Prog.bind_done _ runF, Prog.bind_done _ runP, Prog.bind_done _ runD] at run
    simp only [if_true] at run
    obtain ⟨_, _, -, run⟩ := Prog.of_bind_done run
    obtain ⟨_, _, -, run⟩ := Prog.of_bind_done run
    cases run
  · rw [allocAddrSpace_eq runF runP runD] at run
    obtain ⟨made, u, tables, run⟩ := Prog.of_bind_done run
    cases made with
    | false => cases run
    | true =>
      have wanted : size / frameLen + 1 ≠ 0 := by
        intro zero
        have value := numFrames_toNat size
        rw [zero] at value
        exact absurd value.symm (Nat.succ_ne_zero _)
      exact ⟨fillTables_frames wanted tables, (fillTables_true tables).1, f, gs, u, list, tables⟩

/-- A routine that returned successfully had both lists and enough frames. -/
theorem allocAddrSpace_built {fuel : Nat} (hosts : Hosts s h) (steps : R.length.toNat / 8 < fuel)
    (spared : Spared R s 0) {as : AddrSpace} {t : Machine}
    (run : allocAddrSpace unheld fuel size s = .done (retSuccess, as) t) :
    ∃ b c h' m pd fs, Built s h size as t b c h' m pd fs := by
  have bound := numFrames_le size
  have few : numPts size ≤ 1025 := by
    unfold numPts
    omega
  have smallF : (((size / frameLen + 1) * 4).toNat + 3) / 4 * 4 + 8 < 4294967296 := by
    rw [list_small]
    omega
  have smallP : ((((size / frameLen + 1) / ptEntries + 1) * 4).toNat + 3) / 4 * 4 + 8 <
      4294967296 := by
    rw [pts_small]
    omega
  rcases hosts.request steps _ smallF with ⟨-, runF⟩ | ⟨b, h₁, m₁, framesGiven, runF, hosts₁, -⟩
  · rcases hosts.request steps _ smallP with ⟨-, runP⟩ | ⟨c, h', m, -, runP, -, -⟩
    · exact absurd rfl (allocAddrSpace_true runF runP run).1
    · exact absurd rfl (allocAddrSpace_true runF runP run).1
  · rcases hosts₁.request steps _ smallP with ⟨-, runP⟩ | ⟨c, h', m, ptsGiven, runP, -, -⟩
    · exact absurd rfl (allocAddrSpace_true runF runP run).2.1
    · obtain ⟨-, -, pd, fs, u, list, tables⟩ := allocAddrSpace_true runF runP run
      have list' : freeList s = pd :: fs := list
      have first := h.request_some framesGiven
      have second := h₁.request_some ptsGiven
      have supply := freeList_cleared (m := ((s.withMem m₁).withMem m).mem) list
      have enough := fillTables_served second.valid first.valid
        (Nat.min_le_left 1024 (numFrames size)) (by
          intro k f member inside
          rw [supply] at member
          exact clear_space spared list' first second member inside)
        (by rw [numFrames_toNat]) tables
      rw [numFrames_toNat, supply] at enough
      obtain ⟨as', t', m', run', built⟩ :=
        allocAddrSpace_done hosts steps spared list' enough framesGiven ptsGiven
      rw [run' unheld, Outcome.done.injEq, Prod.mk.injEq] at run
      obtain ⟨⟨-, rfl⟩, rfl⟩ := run
      exact ⟨b, c, h', m', pd, fs, built⟩

end

end Sos.Kernel
