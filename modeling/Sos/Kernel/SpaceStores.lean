import Mathlib.Data.List.GetD
import Sos.Kernel.Space

/-! The stores of a new address space, and the frames that it takes. -/

namespace Sos.Kernel
open Sos.Lib Machine

/-- The frame of page table `i`. -/
def tableFrame (fs : List Nat) (i : Nat) : Nat := fs.getD (1025 * i) 0

/-- The frame of page `k`: each table's frame comes before those of its pages. -/
def pageFrame (fs : List Nat) (k : Nat) : Nat := fs.getD (1025 * (k / 1024) + 1 + k % 1024) 0

/-- A store of `v` at `x` during `alloc_addr_space`, with the blocks `b` and `c` for the
lists and the directory in frame `pd`. -/
inductive SpaceStore (b c : Slot) (pd : Nat) (fs : List Nat) (size : UInt32) (x v : UInt32) : Prop where
  | link (i : Nat) (inside : i < numPts size) (place : x.toNat = c.addr.toNat + 8 + 4 * i)
      (value : v = frameAddr (tableFrame fs i))
  | entry (i : Nat) (inside : i < numPts size) (place : x.toNat = 4096 * pd + 4 * (i + 256))
      (value : v = frameToPdeUser (frameAddr (tableFrame fs i)))
  | listed (k : Nat) (inside : k < numFrames size) (place : x.toNat = b.addr.toNat + 8 + 4 * (k % 1024))
      (value : v = frameAddr (pageFrame fs k) + 1)
  | page (k : Nat) (inside : k < numFrames size)
      (place : x.toNat = 4096 * tableFrame fs (k / 1024) + 4 * (k % 1024))
      (value : v = frameToPteUser (frameAddr (pageFrame fs k) + 1))

theorem numPts_le (size : UInt32) : numPts size ≤ 1025 := by
  have bound := numFrames_le size
  unfold numPts
  omega

theorem numPts_eq (size : UInt32) : numPts size = numFrames size / 1024 + 1 := rfl

theorem demand_eq (size : UInt32) :
    demand (numPts size) (numFrames size) = numPts size + numFrames size := by
  unfold demand
  rw [numPts_eq]
  omega

theorem page_table {size : UInt32} {k : Nat} (inside : k < numFrames size) : k / 1024 < numPts size := by
  rw [numPts_eq]
  omega

/-- Words of a frame and of the one behind it. -/
theorem frameWord_far {f : Nat} (small : f + 1 < 1048576) {k : UInt32} (inside : k.toNat < 2048) :
    (frameAddr f + 4 * k).toNat = 4096 * f + 4 * k.toNat := by
  rw [UInt32.toNat_add, frameAddr_toNat (by omega), UInt32.toNat_mul]
  simp
  omega

theorem getD_eq_of_some {fs : List Nat} {n f : Nat} (at_ : fs[n]? = some f) : fs.getD n 0 = f := by
  rw [List.getD_eq_getElem?_getD, at_]
  rfl

theorem kernelWrites_aligned {kern pd : UInt32} (aligned : Mem.Aligned pd) {left : Nat} {i : UInt32}
    {m : Mem} : ∀ w, w ∈ kernelWrites kern pd left i m → Mem.Aligned w.1 := by
  rintro ⟨x, v⟩ member
  obtain ⟨k, -, place⟩ := mem_kernelWrites member
  rw [place]
  exact aligned.add (Mem.aligned_four _)

/-- Outside of the directory the copy changes nothing. -/
theorem load_kernelWrites_other {kern pd a : UInt32} (aligned : Mem.Aligned pd) (word : Mem.Aligned a)
    {left : Nat} {i : UInt32} (m : Mem) (other : ∀ k, k < left → a ≠ pd + 4 * (i + UInt32.ofNat k)) :
    (m.storeAll (kernelWrites kern pd left i m)).load a = m.load a := by
  refine Mem.load_storeAll_other m word (kernelWrites_aligned aligned) ?_
  rintro ⟨x, v⟩ member
  obtain ⟨k, inside, place⟩ := mem_kernelWrites member
  rw [place]
  exact (other k inside).symm

/-- The copied entries are those of the kernel's directory. -/
theorem load_kernelWrites {kern pd : UInt32} (aligned : Mem.Aligned pd) (alignedK : Mem.Aligned kern)
    (left : Nat) (i : UInt32) (m : Mem)
    (apart : ∀ j k, j < left → k < left →
      kern + 4 * (i + UInt32.ofNat j) ≠ pd + 4 * (i + UInt32.ofNat k))
    (distinct : ∀ j k, j < left → k < left → pd + 4 * (i + UInt32.ofNat j) = pd + 4 * (i + UInt32.ofNat k) →
      j = k) {k : Nat} (inside : k < left) :
    (m.storeAll (kernelWrites kern pd left i m)).load (pd + 4 * (i + UInt32.ofNat k)) =
      m.load (kern + 4 * (i + UInt32.ofNat k)) := by
  induction left generalizing i m k with
  | zero => omega
  | succ left ih =>
    have here : i + UInt32.ofNat 0 = i := UInt32.add_zero i
    rw [kernelWrites, Mem.storeAll_cons]
    cases k with
    | zero =>
      rw [here, load_kernelWrites_other aligned (aligned.add (Mem.aligned_four i)), Mem.load_store_same]
      intro k short same
      rw [← index_shift] at same
      have twice := distinct 0 (k + 1) (by omega) (by omega) (by rw [here]; exact same)
      omega
    | succ k =>
      have kept := Mem.load_store_ne (m := m) (m.load (kern + 4 * i)) (aligned.add (Mem.aligned_four i))
        (alignedK.add (Mem.aligned_four (i + UInt32.ofNat (k + 1)))) (by
          have differ := apart (k + 1) 0 inside (by omega)
          rwa [here] at differ)
      rw [← kept, index_shift]
      refine ih (i := i + 1) (k := k) _ ?_ ?_ (by omega)
      · intro j k shortJ shortK
        rw [← index_shift, ← index_shift]
        exact apart (j + 1) (k + 1) (by omega) (by omega)
      · intro j k shortJ shortK same
        rw [← index_shift, ← index_shift] at same
        have equal := distinct (j + 1) (k + 1) (by omega) (by omega) same
        omega

namespace Built
variable {R : Region} {s t : Machine} {h h' : Heap R} {size : UInt32} {as : AddrSpace} {b c : Slot}
  {m : Mem} {pd : Nat} {fs : List Nat} {behind : Nat} (built : Built s h size as t b c h' m pd fs)
include built

theorem length_le : numPts size + numFrames size ≤ fs.length := by
  have enough := built.enough
  rwa [demand_eq] at enough

/-- Frames at different places are different, and free. -/
theorem getD_mem {n : Nat} (inside : n < fs.length) : fs.getD n 0 ∈ freeList s := by
  rw [built.list, List.getD_eq_getElem fs 0 inside]
  exact List.mem_cons_of_mem pd (List.getElem_mem inside)

theorem nodup : pd ∉ fs ∧ fs.Nodup := by
  have once := freeList_nodup s
  rw [built.list] at once
  exact List.nodup_cons.mp once

theorem getD_inj {n k : Nat} (insideN : n < fs.length) (insideK : k < fs.length)
    (same : fs.getD n 0 = fs.getD k 0) : n = k := by
  rw [List.getD_eq_getElem fs 0 insideN, List.getD_eq_getElem fs 0 insideK] at same
  exact (List.Nodup.getElem_inj_iff built.nodup.2).mp same

theorem pd_ne {n : Nat} (inside : n < fs.length) : pd ≠ fs.getD n 0 := by
  rw [List.getD_eq_getElem fs 0 inside]
  intro same
  exact built.nodup.1 (same ▸ List.getElem_mem inside)

theorem pd_mem : pd ∈ freeList s := by
  rw [built.list]
  exact List.mem_cons_self

theorem table_place {i : Nat} (inside : i < numPts size) : 1025 * i < fs.length := by
  have length := built.length_le
  have shape := numPts_eq size
  omega

theorem page_place {k : Nat} (inside : k < numFrames size) :
    1025 * (k / 1024) + 1 + k % 1024 < fs.length := by
  have length := built.length_le
  have shape := numPts_eq size
  omega

theorem tableFrame_mem {i : Nat} (inside : i < numPts size) : tableFrame fs i ∈ freeList s :=
  built.getD_mem (built.table_place inside)

theorem pageFrame_mem {k : Nat} (inside : k < numFrames size) : pageFrame fs k ∈ freeList s :=
  built.getD_mem (built.page_place inside)

theorem tableFrame_inj {i k : Nat} (insideI : i < numPts size) (insideK : k < numPts size)
    (same : tableFrame fs i = tableFrame fs k) : i = k := by
  have place := built.getD_inj (built.table_place insideI) (built.table_place insideK) same
  omega

theorem pageFrame_inj {j k : Nat} (insideJ : j < numFrames size) (insideK : k < numFrames size)
    (same : pageFrame fs j = pageFrame fs k) : j = k := by
  have place := built.getD_inj (built.page_place insideJ) (built.page_place insideK) same
  omega

theorem tableFrame_ne_page {i k : Nat} (insideI : i < numPts size) (insideK : k < numFrames size) :
    tableFrame fs i ≠ pageFrame fs k := by
  intro same
  have place := built.getD_inj (built.table_place insideI) (built.page_place insideK) same
  omega

theorem pd_ne_table {i : Nat} (inside : i < numPts size) : pd ≠ tableFrame fs i :=
  built.pd_ne (built.table_place inside)

theorem pd_ne_page {k : Nat} (inside : k < numFrames size) : pd ≠ pageFrame fs k :=
  built.pd_ne (built.page_place inside)

/-- The blocks for the lists. -/
theorem slots : b ∈ h'.free ++ h'.used ∧ c ∈ h'.free ++ h'.used ∧ b ≠ c ∧
    b.len.toNat = 4 * numFrames size ∧ c.len.toNat = 4 * numPts size := by
  obtain ⟨h₁, framesGiven, ptsGiven⟩ := built.lists
  have first := h.request_some framesGiven
  have second := h₁.request_some ptsGiven
  have lenB := first.len
  have lenC := second.len
  rw [list_small] at lenB
  rw [pts_small] at lenC
  exact ⟨by simp [second.used, first.used], second.slot, second.ne (by simp [first.used]), lenB, lenC⟩

theorem lists_used : b ∈ h'.used ∧ c ∈ h'.used ∧ b ≠ c ∧ h'.used = c :: b :: h.used := by
  obtain ⟨h₁, framesGiven, ptsGiven⟩ := built.lists
  have used : h'.used = c :: b :: h.used := by
    rw [(h₁.request_some ptsGiven).used, (h.request_some framesGiven).used]
  exact ⟨by simp [used], by simp [used], built.slots.2.2.1, used⟩

theorem link_place {i : Nat} (inside : i < numPts size) :
    (as.pts + 4 * UInt32.ofNat i).toNat = c.addr.toNat + 8 + 4 * i := by
  obtain ⟨-, slotC, -, -, lenC⟩ := built.slots
  have few := numPts_le size
  have index : (UInt32.ofNat i).toNat = i := by
    rw [UInt32.toNat_ofNat']
    omega
  rw [built.space, h'.layout.word_toNat slotC (by omega), index]

theorem listed_place {k : Nat} (inside : k < numFrames size) :
    (as.frames + 4 * UInt32.ofNat k).toNat = b.addr.toNat + 8 + 4 * k := by
  obtain ⟨slotB, -, -, lenB, -⟩ := built.slots
  have bound := numFrames_le size
  have index : (UInt32.ofNat k).toNat = k := by
    rw [UInt32.toNat_ofNat']
    omega
  rw [built.space, h'.layout.word_toNat slotB (by omega), index]

section
variable (spared : Spared R s behind)
include spared

theorem entry_place {i : Nat} (inside : i < numPts size) :
    (as.pd + 4 * (UInt32.ofNat i + kernPdOffset)).toNat = 4096 * pd + 4 * (i + 256) := by
  have few := numPts_le size
  have offset : (UInt32.ofNat i + kernPdOffset).toNat = i + 256 := by
    rw [UInt32.toNat_add, UInt32.toNat_ofNat', show kernPdOffset.toNat = 256 by decide]
    omega
  have last := (mem_freeList built.pd_mem).1
  have count := spared.count
  rw [built.space, frameWord_far (by omega) (by omega), offset]

theorem table_entry_place {i j : Nat} (inside : i < numPts size) (small : j < 1024) :
    (frameAddr (tableFrame fs i) + 4 * UInt32.ofNat j).toNat = 4096 * tableFrame fs i + 4 * j := by
  have index : (UInt32.ofNat j).toNat = j := by
    rw [UInt32.toNat_ofNat']
    omega
  rw [frameWord_toNat (spared.small (built.tableFrame_mem inside)) (by omega), index]

theorem store_cases {x v : UInt32}
    (member : (x, v) ∈ spaceWrites as (numPts size) 0 (numFrames size) fs) :
    SpaceStore b c pd fs size x v := by
  obtain ⟨k, f, inside, at_, store⟩ := mem_spaceWrites.mp member
  have shape := numPts_eq size
  have table : tableFrame fs k = f := by
    refine getD_eq_of_some ?_
    rw [show 1025 * k = k + min (numFrames size) (1024 * k) by omega]
    exact at_
  unfold TableStore at store
  rw [UInt32.zero_add, ← table] at store
  rcases store with ⟨rfl, value⟩ | ⟨rfl, value⟩ | ⟨j, g, small, wanted, at_, where_⟩
  · exact SpaceStore.link k inside (built.link_place inside) value
  · exact SpaceStore.entry k inside (built.entry_place spared inside) value
  · have page : pageFrame fs (1024 * k + j) = g := by
      refine getD_eq_of_some ?_
      rw [show 1025 * ((1024 * k + j) / 1024) + 1 + (1024 * k + j) % 1024 =
        k + min (numFrames size) (1024 * k) + 1 + j by omega]
      exact at_
    have index : (1024 * k + j) / 1024 = k ∧ (1024 * k + j) % 1024 = j := by omega
    rcases where_ with ⟨rfl, value⟩ | ⟨rfl, value⟩
    · refine SpaceStore.listed (1024 * k + j) wanted ?_ (by rw [value, page])
      rw [index.2]
      exact built.listed_place (by omega)
    · refine SpaceStore.page (1024 * k + j) wanted ?_ (by rw [value, page])
      rw [index.1, index.2]
      exact built.table_entry_place spared inside small

theorem spaceWrites_aligned : ∀ w, w ∈ spaceWrites as (numPts size) 0 (numFrames size) fs →
    Mem.Aligned w.1 := by
  rintro ⟨x, v⟩ member
  obtain ⟨slotB, slotC, -⟩ := built.slots
  have alignedB := h'.layout.2 b slotB
  have alignedC := h'.layout.2 c slotC
  unfold Mem.Aligned at alignedB alignedC
  change x.toNat % 4 = 0
  cases built.store_cases spared member with
  | link i _ place _ => omega
  | entry i _ place _ => omega
  | listed k _ place _ => omega
  | page k _ place _ => omega

end

theorem mem_eq : t.mem = ((fill m (frameAddr pd) 0 4096).storeAll
      (spaceWrites as (numPts size) 0 (numFrames size) fs)).storeAll
    (kernelWrites s.kernPageDir (frameAddr pd) 256 0 ((fill m (frameAddr pd) 0 4096).storeAll
      (spaceWrites as (numPts size) 0 (numFrames size) fs))) := by
  rw [built.result]
  exact Mem.storeAll_append _ _ _

theorem table_at {i : Nat} (inside : i < numPts size) :
    fs[i + min (numFrames size) (1024 * i)]? = some (tableFrame fs i) := by
  have shape := numPts_eq size
  have place := built.table_place inside
  rw [show i + min (numFrames size) (1024 * i) = 1025 * i by omega, tableFrame,
    List.getD_eq_getElem fs 0 place, List.getElem?_eq_getElem place]

theorem link_mem {i : Nat} (inside : i < numPts size) :
    (as.pts + 4 * UInt32.ofNat i, frameAddr (tableFrame fs i)) ∈
      spaceWrites as (numPts size) 0 (numFrames size) fs := by
  refine mem_spaceWrites.mpr ⟨i, _, inside, built.table_at inside, Or.inl ⟨?_, rfl⟩⟩
  rw [UInt32.zero_add]

theorem entry_mem {i : Nat} (inside : i < numPts size) :
    (as.pd + 4 * (UInt32.ofNat i + kernPdOffset), frameToPdeUser (frameAddr (tableFrame fs i))) ∈
      spaceWrites as (numPts size) 0 (numFrames size) fs := by
  refine mem_spaceWrites.mpr ⟨i, _, inside, built.table_at inside, Or.inr (Or.inl ⟨?_, rfl⟩)⟩
  rw [UInt32.zero_add]

theorem page_mem {k : Nat} (inside : k < numFrames size) :
    (as.frames + 4 * UInt32.ofNat (k % 1024), frameAddr (pageFrame fs k) + 1) ∈
        spaceWrites as (numPts size) 0 (numFrames size) fs ∧
      (frameAddr (tableFrame fs (k / 1024)) + 4 * UInt32.ofNat (k % 1024),
        frameToPteUser (frameAddr (pageFrame fs k) + 1)) ∈
        spaceWrites as (numPts size) 0 (numFrames size) fs := by
  have table := built.table_at (page_table inside)
  have place := built.page_place inside
  have at_ : fs[k / 1024 + min (numFrames size) (1024 * (k / 1024)) + 1 + k % 1024]? =
      some (pageFrame fs k) := by
    rw [show k / 1024 + min (numFrames size) (1024 * (k / 1024)) + 1 + k % 1024 =
      1025 * (k / 1024) + 1 + k % 1024 by omega, pageFrame, List.getD_eq_getElem fs 0 place,
      List.getElem?_eq_getElem place]
  have index : k % 1024 < 1024 ∧ 1024 * (k / 1024) + k % 1024 < numFrames size := by omega
  constructor
  · exact mem_spaceWrites.mpr ⟨_, _, page_table inside, table,
      Or.inr (Or.inr ⟨_, _, index.1, index.2, at_, Or.inl ⟨rfl, rfl⟩⟩)⟩
  · exact mem_spaceWrites.mpr ⟨_, _, page_table inside, table,
      Or.inr (Or.inr ⟨_, _, index.1, index.2, at_, Or.inr ⟨rfl, rfl⟩⟩)⟩

end Built

end Sos.Kernel
