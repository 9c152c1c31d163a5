import Sos.Kernel.SpaceStores
import Sos.Kernel.Paging

/-! The memory of a new address space, word by word. -/

namespace Sos.Kernel
open Sos.Lib Machine

theorem fill_outside (m : Mem) {a x : UInt32} {n : Nat} (v : UInt8) (room : a.toNat + n ≤ 4294967296)
    (outside : x.toNat < a.toNat ∨ a.toNat + n ≤ x.toNat) : fill m a v n x = m x := by
  rw [fill, if_neg (Mem.sub_outside room outside)]

theorem load_fill_zero (m : Mem) {a x : UInt32} {n : Nat} (lower : a.toNat ≤ x.toNat)
    (upper : x.toNat + 4 ≤ a.toNat + n) (room : x.toNat + 4 ≤ 4294967296) :
    (fill m a 0 n).load x = 0 := by
  have cell : ∀ k : UInt32, k.toNat < 4 → fill m a 0 n (x + k) = 0 := by
    intro k small
    have place : (x + k).toNat = x.toNat + k.toNat := by
      rw [UInt32.toNat_add]
      omega
    rw [fill, if_pos (Mem.sub_inside (by omega) (by omega))]
  have first := cell 0 (by decide)
  rw [UInt32.add_zero] at first
  rw [Mem.load, first, cell 1 (by decide), cell 2 (by decide), cell 3 (by decide)]
  rfl

namespace Built
variable {R : Region} {s t : Machine} {h h' : Heap R} {size : UInt32} {as : AddrSpace} {b c : Slot}
  {m : Mem} {pd : Nat} {fs : List Nat} {behind : Nat} (built : Built s h size as t b c h' m pd fs)
include built

/-- The blocks for the lists are in the heap and apart. -/
theorem lists_place : R.base.toNat ≤ b.addr.toNat ∧ b.addr.toNat + 8 + 4 * numFrames size ≤ R.hi ∧
    R.base.toNat ≤ c.addr.toNat ∧ c.addr.toNat + 8 + 4 * numPts size ≤ R.hi ∧
    (b.addr.toNat + 8 + 4 * numFrames size ≤ c.addr.toNat ∨
      c.addr.toNat + 8 + 4 * numPts size ≤ b.addr.toNat) := by
  obtain ⟨slotB, slotC, differ, lenB, lenC⟩ := built.slots
  have upperB := h'.layout.1.upper b slotB
  have upperC := h'.layout.1.upper c slotC
  have boundsB := h'.layout.addr_bounds slotB
  have boundsC := h'.layout.addr_bounds slotC
  have apart := h'.layout.1.apart_of_ne slotB slotC differ
  unfold Slot.past at upperB upperC
  unfold Slot.past Slot.first at apart
  refine ⟨by omega, by omega, by omega, by omega, by omega⟩

theorem list_aligned (j : UInt32) : Mem.Aligned (as.frames + 4 * j) := by
  rw [built.space]
  exact h'.layout.word_aligned built.slots.1 j

section
variable (spared : Spared R s behind)
include spared

theorem directory_small : pd + 1 < 1048576 := by
  have last := (mem_freeList built.pd_mem).1
  have count := spared.count
  omega

/-- Entry `i` of the directory, or of what is behind it. -/
theorem directory_word {i : UInt32} (inside : i.toNat < 2048) :
    (as.pd + 4 * i).toNat = 4096 * pd + 4 * i.toNat := by
  rw [built.space]
  exact frameWord_far (built.directory_small spared) inside

theorem load_space {a : UInt32} (word : Mem.Aligned a)
    (apart : a.toNat < 4096 * pd ∨ 4096 * pd + 1024 ≤ a.toNat) :
    t.mem.load a = ((fill m (frameAddr pd) 0 4096).storeAll
      (spaceWrites as (numPts size) 0 (numFrames size) fs)).load a := by
  rw [built.mem_eq]
  refine load_kernelWrites_other (frameAddr_aligned pd) word _ ?_
  intro k inside same
  have index : (0 + UInt32.ofNat k).toNat = k := by
    rw [UInt32.zero_add, UInt32.toNat_ofNat']
    omega
  have place := frameWord_far (built.directory_small spared) (k := 0 + UInt32.ofNat k) (by omega)
  rw [← same] at place
  omega

/-- Above the kernel's entries a word was stored by the loop over the tables or is as it
was after the directory was cleared. -/
theorem load_cases {a : UInt32} (word : Mem.Aligned a)
    (apart : a.toNat < 4096 * pd ∨ 4096 * pd + 1024 ≤ a.toNat) :
    SpaceStore b c pd fs size a (t.mem.load a) ∨
      (∀ v, (a, v) ∉ spaceWrites as (numPts size) 0 (numFrames size) fs) ∧
        t.mem.load a = (fill m (frameAddr pd) 0 4096).load a := by
  rw [built.load_space spared word apart]
  rcases Mem.load_storeAll (fill m (frameAddr pd) 0 4096) word (built.spaceWrites_aligned spared) with
    written | ⟨none, kept⟩
  · exact Or.inl (built.store_cases spared written)
  · exact Or.inr ⟨fun v member => none _ member rfl, kept⟩

/-- The list of page tables, when the directory's entries do not reach the heap. -/
theorem link_word (fits : 4 * numPts size ≤ 3072 + behind) {i : Nat} (inside : i < numPts size) :
    t.mem.load (as.pts + 4 * UInt32.ofNat i) = frameAddr (tableFrame fs i) := by
  obtain ⟨-, slotC, -, -, -⟩ := built.slots
  obtain ⟨lowB, highB, lowC, highC, apart⟩ := built.lists_place
  have place := built.link_place inside
  have word : Mem.Aligned (as.pts + 4 * UInt32.ofNat i) := by
    rw [built.space]
    exact h'.layout.word_aligned slotC _
  have directory := spared.apart pd built.pd_mem
  rcases built.load_cases spared word (by omega) with store | ⟨none, -⟩
  · cases store with
    | link k _ place' value =>
      rw [value, show k = i by omega]
    | entry k _ place' _ => omega
    | listed k _ place' _ => omega
    | page k inside' place' _ =>
      have table := spared.apart _ (built.tableFrame_mem (page_table inside'))
      omega
  · exact absurd (built.link_mem inside) (none _)

/-- Of the stores for table `k` those to the list of pages are those for its pages. -/
theorem listed_store (fits : 4 * numPts size ≤ 3072 + behind) {j k f : Nat} {v : UInt32} (short : j < numFrames size)
    (inside : k < numPts size) (at_ : fs[k + min (numFrames size) (1024 * k)]? = some f)
    (store : TableStore as 0 (numFrames size) fs k f (as.frames + 4 * UInt32.ofNat j) v) :
    j < 1024 ∧ 1024 * k + j < numFrames size ∧ v = frameAddr (pageFrame fs (1024 * k + j)) + 1 := by
  obtain ⟨lowB, highB, lowC, highC, apart⟩ := built.lists_place
  have place := built.listed_place short
  have shape := numPts_eq size
  have directory := spared.apart pd built.pd_mem
  have frame := spared.apart _ (built.tableFrame_mem inside)
  have table : f = tableFrame fs k := by
    rw [built.table_at inside] at at_
    exact (Option.some.inj at_).symm
  unfold TableStore at store
  rw [UInt32.zero_add, table] at store
  rcases store with ⟨same, -⟩ | ⟨same, -⟩ | ⟨i, g, small, wanted, page, ⟨same, value⟩ | ⟨same, -⟩⟩
  · have other := built.link_place inside
    rw [← same] at other
    omega
  · have other := built.entry_place spared inside
    rw [← same] at other
    omega
  · have other := built.listed_place (k := i) (by omega)
    rw [← same] at other
    obtain rfl : i = j := by omega
    refine ⟨small, wanted, ?_⟩
    rw [value, pageFrame, getD_eq_of_some]
    rw [show 1025 * ((1024 * k + i) / 1024) + 1 + (1024 * k + i) % 1024 =
      k + min (numFrames size) (1024 * k) + 1 + i by omega]
    exact page
  · have other := built.table_entry_place spared inside small
    rw [← same] at other
    omega

/-- The list of pages holds the last page for each place. -/
theorem listed_last (fits : 4 * numPts size ≤ 3072 + behind) {j : Nat} (small : j < 1024)
    (inside : j < numFrames size) : ∃ k, k < numFrames size ∧ k % 1024 = j ∧ numFrames size ≤ k + 1024 ∧
      t.mem.load (as.frames + 4 * UInt32.ofNat j) = frameAddr (pageFrame fs k) + 1 := by
  obtain ⟨lowB, highB, lowC, highC, apart⟩ := built.lists_place
  have directory := spared.apart pd built.pd_mem
  have place := built.listed_place inside
  have shape := numPts_eq size
  have length := built.length_le
  -- the last table with an entry at this place
  obtain ⟨n, page, last⟩ : ∃ n, 1024 * n + j < numFrames size ∧ numFrames size ≤ 1024 * n + j + 1024 :=
    ⟨(numFrames size - 1 - j) / 1024, by omega, by omega⟩
  obtain ⟨early, late, split, members⟩ := @spaceWrites_from as n (numPts size) (numFrames size) 0 fs
    (by omega) (by omega) (by omega)
  have aligned : ∀ w, w ∈ late → Mem.Aligned w.1 := by
    intro w member
    refine built.spaceWrites_aligned spared w ?_
    rw [split]
    exact List.mem_append_right early member
  have word := built.list_aligned (UInt32.ofNat j)
  rw [built.load_space spared word (by omega), split, Mem.storeAll_append]
  rcases Mem.load_storeAll ((fill m (frameAddr pd) 0 4096).storeAll early) word aligned with
    written | ⟨none, -⟩
  · obtain ⟨k, f, behind', short, at_, store⟩ := (members _ _).mp written
    obtain ⟨-, wanted, value⟩ := built.listed_store spared fits inside short at_ store
    exact ⟨1024 * k + j, wanted, by omega, by omega, value⟩
  · have listed : (as.frames + 4 * UInt32.ofNat j, frameAddr (pageFrame fs (1024 * n + j)) + 1) ∈ late := by
      refine (members _ _).mpr ⟨n, _, le_refl n, by omega, built.table_at (by omega), ?_⟩
      refine Or.inr (Or.inr ⟨j, _, small, page, ?_, Or.inl ⟨rfl, rfl⟩⟩)
      have index := built.page_place page
      rw [show n + min (numFrames size) (1024 * n) + 1 + j =
        1025 * ((1024 * n + j) / 1024) + 1 + (1024 * n + j) % 1024 by omega, pageFrame,
        List.getD_eq_getElem fs 0 index, List.getElem?_eq_getElem index]
    exact absurd rfl (none _ listed)

theorem listed_word (fits : 4 * numPts size ≤ 3072 + behind) {j : Nat} (small : j < 1024)
    (inside : j < numFrames size) : ∃ k, k < numFrames size ∧ k % 1024 = j ∧
      t.mem.load (as.frames + 4 * UInt32.ofNat j) = frameAddr (pageFrame fs k) + 1 := by
  obtain ⟨k, short, place, -, word⟩ := built.listed_last spared fits small inside
  exact ⟨k, short, place, word⟩

/-- Places of the list that no table has an entry for are left alone. -/
theorem late_word (fits : 4 * numPts size ≤ 3072 + behind) {k : Nat} (late : 1024 ≤ k)
    (inside : k < numFrames size) :
    t.mem.load (as.frames + 4 * UInt32.ofNat k) = s.mem.load (as.frames + 4 * UInt32.ofNat k) := by
  obtain ⟨slotB, -, -, lenB, -⟩ := built.slots
  obtain ⟨lowB, highB, lowC, highC, apart⟩ := built.lists_place
  have bound := numFrames_le size
  have place := built.listed_place inside
  have word := built.list_aligned (UInt32.ofNat k)
  have directory := spared.apart pd built.pd_mem
  have few := numPts_eq size
  rcases built.load_cases spared word (by omega) with store | ⟨-, kept⟩
  · cases store with
    | link i _ place' _ => omega
    | entry i inside' place' _ => omega
    | listed i _ place' _ => omega
    | page i inside' place' _ =>
      have table := spared.apart _ (built.tableFrame_mem (page_table inside'))
      omega
  · have small := built.directory_small spared
    have start := frameAddr_toNat (f := pd) (by omega)
    rw [kept]
    refine Mem.load_congr word.room ?_
    intro x lower upper
    rw [fill_outside m 0 (by omega) (by omega)]
    exact (spared.plain h'.layout slotB (by unfold Slot.Has Slot.past; omega)).touches built.touches

/-- An entry of a page table leads to a page, or is as it was in the frame before, or
comes from a directory that went on past its frame. -/
theorem table_word {i j : Nat} (inside : i < numPts size) (small : j < 1024) :
    (1024 * i + j < numFrames size ∧ t.mem.load (frameAddr (tableFrame fs i) + 4 * UInt32.ofNat j) =
      frameToPteUser (frameAddr (pageFrame fs (1024 * i + j)) + 1)) ∨
    (∃ k, k < numPts size ∧ 768 ≤ k ∧ t.mem.load (frameAddr (tableFrame fs i) + 4 * UInt32.ofNat j) =
      frameToPdeUser (frameAddr (tableFrame fs k))) ∨
    (numFrames size ≤ 1024 * i + j ∧ t.mem.load (frameAddr (tableFrame fs i) + 4 * UInt32.ofNat j) =
      s.mem.load (frameAddr (tableFrame fs i) + 4 * UInt32.ofNat j)) := by
  obtain ⟨lowB, highB, lowC, highC, -⟩ := built.lists_place
  have free := built.tableFrame_mem inside
  have differ := built.pd_ne_table inside
  have heap := spared.apart _ free
  have index : (UInt32.ofNat j).toNat = j := by
    rw [UInt32.toNat_ofNat']
    omega
  have place : (frameAddr (tableFrame fs i) + 4 * UInt32.ofNat j).toNat =
      4096 * tableFrame fs i + 4 * j := by
    rw [frameWord_toNat (spared.small free) (by omega), index]
  have word := (frameAddr_aligned (tableFrame fs i)).add (Mem.aligned_four (UInt32.ofNat j))
  rcases built.load_cases spared word (by omega) with store | ⟨none, kept⟩
  · cases store with
    | link k _ place' _ => omega
    | entry k inside' place' value => exact Or.inr (Or.inl ⟨k, inside', by omega, value⟩)
    | listed k _ place' _ => omega
    | page k inside' place' value =>
      have same : i = k / 1024 :=
        built.tableFrame_inj inside (page_table inside') (by omega)
      subst same
      left
      rw [show 1024 * (k / 1024) + j = k by omega]
      exact ⟨inside', value⟩
  · right; right
    constructor
    · by_contra wanted
      have page := (built.page_mem (k := 1024 * i + j) (by omega)).2
      rw [show (1024 * i + j) / 1024 = i by omega, show (1024 * i + j) % 1024 = j by omega] at page
      exact none _ page
    · rw [kept]
      have directory := frameAddr_toNat (f := pd) (by have := built.directory_small spared; omega)
      refine Mem.load_congr word.room ?_
      intro x lower upper
      rw [fill_outside m 0 (by have := built.directory_small spared; omega) (by omega)]
      exact built.touches.outside h'.layout (by omega)

/-- The user part of the directory. -/
theorem user_word {e : Nat} (lower : 256 ≤ e) (upper : e < 1024) :
    t.mem.load (as.pd + 4 * UInt32.ofNat e) =
      if e - 256 < numPts size then frameToPdeUser (frameAddr (tableFrame fs (e - 256))) else 0 := by
  obtain ⟨lowB, highB, lowC, highC, -⟩ := built.lists_place
  have small := built.directory_small spared
  have heap := spared.apart pd built.pd_mem
  have index : (UInt32.ofNat e).toNat = e := by
    rw [UInt32.toNat_ofNat']
    omega
  have place := built.directory_word spared (i := UInt32.ofNat e) (by omega)
  rw [index] at place
  have word : Mem.Aligned (as.pd + 4 * UInt32.ofNat e) := by
    unfold Mem.Aligned
    omega
  rcases built.load_cases spared word (by omega) with store | ⟨none, kept⟩
  · cases store with
    | link k _ place' _ => omega
    | entry k inside place' value =>
      have same : e - 256 = k := by omega
      rw [value, same, if_pos inside]
    | listed k _ place' _ => omega
    | page k inside place' _ =>
      have differ := built.pd_ne_table (page_table inside)
      omega
  · have absent : ¬e - 256 < numPts size := by
      intro inside
      have entry := built.entry_mem inside
      rw [show UInt32.ofNat (e - 256) + kernPdOffset = UInt32.ofNat e by
        apply UInt32.toNat_inj.mp
        rw [UInt32.toNat_add, UInt32.toNat_ofNat', show kernPdOffset.toNat = 256 by decide, index]
        omega] at entry
      exact none _ entry
    have directory := frameAddr_toNat (f := pd) (by omega)
    rw [kept, if_neg absent, load_fill_zero m (by omega) (by omega) (by omega)]

/-- The kernel's part of the directory. -/
theorem kernel_word {kern : Nat} (small : kern < 1048576) (dir : s.kernPageDir = frameAddr kern)
    (held : kern ∉ freeList s) {e : Nat} (inside : e < 256) :
    t.mem.load (as.pd + 4 * UInt32.ofNat e) = t.mem.load (s.kernPageDir + 4 * UInt32.ofNat e) := by
  have differ : kern ≠ pd := fun same => held (same ▸ built.pd_mem)
  have zero : ∀ j, 0 + UInt32.ofNat j = UInt32.ofNat j := fun j => UInt32.zero_add _
  have index : ∀ j, j < 256 → (UInt32.ofNat j).toNat = j := by
    intro j short
    rw [UInt32.toNat_ofNat']
    omega
  have smallPd := built.directory_small spared
  have wordK : ∀ j, j < 256 → (frameAddr kern + 4 * UInt32.ofNat j).toNat = 4096 * kern + 4 * j := by
    intro j short
    rw [frameWord_toNat small (by rw [index j short]; omega), index j short]
  have wordP : ∀ j, j < 256 → (frameAddr pd + 4 * UInt32.ofNat j).toNat = 4096 * pd + 4 * j := by
    intro j short
    rw [frameWord_toNat (by omega) (by rw [index j short]; omega), index j short]
  have apart : ∀ j k, j < 256 → k < 256 →
      frameAddr kern + 4 * (0 + UInt32.ofNat j) ≠ frameAddr pd + 4 * (0 + UInt32.ofNat k) := by
    intro j k shortJ shortK same
    rw [zero, zero] at same
    have placeJ := wordK j shortJ
    have placeK := wordP k shortK
    rw [same] at placeJ
    omega
  have copied := load_kernelWrites (frameAddr_aligned pd) (frameAddr_aligned kern) 256 0
    ((fill m (frameAddr pd) 0 4096).storeAll (spaceWrites as (numPts size) 0 (numFrames size) fs))
    apart (by
      intro j k shortJ shortK same
      rw [zero, zero] at same
      have placeJ := wordP j shortJ
      have placeK := wordP k shortK
      rw [same] at placeJ
      omega) inside
  rw [zero] at copied
  have start : as.pd = frameAddr pd := by rw [built.space]
  rw [start, built.mem_eq, dir, copied]
  refine (load_kernelWrites_other (frameAddr_aligned pd)
    ((frameAddr_aligned kern).add (Mem.aligned_four _)) _ ?_).symm
  intro k short
  have other := apart e k inside short
  rwa [zero] at other

/-- Behind the first allocations nothing changes off the frames and the lists. -/
theorem byte_after (fits : 4 * numPts size ≤ 3072 + behind) {x : UInt32}
    (frames : OffFrames (freeList s) behind x) (notB : ¬b.Has x) (notC : ¬c.Has x) :
    t.mem x = m x := by
  obtain ⟨-, -, -, lenB, lenC⟩ := built.slots
  have small := built.directory_small spared
  have few := numPts_le size
  have directory := frames pd built.pd_mem
  have start := frameAddr_toNat (f := pd) (by omega)
  unfold Slot.Has Slot.past at notB notC
  rw [built.mem_eq, Mem.storeAll_outside _ (kernelWrites_aligned (frameAddr_aligned pd)),
    Mem.storeAll_outside _ (built.spaceWrites_aligned spared), fill_outside m 0 (by omega) (by omega)]
  · rintro ⟨a, v⟩ member
    change x.toNat < a.toNat ∨ a.toNat + 4 ≤ x.toNat
    cases built.store_cases spared member with
    | link k inside place _ => omega
    | entry k inside place _ => omega
    | listed k inside place _ => omega
    | page k inside place _ =>
      have table := frames _ (built.tableFrame_mem (page_table inside))
      omega
  · rintro ⟨a, v⟩ member
    obtain ⟨k, inside, rfl⟩ := mem_kernelWrites member
    have index : (0 + UInt32.ofNat k).toNat = k := by
      rw [UInt32.zero_add, UInt32.toNat_ofNat']
      omega
    have place := frameWord_far small (k := 0 + UInt32.ofNat k) (by omega)
    change x.toNat < (frameAddr pd + 4 * (0 + UInt32.ofNat k)).toNat ∨
      (frameAddr pd + 4 * (0 + UInt32.ofNat k)).toNat + 4 ≤ x.toNat
    omega

theorem byte_kept (fits : 4 * numPts size ≤ 3072 + behind) {x : UInt32}
    (plain : Plain R (h'.free ++ h'.used) (freeList s) behind x) (notB : ¬b.Has x) (notC : ¬c.Has x) :
    t.mem x = s.mem x := by
  rw [built.byte_after spared fits plain.frames notB notC]
  exact plain.touches built.touches

/-- The heap is the one that the two lists were taken from. -/
theorem hosts_after (fits : 4 * numPts size ≤ 3072 + behind) : Hosts t h' := by
  obtain ⟨slotB, slotC, -⟩ := built.slots
  refine built.hosts.congr (by rw [built.result]; rfl) (by rw [built.result]; rfl) ?_
  intro x lower upper data
  exact built.byte_after spared fits (spared.off lower upper) (data b slotB) (data c slotC)

end

end Built

end Sos.Kernel
