import Sos.Kernel.InitPaging

/-! Which memory the kernel reaches through its page directory. -/

namespace Sos.Kernel
open Sos.Lib Machine

/-- The walk for an address of a frame, through the entries in frames. -/
theorem walk_frame {m : Mem} {dir f g h : Nat} (smallF : f < 1048576) (smallG : g < 1048576)
    (smallH : h < 1048576) (entry : frameEntry m dir (f / 1024) = frameToPdeUser (frameAddr g))
    (page : frameEntry m g (f % 1024) = frameToPteUser (frameAddr h)) :
    (pageWalk m (frameAddr dir) (frameAddr f)).map Translation.frame = some (frameAddr h) := by
  have place := frameAddr_toNat smallF
  have first : frameAddr f >>> (22 : UInt32) = UInt32.ofNat (f / 1024) := by
    apply UInt32.toNat_inj.mp
    rw [directory_index, place, UInt32.toNat_ofNat']
    omega
  have second : (frameAddr f >>> (12 : UInt32)) &&& 0x3FF = UInt32.ofNat (f % 1024) := by
    apply UInt32.toNat_inj.mp
    rw [table_index, place, UInt32.toNat_ofNat']
    omega
  have page' : frameToPteUser (frameAddr h) = frameToPteUser (frameAddr h + 1) :=
    (frameToPdeUser_eq smallH).trans (frameToPteUser_eq smallH).symm
  unfold frameEntry at entry page
  rw [← first] at entry
  rw [← second, page'] at page
  rw [pageWalk_mapped smallG smallH entry page]
  rfl

theorem walk_absent {m : Mem} {dir f : Nat} (small : f < 1048576)
    (entry : frameEntry m dir (f / 1024) = 0) : pageWalk m (frameAddr dir) (frameAddr f) = none := by
  have first : frameAddr f >>> (22 : UInt32) = UInt32.ofNat (f / 1024) := by
    apply UInt32.toNat_inj.mp
    rw [directory_index, frameAddr_toNat small, UInt32.toNat_ofNat']
    omega
  unfold frameEntry at entry
  rw [← first] at entry
  exact pageWalk_absent entry

/-- With more than the reserved memory there are frames for the tables. -/
theorem Reserved.paging {memorySize : UInt32} {t : Machine} (reserved : Reserved memorySize t) (dir : Nat)
    (smallD : dir < 1048576) (enough : 33 ≤ memorySize.toNat % 4194304 / 4) :
    ∃ u, initPaging (frameAddr dir) t = .done retSuccess u := by
  refine initPaging_given smallD reserved.bound ?_
  rw [reserved.freeList_eq, List.length_range', reserved.frameCount]
  omega

section
variable {dir : Nat} {memorySize : UInt32} {t u : Machine} (reserved : Reserved memorySize t)
  (smallD : dir < 1048576) (paging : initPaging (frameAddr dir) t = .done retSuccess u)
include reserved smallD paging

/-- The directory and the tables, which follow the reserved frames. -/
theorem initPaging_reserved : u.kernPageDir = frameAddr dir ∧ u.frameCount = t.frameCount ∧
    IdentityMapped dir (List.range' 32 (t.frameCount.toNat / 1024)) u.mem := by
  obtain ⟨enough, page, count, mapped⟩ := initPaging_done smallD reserved.bound paging
  rw [reserved.freeList_eq, List.length_range'] at enough
  rw [reserved.freeList_eq, List.take_range'_of_length_ge enough] at mapped
  exact ⟨page, count, mapped⟩

/-- With whole tables for all frames, and the directory apart from them. -/
theorem initPaging_whole (whole : 1024 ∣ t.frameCount.toNat)
    (apart : dir < 32 ∨ 32 + t.frameCount.toNat / 1024 ≤ dir) : MapsMemory u := by
  obtain ⟨page, count, mapped⟩ := initPaging_reserved reserved smallD paging
  have bound := reserved.bound
  intro f inside
  rw [count] at inside
  have at_ : (List.range' 32 (t.frameCount.toNat / 1024))[f / 1024]? = some (32 + f / 1024) := by
    rw [List.getElem?_range' (by omega), Nat.one_mul]
  have off : ∀ l : Nat, (List.range' 32 (t.frameCount.toNat / 1024))[l]? ≠ some dir := by
    intro l found
    have member := List.mem_of_getElem? found
    rw [List.mem_range'_1] at member
    omega
  have entry := mapped.entry _ _ at_ fun l _ => off l
  have word := mapped.table _ _ at_ (by omega) (f % 1024) (by omega)
  rw [show 1024 * (f / 1024) + f % 1024 = f by omega] at word
  rw [page]
  exact walk_frame (by omega) (by omega) (by omega) entry word

/-- What is left after the last whole table is not mapped. -/
theorem initPaging_leftover (rest : ¬1024 ∣ t.frameCount.toNat)
    (apart : dir < 32 ∨ 32 + t.frameCount.toNat / 1024 ≤ dir) : ¬MapsMemory u := by
  obtain ⟨page, count, mapped⟩ := initPaging_reserved reserved smallD paging
  have bound := reserved.bound
  intro maps
  have reach := maps (1024 * (t.frameCount.toNat / 1024)) (by rw [count]; omega)
  have off : dir ∉ List.range' 32 (t.frameCount.toNat / 1024) := by
    rw [List.mem_range'_1]
    omega
  have entry := mapped.absent off (t.frameCount.toNat / 1024) (by rw [List.length_range']) (by omega)
  rw [page, walk_absent (by omega) (by rwa [Nat.mul_div_cancel_left _ (by decide)])] at reach
  cases reach

/-- The directory as a page table maps its own four megabytes to the wrong place. -/
theorem initPaging_clobbered (low : 32 ≤ dir) (high : dir < 32 + t.frameCount.toNat / 1024) :
    ¬MapsMemory u := by
  obtain ⟨page, count, mapped⟩ := initPaging_reserved reserved smallD paging
  have bound := reserved.bound
  obtain ⟨k, rfl⟩ := Nat.exists_eq_add_of_le low
  intro maps
  have reach := maps (1024 * k + k) (by rw [count]; omega)
  have at_ : (List.range' 32 (t.frameCount.toNat / 1024))[k]? = some (32 + k) := by
    rw [List.getElem?_range' (by omega), Nat.one_mul]
  have entry := mapped.entry _ _ at_ (by
    intro l after found
    obtain ⟨short, same⟩ := List.getElem?_eq_some_iff.mp found
    rw [List.getElem_range'] at same
    omega)
  have wrong := walk_frame (f := 1024 * k + k) (g := 32 + k) (h := 32 + k) (by omega) smallD smallD
    (by rwa [show (1024 * k + k) / 1024 = k by omega])
    (by rw [show (1024 * k + k) % 1024 = k by omega]; exact entry)
  rw [page, wrong, Option.some.injEq] at reach
  have places := congrArg UInt32.toNat reach
  rw [frameAddr_toNat smallD, frameAddr_toNat (by omega)] at places
  omega

end

/-- When the kernel reaches all of the memory it manages. -/
theorem initPaging_maps_iff {fuel dir : Nat} {memorySize : UInt32} {s t u : Machine} (smallD : dir < 1048576)
    (init : initMemman fuel memorySize s = .done retSuccess t)
    (paging : initPaging (frameAddr dir) t = .done retSuccess u) :
    MapsMemory u ↔ 1024 ∣ t.frameCount.toNat ∧ (dir < 32 ∨ 32 + t.frameCount.toNat / 1024 ≤ dir) := by
  have reserved := initMemman_done init
  constructor
  · intro maps
    have apart : dir < 32 ∨ 32 + t.frameCount.toNat / 1024 ≤ dir := by
      by_contra clobbered
      exact initPaging_clobbered reserved smallD paging (by omega) (by omega) maps
    refine ⟨?_, apart⟩
    by_contra rest
    exact initPaging_leftover reserved smallD paging rest apart maps
  · rintro ⟨whole, apart⟩
    exact initPaging_whole reserved smallD paging whole apart

/-- Eight megabytes, with the directory in a reserved frame. -/
theorem initPaging_maps_eight : ∃ m₀ t u, initMemman 131073 8192 (fourMegabytes m₀) = .done retSuccess t ∧
    initPaging (frameAddr 16) t = .done retSuccess u ∧
    (MapsMemory u ↔ 1024 ∣ t.frameCount.toNat ∧ (16 < 32 ∨ 32 + t.frameCount.toNat / 1024 ≤ 16)) := by
  obtain ⟨m₀, t, -, init⟩ := initMemman_started 8192 (by decide +kernel)
  obtain ⟨u, paging⟩ := (initMemman_done init).paging 16 (by decide) (by decide)
  exact ⟨m₀, t, u, init, paging, initPaging_maps_iff (by decide) init paging⟩

/-- With six megabytes the last two are not mapped. -/
theorem initPaging_six : ∃ m₀ t u, initMemman 131073 6144 (fourMegabytes m₀) = .done retSuccess t ∧
    initPaging (frameAddr 16) t = .done retSuccess u ∧ ¬MapsMemory u := by
  obtain ⟨m₀, t, -, init⟩ := initMemman_started 6144 (by decide +kernel)
  have reserved := initMemman_done init
  obtain ⟨u, paging⟩ := reserved.paging 16 (by decide) (by decide)
  refine ⟨m₀, t, u, init, paging, initPaging_leftover reserved (by decide) paging ?_ (Or.inl (by decide))⟩
  rw [reserved.frameCount]
  decide

end Sos.Kernel
