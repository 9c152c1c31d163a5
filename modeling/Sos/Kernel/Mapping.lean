import Sos.Kernel.HeapInvariant
import Sos.Kernel.SpaceWords

/-! A new address space maps its pages and the kernel. -/

namespace Sos.Kernel
open Sos.Lib Machine

/-- What `alloc_addr_space` on `s` leads to in `t`: a directory, tables and pages in frames
that were free, every page mapped for the user, and below the user's addresses what the
kernel's own directory maps. -/
structure Maps (s t : Machine) (size : UInt32) (as : AddrSpace) (dir : Nat) (table page : Nat → Nat) :
    Prop where
  directory : as.pd = frameAddr dir
  tables : as.numPts.toNat = numPts size ∧
    ∀ i < numPts size, t.mem.load (as.pts + 4 * UInt32.ofNat i) = frameAddr (table i)
  pages : ∀ k < numFrames size, ∀ o < 4096,
    pageWalk t.mem as.pd (memspaceUserMem + UInt32.ofNat (4096 * k + o)) =
      some ⟨frameAddr (page k), true, true⟩
  wasFree : ∀ k < numFrames size, page k ∈ freeList s
  distinct : ∀ j k, j < numFrames size → k < numFrames size → page j = page k → j = k
  apart : ∀ k < numFrames size, page k ≠ dir ∧ ∀ i < numPts size, page k ≠ table i
  covered : size.toNat ≤ 4096 * numFrames size
  kernel : ∀ va, va < memspaceUserMem → pageWalk t.mem as.pd va = pageWalk t.mem t.kernPageDir va

theorem user_address {k o : Nat} (small : k < 786432) (inside : o < 4096) :
    (memspaceUserMem + UInt32.ofNat (4096 * k + o)).toNat = 1073741824 + 4096 * k + o := by
  rw [UInt32.toNat_add, UInt32.toNat_ofNat', show memspaceUserMem.toNat = 1073741824 by decide]
  omega

/-- The entries that the walk reads for a user address. -/
theorem user_indices {va : UInt32} {i j o : Nat} (inside : j < 1024) (short : o < 4096)
    (place : va.toNat = 1073741824 + 4096 * (1024 * i + j) + o) :
    va >>> (22 : UInt32) = UInt32.ofNat (i + 256) ∧
      (va >>> (12 : UInt32)) &&& 0x3FF = UInt32.ofNat j := by
  have bound := va.toNat_lt
  constructor
  · apply UInt32.toNat_inj.mp
    rw [directory_index, UInt32.toNat_ofNat', place]
    omega
  · apply UInt32.toNat_inj.mp
    rw [table_index, UInt32.toNat_ofNat', place]
    omega

namespace Built
variable {R : Region} {s t : Machine} {h h' : Heap R} {size : UInt32} {as : AddrSpace} {b c : Slot}
  {m : Mem} {pd : Nat} {fs : List Nat} {behind : Nat} (built : Built s h size as t b c h' m pd fs)
  (spared : Spared R s behind)
include built spared

theorem walk_user {va : UInt32} {i j o : Nat} (inside : i < numPts size) (last : i < 768)
    (small : j < 1024) (short : o < 4096)
    (place : va.toNat = 1073741824 + 4096 * (1024 * i + j) + o) :
    t.mem.load (as.pd + 4 * (va >>> (22 : UInt32))) = frameToPdeUser (frameAddr (tableFrame fs i)) ∧
      t.mem.load (frameAddr (tableFrame fs i) + 4 * ((va >>> (12 : UInt32)) &&& 0x3FF)) =
        t.mem.load (frameAddr (tableFrame fs i) + 4 * UInt32.ofNat j) := by
  obtain ⟨first, second⟩ := user_indices small short place
  have entry := built.user_word spared (e := i + 256) (by omega) (by omega)
  rw [show i + 256 - 256 = i by omega, if_pos inside] at entry
  rw [first, second]
  exact ⟨entry, rfl⟩

theorem pageWalk_page (fits : numPts size ≤ 768) {k o : Nat} (inside : k < numFrames size)
    (short : o < 4096) :
    pageWalk t.mem as.pd (memspaceUserMem + UInt32.ofNat (4096 * k + o)) =
      some ⟨frameAddr (pageFrame fs k), true, true⟩ := by
  have shape := numPts_eq size
  have table := page_table inside
  have place := user_address (k := k) (o := o) (by omega) short
  have index : 1024 * (k / 1024) + k % 1024 = k := by omega
  obtain ⟨entry, word⟩ := built.walk_user spared table (by omega) (j := k % 1024) (by omega) short
    (by rw [index]; exact place)
  have small := spared.small (built.tableFrame_mem table)
  refine pageWalk_mapped small (spared.small (built.pageFrame_mem inside)) entry ?_
  rw [word]
  rcases built.table_word spared table (j := k % 1024) (by omega) with
    ⟨-, page⟩ | ⟨i, inside', past, -⟩ | ⟨past, -⟩
  · rw [page, index]
  · omega
  · omega

theorem pageWalk_kernel {kern : Nat} (small : kern < 1048576) (dir : s.kernPageDir = frameAddr kern)
    (held : kern ∉ freeList s) {va : UInt32} (below : va < memspaceUserMem) :
    pageWalk t.mem as.pd va = pageWalk t.mem t.kernPageDir va := by
  have bound := UInt32.lt_iff_toNat_lt.mp below
  rw [show memspaceUserMem.toNat = 1073741824 by decide] at bound
  have same : t.kernPageDir = s.kernPageDir := by
    rw [built.result]
    rfl
  have index : va >>> (22 : UInt32) = UInt32.ofNat (va.toNat / 4194304) := by
    apply UInt32.toNat_inj.mp
    rw [directory_index, UInt32.toNat_ofNat']
    omega
  have word := built.kernel_word spared small dir held (e := va.toNat / 4194304) (by omega)
  unfold pageWalk
  rw [same, index, word]

theorem maps (fits : numPts size ≤ 768) {kern : Nat} (small : kern < 1048576)
    (dir : s.kernPageDir = frameAddr kern) (held : kern ∉ freeList s) :
    Maps s t size as pd (tableFrame fs) (pageFrame fs) where
  directory := by rw [built.space]
  tables := by
    refine ⟨by rw [built.space]; exact numPts_toNat size, ?_⟩
    intro i inside
    exact built.link_word spared (by omega) inside
  pages := fun k inside o short => built.pageWalk_page spared fits inside short
  wasFree := fun k inside => built.pageFrame_mem inside
  distinct := fun j k insideJ insideK same => built.pageFrame_inj insideJ insideK same
  apart := fun k inside =>
    ⟨(built.pd_ne_page inside).symm, fun i insideI => (built.tableFrame_ne_page insideI inside).symm⟩
  covered := by
    unfold numFrames
    omega
  kernel := fun va below => built.pageWalk_kernel spared small dir held below

end Built

/-- With a heap that can give the lists and with enough free frames `alloc_addr_space`
returns successfully, and the new address space maps what was asked for. -/
theorem allocAddrSpace_maps {R : Region} {s s₁ s₂ : Machine} {h : Heap R} {fuel kern : Nat}
    {size frames pts : UInt32} (unheld : Prog Machine Unit) (hosts : Hosts s h)
    (steps : R.length.toNat / 8 < fuel) (spared : Spared R s 0)
    (dir : s.kernPageDir = frameAddr kern) (small : kern < 1048576) (held : kern ∉ freeList s)
    (fits : numPts size ≤ (pdEntries - kernPdOffset).toNat)
    (framesGiven : kalloc fuel ((size / frameLen + 1) * 4) s = .done frames s₁) (framesValid : frames ≠ 0)
    (ptsGiven : kalloc fuel (((size / frameLen + 1) / ptEntries + 1) * 4) s₁ = .done pts s₂)
    (ptsValid : pts ≠ 0) (enough : 1 + numPts size + numFrames size ≤ (freeList s).length) :
    ∃ as t, allocAddrSpace unheld fuel size s = .done (retSuccess, as) t ∧
      ∃ dir table page, Maps s t size as dir table page := by
  have bound := numFrames_le size
  have few := numPts_le size
  rcases hosts.request steps ((size / frameLen + 1) * 4) (by rw [list_small]; omega) with
    ⟨-, run⟩ | ⟨b, h₁, m₁, first, run, hosts₁, -⟩
  · rw [run, Outcome.done.injEq] at framesGiven
    exact absurd framesGiven.1.symm framesValid
  · rw [run, Outcome.done.injEq] at framesGiven
    obtain ⟨rfl, rfl⟩ := framesGiven
    rcases hosts₁.request steps (((size / frameLen + 1) / ptEntries + 1) * 4)
      (by rw [pts_small]; omega) with ⟨-, run'⟩ | ⟨c, h', m, second, -, -, -⟩
    · rw [run', Outcome.done.injEq] at ptsGiven
      exact absurd ptsGiven.1.symm ptsValid
    · cases list : freeList s with
      | nil =>
        rw [list] at enough
        simp at enough
      | cons pd fs =>
        rw [list, List.length_cons] at enough
        obtain ⟨as, t, m', run, built⟩ := allocAddrSpace_done hosts steps spared list
          (by rw [demand_eq]; omega) first second
        exact ⟨as, t, run unheld, pd, _, _, built.maps spared fits small dir held⟩

/-- A machine with four megabytes of memory: the heap is in the second one, the last two
are free. -/
def fourMegabytes (m : Mem) : Machine where
  mem := m
  kallocBase := 0x100000
  kallocInited := true
  memmanInited := true
  frameCount := 1024
  frameMap := fun i => if i < 512 then ⟨true, 1⟩ else ⟨false, 0⟩
  kernPageDir := 0x1000
  schedStartProc := 0x2000
  proctab := fun _ => ⟨0, .null, 0, 0⟩
  curproc := 0
  gdt := fun _ => ⟨0, 0, 0, 0, 0, 0⟩

theorem freeList_fourMegabytes (m : Mem) : freeList (fourMegabytes m) = List.range' 512 512 := by
  change ((List.range 1024).filter fun i =>
    (if i < 512 then (⟨true, 1⟩ : Frame) else ⟨false, 0⟩).count = 0) = List.range' 512 512
  decide +kernel

theorem spared_fourMegabytes (m : Mem) (behind : Nat) : Spared megabyte (fourMegabytes m) behind where
  count := by change 1024 < 1048576; decide
  apart := by
    intro f free
    rw [freeList_fourMegabytes, List.mem_range'_1] at free
    change 2097152 ≤ 4096 * f ∨ _
    omega

theorem allocAddrSpace_small (m : Mem) : ∃ m₀ as t b c h' m' fs,
    initAlloc 0x100000 0x100000 m = .done retSuccess m₀ ∧
    Hosts (fourMegabytes m₀) (Heap.init megabyte) ∧
    allocAddrSpace goOn 131073 0 (fourMegabytes m₀) = .done (retSuccess, as) t ∧
    Built (fourMegabytes m₀) (Heap.init megabyte) 0 as t b c h' m' 512 fs := by
  obtain ⟨m₀, init, rep⟩ := initAlloc_done megabyte m
  have hosts : Hosts (fourMegabytes m₀) (Heap.init megabyte) := ⟨rfl, rfl, rep⟩
  have both : (((Heap.init megabyte).request 4).bind fun r => r.2.request 4).isSome = true := by
    decide +kernel
  obtain ⟨⟨c, h'⟩, both⟩ := Option.isSome_iff_exists.mp both
  obtain ⟨⟨b, h₁⟩, first, second⟩ := Option.bind_eq_some_iff.mp both
  have list : freeList (fourMegabytes m₀) = 512 :: List.range' 513 511 := freeList_fourMegabytes m₀
  obtain ⟨as, t, m', run, built⟩ := allocAddrSpace_done hosts
    (show megabyte.length.toNat / 8 < 131073 by decide) (spared_fourMegabytes m₀ 0) list
    (show demand (numPts 0) (numFrames 0) ≤ _ by rw [List.length_range']; decide) first second
  exact ⟨m₀, as, t, b, c, h', m', _, init, hosts, run goOn, built⟩

theorem allocAddrSpace_maps_two : ∃ m₀ as t,
    initAlloc 0x100000 0x100000 (fun _ => 0xFF) = .done retSuccess m₀ ∧
    allocAddrSpace goOn 131073 5000 (fourMegabytes m₀) = .done (retSuccess, as) t ∧
      ∃ dir table page, Maps (fourMegabytes m₀) t 5000 as dir table page := by
  obtain ⟨m₀, init, rep⟩ := initAlloc_done megabyte fun _ => 0xFF
  have hosts : Hosts (fourMegabytes m₀) (Heap.init megabyte) := ⟨rfl, rfl, rep⟩
  have steps : megabyte.length.toNat / 8 < 131073 := by decide
  have first : ((Heap.init megabyte).request 8).isSome = true := by decide +kernel
  have second : (((Heap.init megabyte).request 8).bind fun r => r.2.request 4).isSome = true := by
    decide +kernel
  rcases hosts.request steps 8 (by decide) with ⟨none, -⟩ | ⟨b, h₁, m₁, given, run, hosts₁, -⟩
  · rw [none] at first
    cases first
  · rw [given, Option.bind_some] at second
    rcases hosts₁.request steps 4 (by decide) with ⟨none, -⟩ | ⟨c, h₂, m₂, given', run', -, -⟩
    · rw [none] at second
      cases second
    · have out : 1 ∉ freeList (fourMegabytes m₀) := by
        rw [freeList_fourMegabytes, List.mem_range'_1]
        omega
      have length : (freeList (fourMegabytes m₀)).length = 512 := by
        rw [freeList_fourMegabytes, List.length_range']
      have dir : (fourMegabytes m₀).kernPageDir = frameAddr 1 := rfl
      obtain ⟨as, t, made, maps⟩ := allocAddrSpace_maps goOn hosts steps
        (spared_fourMegabytes m₀ 0) dir (by decide) out (show numPts 5000 ≤ _ by decide) run
        ((Heap.init megabyte).request_some given).valid run' (h₁.request_some given').valid
        (by rw [length]; decide)
      exact ⟨m₀, as, t, init, made, maps⟩

end Sos.Kernel
