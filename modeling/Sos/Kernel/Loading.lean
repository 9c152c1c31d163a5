import Sos.Kernel.Isolation
import Sos.Kernel.Leak

/-! Where `create_process` puts a program. The entries of the list of frames carry a mark, so
that each copy goes one byte too far. -/

namespace Sos.Kernel
open Sos.Lib Machine

/-- The pieces of memory that the copy of a program writes: where each starts and its length. -/
def copyWrites (as : AddrSpace) (text : UInt32) : Nat → UInt32 → UInt32 → Mem → List (UInt32 × Nat)
  | 0, _, _, _ => []
  | left + 1, i, copyLeft, m =>
    let dest := m.load (as.frames + 4 * i)
    let n := (if copyLeft > frameLen then frameLen else copyLeft).toNat
    (dest, n) :: copyWrites as text left (i + 1) (copyLeft - frameLen) (copyBytes n dest text m)

/-- They are all that it does. -/
theorem copyText_writes {as : AddrSpace} (valid : as.frames ≠ 0) (text : UInt32) (left : Nat) (i copyLeft : UInt32)
    (s : Machine) : copyText as text left i copyLeft s = .done () (s.withMem
      ((copyWrites as text left i copyLeft s.mem).foldl (fun m w => copyBytes w.2 w.1 text m) s.mem)) := by
  induction left generalizing i copyLeft s with
  | zero => rfl
  | succ left ih =>
    rw [copyText, Prog.bind_done _ (fetch_done valid i)]
    exact ih (i + 1) (copyLeft - frameLen) (s.withMem _)

/-- A byte that the copy writes. -/
def Written (writes : List (UInt32 × Nat)) (x : UInt32) : Prop :=
  ∃ w, w ∈ writes ∧ ∃ j, j < w.2 ∧ x = w.1 + UInt32.ofNat j

/-- The frame of page `k`: the free frames go to the directory and then to each page table and
its pages. -/
def dataFrame (s : Machine) (k : Nat) : Nat := nthFree s (1025 * (k / 1024) + k % 1024 + 2)

/-- A byte of one of the pages. -/
def InData (s : Machine) (size x : UInt32) : Prop :=
  ∃ k, k < numFrames size ∧ 4096 * dataFrame s k ≤ x.toNat ∧ x.toNat < 4096 * dataFrame s k + 4096

/-- The process made from `s` has its program where it will run, and the copy wrote nowhere else. -/
structure Loads (fuel : Nat) (s : Machine) (text tLen : UInt32) (q : Process) (t : Machine) : Prop where
  loaded : ∀ k, k < tLen.toNat →
    userByte t q (memspaceUserMem + UInt32.ofNat k) = some (s.mem (text + UInt32.ofNat k))
  inside : ∀ as a u v w, allocAddrSpace goOn fuel (tLen + dataLen) s = .done (retSuccess, as) u →
    kalloc fuel 20 u = .done a v → putAddrSpace a as v = .done () w →
    ∀ x, Written (copyWrites as text as.numFrames.toNat 0 tLen w.mem) x → InData s (tLen + dataLen) x

theorem freeList_sorted (s : Machine) : (freeList s).Pairwise (· < ·) := by
  unfold freeList
  split
  · exact List.pairwise_lt_range.filter _
  · exact List.Pairwise.nil

/-- As long as the list names frames, the copy follows it. -/
theorem copyWrites_mem {as : AddrSpace} {fs : List Nat} (text : UInt32) (small : ∀ f, f ∈ fs → f + 1 < 1048576)
    (word : Mem.Aligned as.frames) {n left : Nat} (short : n < left) {i : UInt32} (copyLeft : UInt32) (m : Mem)
    (off : ∀ k, k ≤ n → ∀ x : UInt32, (as.frames + 4 * (i + UInt32.ofNat k)).toNat ≤ x.toNat →
      x.toNat < (as.frames + 4 * (i + UInt32.ofNat k)).toNat + 4 → OffFrames fs 1 x)
    (names : ∀ k, k ≤ n → ∃ f, f ∈ fs ∧ m.load (as.frames + 4 * (i + UInt32.ofNat k)) = frameAddr f + 1) :
    (m.load (as.frames + 4 * (i + UInt32.ofNat n)),
      (if copyLeft - frameLen * UInt32.ofNat n > frameLen then frameLen
        else copyLeft - frameLen * UInt32.ofNat n).toNat) ∈ copyWrites as text left i copyLeft m := by
  obtain ⟨left, rfl⟩ := Nat.exists_eq_add_of_lt short
  induction n generalizing i copyLeft m with
  | zero =>
    have here : i + UInt32.ofNat 0 = i := UInt32.add_zero i
    have rest : copyLeft - frameLen * UInt32.ofNat 0 = copyLeft := UInt32.sub_zero copyLeft
    rw [here, rest, Nat.zero_add, copyWrites]
    exact List.mem_cons_self
  | succ n ih =>
    have here : i + UInt32.ofNat 0 = i := UInt32.add_zero i
    obtain ⟨f, member, entry⟩ := names 0 (by omega)
    rw [here] at entry
    have place := frameAddr_succ_toNat (small f member)
    have length := chunk_le copyLeft
    have kept : ∀ k, k < n + 1 → (copyBytes (if copyLeft > frameLen then frameLen else copyLeft).toNat
        (frameAddr f + 1) text m).load (as.frames + 4 * (i + 1 + UInt32.ofNat k)) =
          m.load (as.frames + 4 * (i + 1 + UInt32.ofNat k)) := by
      intro k inside
      refine Mem.load_congr (word.add (Mem.aligned_four _)).room fun x lower upper => ?_
      rw [← index_shift] at lower upper
      have apart := off (k + 1) (by omega) x lower upper f member
      have last := small f member
      exact copyBytes_outside m (by omega) (by omega)
    have rest : copyLeft - frameLen * UInt32.ofNat (n + 1) = copyLeft - frameLen - frameLen * UInt32.ofNat n := by
      have all : frameLen * UInt32.ofNat (n + 1) = frameLen * UInt32.ofNat n + frameLen := by
        rw [UInt32.ofNat_add, UInt32.mul_add]
        rfl
      rw [UInt32.eq_sub_iff_add_eq, UInt32.eq_sub_iff_add_eq, UInt32.add_assoc, all, UInt32.sub_add_cancel]
    have later := ih (i := i + 1) (copyLeft - frameLen) (copyBytes (if copyLeft > frameLen then frameLen else
        copyLeft).toNat (frameAddr f + 1) text m)
      (by
        intro k inside
        rw [← index_shift]
        exact off (k + 1) (by omega))
      (by
        intro k inside
        obtain ⟨g, memberG, entryG⟩ := names (k + 1) (by omega)
        rw [index_shift] at entryG
        exact ⟨g, memberG, (kept k (by omega)).trans entryG⟩) (by omega)
    rw [kept n (by omega), ← index_shift, ← rest] at later
    rw [show n + 1 + left + 1 = (n + left + 1) + 1 by omega, copyWrites, entry]
    exact List.mem_cons_of_mem _ later

/-- The list's place for the last page gets a whole frame's worth: what is left to copy has
gone below zero, or begins later. -/
theorem last_copied (tLen : UInt32) {j : Nat} (last : j = (numFrames (tLen + dataLen) - 1) % 1024) :
    (if tLen - frameLen * UInt32.ofNat j > frameLen then frameLen else tLen - frameLen * UInt32.ofNat j).toNat =
      4096 := by
  have bound := tLen.toNat_lt
  have size : (tLen + dataLen).toNat = (tLen.toNat + 65536) % 4294967296 := by
    rw [UInt32.toNat_add]
    rfl
  have index : (frameLen * UInt32.ofNat j).toNat = 4096 * j := by
    rw [UInt32.toNat_mul, UInt32.toNat_ofNat', show frameLen.toNat = 4096 by decide]
    omega
  have rest := UInt32.toNat_sub tLen (frameLen * UInt32.ofNat j)
  rw [index] at rest
  have enough : 4096 ≤ (tLen - frameLen * UInt32.ofNat j).toNat := by
    unfold numFrames at last
    rw [size] at last
    omega
  split
  · decide
  next short =>
    have most := UInt32.le_iff_toNat_le.mp (UInt32.not_lt.mp short)
    rw [show frameLen.toNat = 4096 by decide] at most
    omega

namespace Built
variable {R : Region} {s u : Machine} {h h' : Heap R} {size : UInt32} {as : AddrSpace} {b c : Slot}
  {m : Mem} {pd : Nat} {fs : List Nat} {behind : Nat} (built : Built s h size as u b c h' m pd fs)
include built

theorem dataFrame_eq (k : Nat) : dataFrame s k = pageFrame fs k := by
  rw [dataFrame, nthFree, built.list, List.getD_cons_succ, pageFrame]
  congr 1
  omega

/-- Later pages have higher frames. -/
theorem pageFrame_le {j k : Nat} (early : j ≤ k) (inside : k < numFrames size) : pageFrame fs j ≤ pageFrame fs k := by
  have sorted := freeList_sorted s
  rw [built.list, List.pairwise_cons] at sorted
  have placeJ := built.page_place (k := j) (by omega)
  have placeK := built.page_place inside
  rcases Nat.eq_or_lt_of_le early with rfl | before
  · exact le_refl _
  · rw [pageFrame, pageFrame, List.getD_eq_getElem fs 0 placeJ, List.getD_eq_getElem fs 0 placeK]
    exact (List.pairwise_iff_getElem.mp sorted.2 _ _ placeJ placeK (by omega)).le

/-- The byte behind the frame of the last page belongs to no page. -/
theorem beyond_last {k : Nat} (last : numFrames size = k + 1) {x : UInt32}
    (place : x.toNat = 4096 * pageFrame fs k + 4096) : ¬InData s size x := by
  rintro ⟨j, inside, -, upper⟩
  rw [built.dataFrame_eq] at upper
  have below := built.pageFrame_le (j := j) (k := k) (by omega) (by omega)
  omega

end Built

/-- What the copy finds in the list is what `alloc_addr_space` put there. -/
theorem Built.copied_last {R : Region} {s u v : Machine} {h h₂ : Heap R} {tLen : UInt32} (text : UInt32)
    {as : AddrSpace} {b c : Slot} {m : Mem} {pd : Nat} {fs : List Nat} {behind : Nat}
    (built : Built s h (tLen + dataLen) as u b c h₂ m pd fs) (spared : Spared R s behind) (far : 1 ≤ behind)
    (fits : 4 * numPts (tLen + dataLen) ≤ 3072 + behind)
    (kept : ∀ x, b.Has x → v.mem x = u.mem x) {k : Nat} (last : numFrames (tLen + dataLen) = k + 1) :
    (frameAddr (pageFrame fs k) + 1, 4096) ∈ copyWrites as text as.numFrames.toNat 0 tLen v.mem := by
  obtain ⟨slotB, -, -, lenB, -⟩ := built.slots
  have frames : as.frames = b.addr + 8 := by rw [built.space]
  have count : as.numFrames.toNat = numFrames (tLen + dataLen) := by
    rw [built.space]
    exact numFrames_toNat _
  have short : ∀ j, j ≤ k % 1024 → 4 * (0 + UInt32.ofNat j).toNat + 4 ≤ b.len.toNat := by
    intro j inside
    rw [UInt32.zero_add, UInt32.toNat_ofNat']
    omega
  have entry : ∀ j, j ≤ k % 1024 → v.mem.load (as.frames + 4 * (0 + UInt32.ofNat j)) =
      u.mem.load (as.frames + 4 * UInt32.ofNat j) := by
    intro j inside
    have same := h₂.layout.word_kept slotB (short j inside) kept
    rw [UInt32.zero_add] at same
    rwa [frames, UInt32.zero_add]
  have small : ∀ f, f ∈ freeList s → f + 1 < 1048576 := by
    intro f free
    have inside := (mem_freeList free).1
    have count := spared.count
    omega
  have word : Mem.Aligned as.frames := by
    rw [frames]
    exact (h₂.layout.2 b slotB).add (by decide)
  have member := copyWrites_mem text small word (show k % 1024 < as.numFrames.toNat by omega) tLen v.mem
    (by
      intro j inside x lower upper
      rw [frames] at lower upper
      exact ((spared.le far).plain h₂.layout slotB (h₂.layout.word_has slotB (short j inside) lower upper)).frames)
    (by
      intro j inside
      obtain ⟨i, within, -, word⟩ := built.listed_word spared fits (j := j) (by omega) (by omega)
      exact ⟨_, built.pageFrame_mem within, (entry j inside).trans word⟩)
  obtain ⟨i, within, place, late, word⟩ := built.listed_last spared fits (j := k % 1024) (by omega) (by omega)
  obtain rfl : i = k := by omega
  rwa [entry _ (le_refl _), word, last_copied tLen (by rw [last]; rfl)] at member

section
variable {R : Region} {s t : Machine} {h : Heap R} {fuel behind : Nat} {text tLen : UInt32} {p q : Process}
  (hosts : Hosts s h) (steps : R.length.toNat / 8 < fuel) (spared : Spared R s behind) (far : 1 ≤ behind)
  (fits : 4 * numPts (tLen + dataLen) ≤ 3072 + behind)
  (run : createProcess goOn fuel p text tLen s = .done (retSuccess, q) t)
include hosts steps spared far fits run

/-- The copy of a program goes beyond the frames of its pages. -/
theorem createProcess_overruns : ∃ as a u v w x,
    allocAddrSpace goOn fuel (tLen + dataLen) s = .done (retSuccess, as) u ∧ kalloc fuel 20 u = .done a v ∧
    putAddrSpace a as v = .done () w ∧ Written (copyWrites as text as.numFrames.toNat 0 tLen w.mem) x ∧
    ¬InData s (tLen + dataLen) x := by
  rw [createProcess] at run
  obtain ⟨⟨r, as⟩, u, made, run⟩ := Prog.of_bind_done run
  simp only [] at run
  by_cases failed : r = retFailure
  · rw [if_pos failed] at run
    cases run
  · rw [if_neg failed] at run
    obtain rfl := (allocAddrSpace_result made).resolve_right failed
    obtain ⟨b, c, h₂, m, pd, fs, built⟩ := allocAddrSpace_built hosts steps spared.weaken made
    have hosts₂ := built.hosts_after spared fits
    rcases hosts₂.request steps 20 (by decide) with ⟨-, null⟩ | ⟨d, h₃, m₃, third, given, -, touches⟩
    · rw [Prog.bind_done _ null, Prog.bind_fault _ (putAddrSpace_null as u)] at run
      cases run
    · have givenD := h₂.request_some third
      obtain ⟨usedB, -, -, -⟩ := built.lists_used
      have slotB : b ∈ h₃.free ++ h₃.used := by simp [givenD.used, usedB]
      have fitsD : Fits R (h₃.free ++ h₃.used) d (spaceFields as) := by
        refine ⟨h₃.layout, givenD.slot, ?_⟩
        rw [givenD.len]
        exact spaceFields_short as
      have put := putAddrSpace_done givenD.valid as (u.withMem m₃)
      obtain ⟨k, last⟩ : ∃ k, numFrames (tLen + dataLen) = k + 1 := ⟨_, rfl⟩
      have member := built.copied_last text spared far fits
        (v := (u.withMem m₃).stored (fieldWrites (d.addr + 8) (spaceFields as))) (by
          intro x data
          have apart := h₃.layout.data_apart slotB givenD.slot (givenD.ne usedB) data
          exact (fitsD.outside m₃ apart).trans (touches.data h₃.layout slotB data)) last
      have free := built.pageFrame_mem (k := k) (by omega)
      have place : (frameAddr (pageFrame fs k) + 1 + UInt32.ofNat 4095).toNat = 4096 * pageFrame fs k + 4096 := by
        have top := (mem_freeList free).1
        have count := spared.count
        rw [UInt32.toNat_add, UInt32.toNat_add, frameAddr_toNat (spared.small free)]
        simp
        omega
      exact ⟨as, _, u, _, _, _, made, given, put, ⟨_, member, 4095, by omega, rfl⟩, built.beyond_last last place⟩

/-- Whatever the program, `create_process` does not load it and nothing else. -/
theorem createProcess_misloads : ¬Loads fuel s text tLen q t := by
  intro loads
  obtain ⟨as, a, u, v, w, x, made, given, put, written, beyond⟩ :=
    createProcess_overruns hosts steps spared far fits run
  exact beyond (loads.inside as a u v w made given put x written)

end

theorem createProcess_small : ∃ m₀ q t, initAlloc 0x100000 0x100000 (fun _ => 0) = .done retSuccess m₀ ∧
    Hosts (fourMegabytes m₀) (Heap.init megabyte) ∧
    createProcess goOn 131073 ⟨0, .null, 0, 0⟩ 0x3000 10 (fourMegabytes m₀) = .done (retSuccess, q) t := by
  obtain ⟨m₀, init, rep⟩ := initAlloc_done megabyte fun _ => 0
  have hosts : Hosts (fourMegabytes m₀) (Heap.init megabyte) := ⟨rfl, rfl, rep⟩
  have steps : megabyte.length.toNat / 8 < 131073 := by decide
  obtain ⟨b, c, d, e, g, h₂, h', blocks⟩ := blocks_megabyte
  have list : freeList (fourMegabytes m₀) = 512 :: List.range' 513 511 := freeList_fourMegabytes m₀
  obtain ⟨as, u, m, q, t, -, -, run⟩ := createProcess_room ⟨0, .null, 0, 0⟩ 0x3000 hosts steps
    (spared_fourMegabytes m₀ 1) (by decide) (by decide) list (by rw [List.length_range']; decide) blocks
    fun k late inside => absurd inside (by
      have few : numFrames (10 + dataLen) = 17 := by decide
      omega)
  exact ⟨m₀, q, t, init, hosts, run goOn⟩

theorem createProcess_misloads_small : ∃ m₀ q t, initAlloc 0x100000 0x100000 (fun _ => 0) = .done retSuccess m₀ ∧
    createProcess goOn 131073 ⟨0, .null, 0, 0⟩ 0x3000 10 (fourMegabytes m₀) = .done (retSuccess, q) t ∧
    ¬Loads 131073 (fourMegabytes m₀) 0x3000 10 q t := by
  obtain ⟨m₀, q, t, init, hosts, run⟩ := createProcess_small
  have steps : megabyte.length.toNat / 8 < 131073 := by decide
  exact ⟨m₀, q, t, init, run,
    createProcess_misloads hosts steps (spared_fourMegabytes m₀ 1) (by decide) (by decide) run⟩

/-- Ten bytes of text, and a byte is written that is in none of the seventeen pages. -/
theorem createProcess_beyond : ∃ m₀ q t as a u v w x,
    initAlloc 0x100000 0x100000 (fun _ => 0) = .done retSuccess m₀ ∧
    createProcess goOn 131073 ⟨0, .null, 0, 0⟩ 0x3000 10 (fourMegabytes m₀) = .done (retSuccess, q) t ∧
    allocAddrSpace goOn 131073 (10 + dataLen) (fourMegabytes m₀) = .done (retSuccess, as) u ∧
    kalloc 131073 20 u = .done a v ∧ putAddrSpace a as v = .done () w ∧
    Written (copyWrites as 0x3000 as.numFrames.toNat 0 10 w.mem) x ∧ ¬InData (fourMegabytes m₀) (10 + dataLen) x ∧
    ¬Loads 131073 (fourMegabytes m₀) 0x3000 10 q t := by
  obtain ⟨m₀, q, t, init, hosts, run⟩ := createProcess_small
  have steps : megabyte.length.toNat / 8 < 131073 := by decide
  obtain ⟨as, a, u, v, w, x, made, given, put, written, beyond⟩ :=
    createProcess_overruns hosts steps (spared_fourMegabytes m₀ 1) (by decide) (by decide) run
  refine ⟨m₀, q, t, as, a, u, v, w, x, init, run, made, given, put, written, beyond, ?_⟩
  intro loads
  exact beyond (loads.inside as a u v w made given put x written)

end Sos.Kernel
