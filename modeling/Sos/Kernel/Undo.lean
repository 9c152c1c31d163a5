import Sos.Kernel.Mapping
import Sos.Kernel.Teardown

/-! `free_addr_space` after `alloc_addr_space`. The list of frames is indexed anew for each page
table, so that with more than one full table it no longer names every frame. -/

namespace Sos.Kernel
open Sos.Lib Machine

/-- A place for an `addr_space_t`: kernel memory outside of the heap, or a block of the caller's. -/
structure Spot {R : Region} (s : Machine) (h : Heap R) (a : UInt32) : Prop where
  valid : a ≠ 0
  aligned : Mem.Aligned a
  room : a.toNat + 20 ≤ 4294967296
  place : ∀ x : UInt32, a.toNat ≤ x.toNat → x.toNat < a.toNat + 20 →
    (x.toNat < R.base.toNat ∨ R.hi ≤ x.toNat) ∨ ∃ d, d ∈ h.used ∧ d.Has x

theorem Spot.put_outside {R : Region} {s t : Machine} {h : Heap R} {a x : UInt32} {as : AddrSpace}
    (spot : Spot s h a) (outside : x.toNat < a.toNat ∨ a.toNat + 20 ≤ x.toNat) :
    (t.stored (fieldWrites a (spaceFields as))).mem x = t.mem x :=
  fieldWrites_outside spot.aligned spot.room (spaceFields_short as) t.mem outside

/-- The structure is in its place and given to `free_addr_space`. -/
def putAndFree (unheld : Prog Machine Unit) (fuel : Nat) (a : UInt32) (as : AddrSpace) : Prog Machine Int := do
  putAddrSpace a as
  freeAddrSpace unheld fuel a

/-- The list names the frame of every page, in the order of their addresses; and what
`free_addr_space` frees is held, and gives back the frame map of before. -/
structure Undoes (fuel : Nat) (s : Machine) (size : UInt32) (as : AddrSpace) (t : Machine) (a : UInt32) : Prop where
  count : as.numFrames.toNat = numFrames size
  listed : ∀ k < numFrames size, ∃ place,
    pageWalk t.mem as.pd (memspaceUserMem + UInt32.ofNat (4096 * k)) = some place ∧
      place.frame = t.mem.load (as.frames + 4 * UInt32.ofNat k) / frameLen * frameLen
  freed : ∃ u, (∀ unheld, putAndFree unheld fuel a as t = .done retSuccess u) ∧ u.frameMap = s.frameMap

def pageFrames (fs : List Nat) (size : UInt32) : List Nat := (List.range (numFrames size)).map (pageFrame fs)

def tableFrames (fs : List Nat) (size : UInt32) : List Nat := (List.range (numPts size)).map (tableFrame fs)

theorem getElem?_map_range {g : Nat → Nat} {n i f : Nat} :
    ((List.range n).map g)[i]? = some f ↔ i < n ∧ f = g i := by
  rw [List.getElem?_map]
  by_cases inside : i < n
  · rw [List.getElem?_range inside, Option.map_some, Option.some.injEq, eq_comm]
    simp [inside]
  · rw [List.getElem?_eq_none (by rw [List.length_range]; omega)]
    simp [inside]

namespace Built
variable {R : Region} {s t : Machine} {h h' : Heap R} {size : UInt32} {as : AddrSpace} {b c : Slot}
  {m : Mem} {pd : Nat} {fs : List Nat} {behind : Nat} (built : Built s h size as t b c h' m pd fs)
include built

/-- What was taken is the directory, the tables and the pages. -/
theorem mem_taken {f : Nat} : f ∈ (freeList s).take (1 + numPts size + numFrames size) ↔
    f ∈ pageFrames fs size ++ tableFrames fs size ++ [pd] := by
  have length := built.length_le
  have shape := numPts_eq size
  rw [built.list, show 1 + numPts size + numFrames size = (numPts size + numFrames size) + 1 by omega,
    List.take_succ_cons, List.mem_cons, List.mem_append, List.mem_append, List.mem_singleton]
  have rest : f ∈ fs.take (numPts size + numFrames size) ↔ f ∈ pageFrames fs size ∨ f ∈ tableFrames fs size := by
    rw [List.mem_iff_getElem?]
    constructor
    · rintro ⟨n, at_⟩
      rw [List.getElem?_take] at at_
      split at at_
      next inside =>
        have value := getD_eq_of_some at_
        by_cases table : n % 1025 = 0
        · refine Or.inr (List.mem_map.mpr ⟨n / 1025, List.mem_range.mpr (by omega), ?_⟩)
          rw [tableFrame, show 1025 * (n / 1025) = n by omega, value]
        · refine Or.inl (List.mem_map.mpr ⟨1024 * (n / 1025) + (n % 1025 - 1), List.mem_range.mpr (by omega), ?_⟩)
          rw [pageFrame, ← value]
          congr 1
          omega
      next => cases at_
    · rintro (page | table)
      · obtain ⟨k, inside, rfl⟩ := List.mem_map.mp page
        rw [List.mem_range] at inside
        have place := built.page_place inside
        refine ⟨1025 * (k / 1024) + 1 + k % 1024, ?_⟩
        rw [List.getElem?_take, if_pos (by omega), pageFrame, List.getD_eq_getElem fs 0 place,
          List.getElem?_eq_getElem place]
      · obtain ⟨i, inside, rfl⟩ := List.mem_map.mp table
        rw [List.mem_range] at inside
        have place := built.table_place inside
        refine ⟨1025 * i, ?_⟩
        rw [List.getElem?_take, if_pos (by omega), tableFrame, List.getD_eq_getElem fs 0 place,
          List.getElem?_eq_getElem place]
  rw [rest]
  exact or_comm

theorem frames_once : (pageFrames fs size ++ tableFrames fs size ++ [pd]).Nodup := by
  have pages : (pageFrames fs size).Nodup := by
    refine (List.nodup_map_iff_inj_on List.nodup_range).mpr ?_
    intro j insideJ k insideK
    rw [List.mem_range] at insideJ insideK
    exact built.pageFrame_inj insideJ insideK
  have tables : (tableFrames fs size).Nodup := by
    refine (List.nodup_map_iff_inj_on List.nodup_range).mpr ?_
    intro j insideJ k insideK
    rw [List.mem_range] at insideJ insideK
    exact built.tableFrame_inj insideJ insideK
  have apart : ∀ f, f ∈ pageFrames fs size → ∀ g, g ∈ tableFrames fs size → f ≠ g := by
    intro f page g table
    obtain ⟨k, insideK, rfl⟩ := List.mem_map.mp page
    obtain ⟨i, insideI, rfl⟩ := List.mem_map.mp table
    rw [List.mem_range] at insideK insideI
    exact (built.tableFrame_ne_page insideI insideK).symm
  refine List.nodup_append.mpr ⟨List.nodup_append.mpr ⟨pages, tables, apart⟩, List.nodup_singleton pd, ?_⟩
  intro f member g last
  rw [List.mem_singleton] at last
  rw [last]
  rcases List.mem_append.mp member with page | table
  · obtain ⟨k, inside, rfl⟩ := List.mem_map.mp page
    exact (built.pd_ne_page (List.mem_range.mp inside)).symm
  · obtain ⟨i, inside, rfl⟩ := List.mem_map.mp table
    exact (built.pd_ne_table (List.mem_range.mp inside)).symm

theorem frameMap_eq (f : Nat) : t.frameMap f =
    if f ∈ (freeList s).take (1 + numPts size + numFrames size) then ⟨false, 1⟩ else s.frameMap f := by
  have taken : (freeList s).take (1 + numPts size + numFrames size) =
      pd :: fs.take (demand (numPts size) (numFrames size)) := by
    rw [built.list, demand_eq, show 1 + numPts size + numFrames size = (numPts size + numFrames size) + 1 by omega,
      List.take_succ_cons]
  rw [taken, built.result]
  rfl

section
variable {a : UInt32} (spot : Spot s h a)
include spot

/-- The data of the two lists is not where the structure is put. -/
theorem spot_apart {x : UInt32} (data : b.Has x ∨ c.Has x) : x.toNat < a.toNat ∨ a.toNat + 20 ≤ x.toNat := by
  obtain ⟨slotB, slotC, -⟩ := built.slots
  obtain ⟨-, -, -, used⟩ := built.lists_used
  have once := (List.nodup_append.mp h'.layout.1.nodup).2.1
  rw [used] at once
  by_contra near
  rcases spot.place x (by omega) (by omega) with outside | ⟨d, old, data'⟩
  · obtain ⟨lowB, highB, lowC, highC, -⟩ := built.lists_place
    obtain ⟨-, -, -, lenB, lenC⟩ := built.slots
    unfold Slot.Has Slot.past at data
    omega
  · have slotD : d ∈ h'.free ++ h'.used := by simp [used, old]
    rcases data with data | data
    · refine h'.layout.data_apart slotB slotD ?_ data data'
      rintro rfl
      exact (List.nodup_cons.mp (List.nodup_cons.mp once).2).1 old
    · refine h'.layout.data_apart slotC slotD ?_ data data'
      rintro rfl
      exact (List.nodup_cons.mp once).1 (List.mem_cons_of_mem b old)

theorem keeps : Keeps (t.stored (fieldWrites a (spaceFields as))) h' a as where
  valid := spot.valid
  aligned := spot.aligned
  room := spot.room
  place := by
    intro x lower upper
    rcases spot.place x lower upper with outside | ⟨d, old, data⟩
    · exact Or.inl outside
    · exact Or.inr ⟨d, by simp [built.lists_used.2.2.2, old], data⟩
  fields := by
    rintro ⟨i, v⟩ field
    exact load_fieldWrites spot.aligned spot.room (spaceFields_short as) (by simp [spaceFields]) t.mem field

theorem hosts_put (hosts : Hosts t h') : Hosts (t.stored (fieldWrites a (spaceFields as))) h' := by
  refine hosts.congr rfl rfl ?_
  intro x lower upper away
  refine spot.put_outside ?_
  by_contra near
  rcases spot.place x (by omega) (by omega) with outside | ⟨d, old, data⟩
  · omega
  · exact away d (by simp [built.lists_used.2.2.2, old]) data

/-- With no more than one full table the lists name every frame. -/
theorem leads (spared : Spared R s 0) (fits : 4 * numPts size ≤ 3072) (few : numFrames size ≤ 1024) :
    Leads (t.stored (fieldWrites a (spaceFields as))) as b c (pageFrames fs size) (tableFrames fs size) pd := by
  obtain ⟨slotB, slotC, -, lenB, lenC⟩ := built.slots
  obtain ⟨h₁, framesGiven, ptsGiven⟩ := built.lists
  have many := numPts_le size
  have index : ∀ {i}, i ≤ 1025 → (UInt32.ofNat i).toNat = i := by
    intro i small
    rw [UInt32.toNat_ofNat']
    omega
  have free : ∀ f, f ∈ pageFrames fs size ++ tableFrames fs size ++ [pd] → f ∈ freeList s := fun f member =>
    List.mem_of_mem_take (built.mem_taken.mpr member)
  have frames : as.frames = b.addr + 8 := by rw [built.space]
  have pts : as.pts = c.addr + 8 := by rw [built.space]
  refine ⟨by rw [built.space], frames, pts, ?_, ?_,
    ⟨(h.request_some framesGiven).valid, (h₁.request_some ptsGiven).valid⟩, ?_, ?_, built.frames_once, ?_,
    fun f member => spared.small (free f member)⟩
  · rw [built.space, pageFrames, List.length_map, List.length_range]
    exact numFrames_toNat size
  · rw [built.space, tableFrames, List.length_map, List.length_range]
    exact numPts_toNat size
  · intro i f at_
    obtain ⟨inside, rfl⟩ := getElem?_map_range.mp at_
    obtain ⟨k, short, place, last, word⟩ := built.listed_last spared (by omega) (j := i) (by omega) inside
    obtain rfl : k = i := by omega
    rw [← word, frames]
    refine h'.layout.word_kept slotB (by rw [index (by omega)]; omega) fun x data => ?_
    exact spot.put_outside (built.spot_apart spot (Or.inl data))
  · intro i f at_
    obtain ⟨inside, rfl⟩ := getElem?_map_range.mp at_
    rw [← built.link_word spared (by omega) inside, pts]
    refine h'.layout.word_kept slotC (by rw [index (by omega)]; omega) fun x data => ?_
    exact spot.put_outside (built.spot_apart spot (Or.inr data))
  · intro f member
    refine ⟨?_, ?_⟩
    · have count : t.frameCount = s.frameCount := by
        rw [built.result]
        rfl
      change f < t.frameCount.toNat
      rw [count]
      exact (mem_freeList (free f member)).1
    · change (t.frameMap f).count ≠ 0
      rw [built.frameMap_eq, if_pos (built.mem_taken.mpr member)]
      decide

/-- All frames are given back, without their mark. -/
theorem putAndFree_done {fuel : Nat} (steps : R.length.toNat / 8 < fuel) (spared : Spared R s 0)
    (fits : 4 * numPts size ≤ 3072) (few : numFrames size ≤ 1024) : ∃ u,
      (∀ unheld, putAndFree unheld fuel a as t = .done retSuccess u) ∧ ∀ f, u.frameMap f =
        if f ∈ (freeList s).take (1 + numPts size + numFrames size) then ⟨false, 0⟩ else s.frameMap f := by
  have used : h'.used.Perm (c :: b :: h.used) := by rw [built.lists_used.2.2.2]
  obtain ⟨h'', m', run, -⟩ := (built.leads spot spared fits few).freeAddrSpace_done (built.keeps spot)
    (built.hosts_put spot (built.hosts_after spared (by omega))) steps used
  refine ⟨((t.stored (fieldWrites a (spaceFields as))).dropped
    (pageFrames fs size ++ tableFrames fs size ++ [pd])).withMem m', fun unheld => ?_, fun f => ?_⟩
  · rw [putAndFree, Prog.bind_done _ (putAddrSpace_done spot.valid as t)]
    exact run unheld
  · change (if f ∈ pageFrames fs size ++ tableFrames fs size ++ [pd] then
      { t.frameMap f with count := (t.frameMap f).count - 1 } else t.frameMap f) = _
    rw [built.frameMap_eq]
    by_cases taken : f ∈ (freeList s).take (1 + numPts size + numFrames size)
    · rw [if_pos taken, if_pos (built.mem_taken.mp taken), if_pos taken]
      rfl
    · rw [if_neg taken, if_neg fun member => taken (built.mem_taken.mpr member), if_neg taken]

theorem undoes_iff {fuel : Nat} (steps : R.length.toNat / 8 < fuel) (spared : Spared R s 0)
    (fits : numPts size ≤ 768) : Undoes fuel s size as t a ↔ numFrames size ≤ 1024 ∧
      ∀ f, f ∈ (freeList s).take (1 + numPts size + numFrames size) → (s.frameMap f).ns = false := by
  constructor
  · intro undoes
    have few : numFrames size ≤ 1024 := by
      by_contra many
      -- the first place of the list holds a page of a later table
      obtain ⟨k, short, place, last, word⟩ := built.listed_last spared (by omega) (j := 0) (by omega) (by omega)
      obtain ⟨found, walk, frame⟩ := undoes.listed 0 (by omega)
      have first := built.pageWalk_page spared fits (k := 0) (o := 0) (by omega) (by omega)
      rw [Nat.add_zero] at first
      rw [first, Option.some.injEq] at walk
      rw [← walk, word, (frame_of_addr (spared.small (built.pageFrame_mem short))).2] at frame
      have same : (frameAddr (pageFrame fs 0)).toNat = (frameAddr (pageFrame fs k)).toNat :=
        congrArg UInt32.toNat frame
      rw [frameAddr_toNat (spared.small (built.pageFrame_mem (by omega))),
        frameAddr_toNat (spared.small (built.pageFrame_mem short))] at same
      have index := built.pageFrame_inj (j := 0) (k := k) (by omega) short (by omega)
      omega
    refine ⟨few, fun f taken => ?_⟩
    obtain ⟨u, run, same⟩ := undoes.freed
    obtain ⟨v, run', frames⟩ := built.putAndFree_done spot steps spared (by omega) few
    have equal := (run goOn).symm.trans (run' goOn)
    rw [Outcome.done.injEq] at equal
    have entry := frames f
    rw [← equal.2, same, if_pos taken] at entry
    rw [entry]
  · rintro ⟨few, clear⟩
    refine ⟨by rw [built.space]; exact numFrames_toNat size, ?_, ?_⟩
    · intro k inside
      obtain ⟨j, short, place, last, word⟩ := built.listed_last spared (by omega) (j := k) (by omega) inside
      obtain rfl : j = k := by omega
      have walk := built.pageWalk_page spared fits (o := 0) inside (by omega)
      rw [Nat.add_zero] at walk
      refine ⟨_, walk, ?_⟩
      rw [word, (frame_of_addr (spared.small (built.pageFrame_mem inside))).2]
      rfl
    · obtain ⟨u, run, frames⟩ := built.putAndFree_done spot steps spared (by omega) few
      refine ⟨u, run, ?_⟩
      funext f
      rw [frames]
      by_cases taken : f ∈ (freeList s).take (1 + numPts size + numFrames size)
      · have count := (mem_freeList (List.mem_of_mem_take taken)).2
        rw [if_pos taken]
        exact Frame.ext (clear f taken).symm count.symm
      · rw [if_neg taken]

end

end Built

/-- After a successful `alloc_addr_space` the list of frames is right and `free_addr_space`
restores the frame map if and only if there is at most one full page table and none of the
free frames that were taken was marked. -/
theorem freeAddrSpace_undoes_iff {R : Region} {s t : Machine} {h : Heap R} {fuel : Nat} {size a : UInt32}
    {as : AddrSpace} (hosts : Hosts s h) (steps : R.length.toNat / 8 < fuel) (spared : Spared R s 0)
    (fits : numPts size ≤ (pdEntries - kernPdOffset).toNat) (spot : Spot s h a)
    (run : allocAddrSpace goOn fuel size s = .done (retSuccess, as) t) :
    Undoes fuel s size as t a ↔ numFrames size ≤ 1024 ∧
      ∀ f, f ∈ (freeList s).take (1 + numPts size + numFrames size) → (s.frameMap f).ns = false := by
  obtain ⟨b, c, h', m, pd, fs, built⟩ := allocAddrSpace_built hosts steps spared run
  exact built.undoes_iff spot steps spared fits

theorem spot_fourMegabytes (m : Mem) : Spot (fourMegabytes m) (Heap.init megabyte) 0x3000 where
  valid := by decide
  aligned := by decide
  room := by decide
  place := by
    intro x _ upper
    refine Or.inl (Or.inl ?_)
    change x.toNat < 12288 + 20 at upper
    change x.toNat < 1048576
    omega

theorem freeAddrSpace_undoes_iff_page : ∃ m₀ as t, initAlloc 0x100000 0x100000 (fun _ => 0) = .done retSuccess m₀ ∧
    allocAddrSpace goOn 131073 0 (fourMegabytes m₀) = .done (retSuccess, as) t ∧
    (Undoes 131073 (fourMegabytes m₀) 0 as t 0x3000 ↔ numFrames 0 ≤ 1024 ∧
      ∀ f, f ∈ (freeList (fourMegabytes m₀)).take (1 + numPts 0 + numFrames 0) →
        ((fourMegabytes m₀).frameMap f).ns = false) := by
  obtain ⟨m₀, as, t, b, c, h', m', fs, init, hosts, run, -⟩ := allocAddrSpace_small fun _ => 0
  exact ⟨m₀, as, t, init, run, freeAddrSpace_undoes_iff hosts (by decide) (spared_fourMegabytes m₀ 0) (by decide)
    (spot_fourMegabytes m₀) run⟩

/-- The same memory with six free megabytes. -/
def eightMegabytes (m : Mem) : Machine := { fourMegabytes m with frameCount := 2048 }

theorem freeList_eightMegabytes (m : Mem) : freeList (eightMegabytes m) = List.range' 512 1536 := by
  change ((List.range 2048).filter fun i =>
    (if i < 512 then (⟨true, 1⟩ : Frame) else ⟨false, 0⟩).count = 0) = List.range' 512 1536
  decide +kernel

theorem spared_eightMegabytes (m : Mem) (behind : Nat) : Spared megabyte (eightMegabytes m) behind where
  count := by change 2048 < 1048576; decide
  apart := by
    intro f free
    rw [freeList_eightMegabytes, List.mem_range'_1] at free
    change 2097152 ≤ 4096 * f ∨ _
    omega

/-- Four megabytes need a page of a second table, which is listed in the first place. -/
theorem freeAddrSpace_forgets : ∃ m₀ as t, initAlloc 0x100000 0x100000 (fun _ => 0) = .done retSuccess m₀ ∧
    allocAddrSpace goOn 131073 0x400000 (eightMegabytes m₀) = .done (retSuccess, as) t ∧
    ¬Undoes 131073 (eightMegabytes m₀) 0x400000 as t 0x3000 := by
  obtain ⟨m₀, init, rep⟩ := initAlloc_done megabyte fun _ => 0
  have hosts : Hosts (eightMegabytes m₀) (Heap.init megabyte) := ⟨rfl, rfl, rep⟩
  have steps : megabyte.length.toNat / 8 < 131073 := by decide
  have both : (((Heap.init megabyte).request 4100).bind fun r => r.2.request 8).isSome = true := by
    decide +kernel
  obtain ⟨⟨c, h'⟩, both⟩ := Option.isSome_iff_exists.mp both
  obtain ⟨⟨b, h₁⟩, first, second⟩ := Option.bind_eq_some_iff.mp both
  have list : freeList (eightMegabytes m₀) = 512 :: List.range' 513 1535 := freeList_eightMegabytes m₀
  obtain ⟨as, t, m', run, built⟩ := allocAddrSpace_done hosts steps (spared_eightMegabytes m₀ 0) list
    (show demand (numPts 0x400000) (numFrames 0x400000) ≤ _ by rw [List.length_range']; decide) first second
  refine ⟨m₀, as, t, init, run goOn, ?_⟩
  have spot := spot_fourMegabytes m₀
  rw [built.undoes_iff ⟨spot.valid, spot.aligned, spot.room, spot.place⟩ steps (spared_eightMegabytes m₀ 0) (by decide)]
  exact fun few => absurd few.1 (by decide)

end Sos.Kernel
