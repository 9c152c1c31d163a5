import Sos.Kernel.FrameCalls
import Sos.Kernel.Mapping

/-! `init_memman` and the frames it reserves. -/

namespace Sos.Kernel
open Sos.Lib Machine

/-- `FRAME_KERN`. -/
def frameKern : UInt32 := frameNoSwap

/-- `memset` from the first byte of an array on. -/
def setBytes (bytes : Nat → UInt8) (v : UInt8) (n : Nat) : Nat → UInt8 := fun k =>
  if k < n then v else bytes k

/-- Element `i` of an array of `frame_t`: its bit-fields lie in four bytes, the count in the
second of them. -/
def frameAt (bytes : Nat → UInt8) (i : Nat) : Frame := ⟨bytes (4 * i) &&& 1 ≠ 0, bytes (4 * i + 1)⟩

/-- The frame map is taken to be an array that is long enough and zero before the reservation. -/
def initMemman (fuel : Nat) (memorySize : UInt32) : Prog Machine Int := do
  Prog.modify fun s => { s with frameCount := memorySize * 1024 / frameLen }
  let frameElems := (← Prog.get Machine.frameCount) / 32 + 1
  let frameMap ← kalloc fuel (frameElems * 4)
  if frameMap = 0 then return retFailure
  else
    Prog.modify fun s => { s with
      frameMap := frameAt (setBytes (fun _ => 0) 0xFF (0x400000 / frameLen / 8).toNat)
      memmanInited := true }
    return retSuccess

/-- Only frames that were returned before are freed. -/
def FreesReturned (log : List (FrameCall × FrameReply)) : FrameCall → Prop
  | .alloc _ => True
  | .free f => ∃ flags a, (.alloc flags, .frame false a) ∈ log ∧ a.toNat = 4096 * f.toNat

/-- No frame of the first four megabytes is returned. -/
def KernelKept (t : Machine) : Prop :=
  ∀ log u, Session memmanCall FreesReturned t log u →
    ∀ flags a, (FrameCall.alloc flags, FrameReply.frame false a) ∈ log → 0x400000 ≤ a.toNat

/-- A byte of the reservation stands for a quarter of a frame. -/
theorem reserved_count (i : Nat) :
    (frameAt (setBytes (fun _ => 0) 0xFF (0x400000 / frameLen / 8).toNat) i).count =
      if i < 32 then 255 else 0 := by
  change (if 4 * i + 1 < 128 then (255 : UInt8) else 0) = _
  by_cases low : i < 32
  · rw [if_pos low, if_pos (by omega)]
  · rw [if_neg low, if_neg (by omega)]

/-- The manager as `init_memman` leaves it. -/
structure Reserved (memorySize : UInt32) (t : Machine) : Prop where
  inited : t.memmanInited = true
  frameCount : t.frameCount.toNat = memorySize.toNat % 4194304 / 4
  counts : ∀ i, (t.frameMap i).count = if i < 32 then 255 else 0

theorem frameCount_toNat (memorySize : UInt32) :
    (memorySize * 1024 / frameLen).toNat = memorySize.toNat % 4194304 / 4 := by
  rw [UInt32.toNat_div, UInt32.toNat_mul]
  change memorySize.toNat * 1024 % 4294967296 / 4096 = _
  omega

theorem initMemman_done {fuel : Nat} {memorySize : UInt32} {s t : Machine}
    (run : initMemman fuel memorySize s = .done retSuccess t) : Reserved memorySize t := by
  unfold initMemman at run
  rw [Prog.modify_bind_run, Prog.get_bind_run] at run
  obtain ⟨p, u, first, run⟩ := Prog.of_bind_done run
  obtain ⟨m, rfl⟩ := kalloc_mem first
  by_cases null : p = 0
  · rw [if_pos null] at run
    cases run
  · rw [if_neg null, Prog.modify_bind_run] at run
    cases run
    exact ⟨rfl, frameCount_toNat memorySize, reserved_count⟩

namespace Reserved
variable {memorySize : UInt32} {t : Machine} (reserved : Reserved memorySize t)
include reserved

theorem unused_iff {f : Nat} : Unused t f ↔ 32 ≤ f ∧ f < memorySize.toNat % 4194304 / 4 := by
  unfold Unused
  rw [reserved.frameCount, reserved.counts]
  by_cases low : f < 32
  · simp [low]
  · rw [if_neg low]
    simp only [and_true]
    omega

theorem bound : t.frameCount.toNat < 1048576 := by
  rw [reserved.frameCount]
  omega

/-- Only 32 frames are reserved. -/
theorem freeList_eq : freeList t = List.range' 32 (memorySize.toNat % 4194304 / 4 - 32) := by
  unfold freeList
  rw [if_pos reserved.inited, reserved.frameCount]
  have free : ∀ i, decide ((t.frameMap i).count = 0) = decide (32 ≤ i) := by
    intro i
    rw [reserved.counts]
    by_cases low : i < 32
    · simp [low]
    · simp [low, Nat.le_of_not_lt low]
  rw [List.filter_congr fun i _ => free i]
  by_cases few : memorySize.toNat % 4194304 / 4 ≤ 32
  · rw [Nat.sub_eq_zero_of_le few, List.range'_zero, List.filter_eq_nil_iff]
    intro i inside
    rw [List.mem_range] at inside
    simp
    omega
  · obtain ⟨n, count⟩ : ∃ n, memorySize.toNat % 4194304 / 4 = 32 + n := ⟨_, (Nat.add_sub_of_le (by omega)).symm⟩
    rw [count, Nat.add_sub_cancel_left, List.range_add, List.filter_append]
    have reservedPart : (List.range 32).filter (fun i => decide (32 ≤ i)) = [] := by decide
    have rest : ((List.range n).map (32 + ·)).filter (fun i => decide (32 ≤ i)) =
        (List.range n).map (32 + ·) := by
      rw [List.filter_eq_self]
      intro i member
      obtain ⟨j, -, rfl⟩ := List.mem_map.mp member
      simp
    rw [reservedPart, rest, List.nil_append, List.range'_eq_map_range]

/-- With no more than the reserved frames there is nothing to hand out. -/
theorem nothing (small : memorySize.toNat % 4194304 < 132) {log : List (FrameCall × FrameReply)} {u : Machine}
    (session : Session memmanCall FreesReturned t log u) :
    ∀ flags a, (FrameCall.alloc flags, FrameReply.frame false a) ∉ log := by
  have full : freeList t = [] := by
    rw [freeList_nil_iff reserved.inited]
    intro f inside unused
    obtain ⟨low, high⟩ := reserved.unused_iff.mp ⟨inside, unused⟩
    omega
  have same : u = t ∧ ∀ flags a, (FrameCall.alloc flags, FrameReply.frame false a) ∉ log := by
    refine session.invariant (fun log u => u = t ∧ ∀ flags a,
      (FrameCall.alloc flags, FrameReply.frame false a) ∉ log) ⟨rfl, fun _ _ => List.not_mem_nil⟩ ?_
    rintro log s call reply v ⟨rfl, none⟩ allow run
    cases call with
    | free f =>
      obtain ⟨flags, a, member, -⟩ := allow
      exact absurd member (none flags a)
    | alloc flags =>
      rcases memmanAllocFrame_flags flags s with ⟨-, first⟩ | ⟨f, fs, list, -⟩
      · rw [memmanCall, Prog.bind_done _ first] at run
        cases run
        refine ⟨rfl, fun flags' a member => ?_⟩
        rcases List.mem_cons.mp member with same | earlier
        · cases same
        · exact none flags' a earlier
      · rw [full] at list
        cases list
  exact same.2

/-- The first frame that is handed out lies in the first megabyte. -/
theorem first (large : 132 ≤ memorySize.toNat % 4194304) : ¬KernelKept t := by
  intro kept
  obtain ⟨n, count⟩ : ∃ n, memorySize.toNat % 4194304 / 4 - 32 = n + 1 :=
    ⟨memorySize.toNat % 4194304 / 4 - 33, by omega⟩
  have list := reserved.freeList_eq
  rw [count, List.range'_succ] at list
  rcases memmanAllocFrame_flags frameKern t with ⟨full, -⟩ | ⟨f, fs, list', run⟩
  · rw [list] at full
    cases full
  · rw [list, List.cons.injEq] at list'
    obtain ⟨rfl, -⟩ := list'
    have call : memmanCall (.alloc frameKern) t = .done (.frame false (frameAddr 32)) (t.taken 32 frameKern) := by
      rw [memmanCall, Prog.bind_done _ run]
      rfl
    have allow : FreesReturned [] (.alloc frameKern) := trivial
    have low := kept _ _ (Session.nil.call allow call) frameKern _ List.mem_cons_self
    exact absurd low (by decide)

end Reserved

/-- Whether the kernel's memory is safe from the allocator. -/
theorem initMemman_keeps_iff {fuel : Nat} {memorySize : UInt32} {s t : Machine}
    (init : initMemman fuel memorySize s = .done retSuccess t) :
    KernelKept t ↔ memorySize.toNat % 4194304 < 132 := by
  have reserved := initMemman_done init
  constructor
  · intro kept
    by_contra large
    exact reserved.first (by omega) kept
  · intro small log u session flags a member
    exact absurd member (reserved.nothing small session flags a)

/-- It starts when the heap has room for the frame map. -/
theorem initMemman_given {R : Region} {s : Machine} {h h' : Heap R} {b : Slot} {fuel : Nat} {memorySize : UInt32}
    (hosts : Hosts s h) (steps : R.length.toNat / 8 < fuel)
    (given : h.request ((memorySize * 1024 / frameLen / 32 + 1) * 4) = some (b, h')) :
    ∃ t, initMemman fuel memorySize s = .done retSuccess t := by
  have hosts' : Hosts { s with frameCount := memorySize * 1024 / frameLen } h :=
    ⟨hosts.base, hosts.inited, hosts.rep⟩
  obtain ⟨m, run, -, -⟩ := hosts'.request_done steps given
  have valid := (h.request_some given).valid
  unfold initMemman
  rw [Prog.modify_bind_run, Prog.get_bind_run, Prog.bind_done _ run, if_neg valid, Prog.modify_bind_run]
  exact ⟨_, rfl⟩

/-- On a machine with a heap of a megabyte. -/
theorem initMemman_started (memorySize : UInt32)
    (room : ((Heap.init megabyte).request ((memorySize * 1024 / frameLen / 32 + 1) * 4)).isSome = true) :
    ∃ m₀ t, initAlloc 0x100000 0x100000 (fun _ => 0) = .done retSuccess m₀ ∧
      initMemman 131073 memorySize (fourMegabytes m₀) = .done retSuccess t := by
  obtain ⟨m₀, init, rep⟩ := initAlloc_done megabyte fun _ => 0
  have hosts : Hosts (fourMegabytes m₀) (Heap.init megabyte) := ⟨rfl, rfl, rep⟩
  have steps : megabyte.length.toNat / 8 < 131073 := by decide
  obtain ⟨⟨b, h'⟩, given⟩ := Option.isSome_iff_exists.mp room
  obtain ⟨t, run⟩ := initMemman_given hosts steps given
  exact ⟨m₀, t, init, run⟩

/-- Eight megabytes. -/
theorem initMemman_keeps_eight : ∃ m₀ t, initMemman 131073 8192 (fourMegabytes m₀) = .done retSuccess t ∧
    (KernelKept t ↔ (8192 : UInt32).toNat % 4194304 < 132) := by
  obtain ⟨m₀, t, -, run⟩ := initMemman_started 8192 (by decide +kernel)
  exact ⟨m₀, t, run, initMemman_keeps_iff run⟩

/-- With eight megabytes the kernel's memory is handed out. -/
theorem initMemman_gives : ∃ m₀ t, initMemman 131073 8192 (fourMegabytes m₀) = .done retSuccess t ∧
    ¬KernelKept t := by
  obtain ⟨m₀, t, -, run⟩ := initMemman_started 8192 (by decide +kernel)
  exact ⟨m₀, t, run, (initMemman_done run).first (by decide)⟩

end Sos.Kernel
