import Sos.Kernel.Reserve

/-! The block that `init_memman` has for the frame map, and the bytes that are used of it. -/

namespace Sos.Kernel
open Sos.Lib Machine

/-- `sizeof( frame_t )`: the bit-fields share one word. -/
def frameSize : UInt32 := 4

def frameElems (frameCount : UInt32) : UInt32 := frameCount / 32 + 1

/-- Everything that is done with the frame map lies in its first `len` bytes: the two `memset`s
of `init_memman`, and the entries of the frames that there are. -/
structure MapFits (frameCount : UInt32) (len : Nat) : Prop where
  zeroed : (frameElems frameCount * 4).toNat ≤ len
  reserved : (0x400000 / frameLen / 8).toNat ≤ len
  entries : ∀ f, f < frameCount.toNat → (f + 1) * frameSize.toNat ≤ len

/-- What `init_memman` asks the heap for, once it has set `frame_count`. -/
def kallocFrameMap (fuel : Nat) (frameCount : UInt32) : Prog Machine UInt32 := do
  Prog.modify fun s => { s with frameCount := frameCount }
  kalloc fuel (frameElems frameCount * frameSize)

/-- An eighth of a byte is asked for a frame, in elements of four bytes. -/
theorem frameBytes_toNat (frameCount : UInt32) (few : frameCount.toNat < 1048576) :
    (frameElems frameCount * frameSize).toNat = (frameCount.toNat / 32 + 1) * 4 := by
  unfold frameElems frameSize
  rw [UInt32.toNat_mul, UInt32.toNat_add, UInt32.toNat_div]
  simp
  omega

section
variable {frameCount : UInt32} (few : frameCount.toNat < 1048576)
include few

/-- The reservation needs as many elements as 992 frames have. -/
theorem reserved_fits_iff : (0x400000 / frameLen / 8).toNat ≤ (frameElems frameCount * frameSize).toNat ↔
    992 ≤ frameCount.toNat := by
  rw [frameBytes_toNat frameCount few]
  change 128 ≤ _ ↔ _
  omega

/-- The elements are enough for one frame at most. -/
theorem entries_fit_iff :
    (∀ f, f < frameCount.toNat → (f + 1) * frameSize.toNat ≤ (frameElems frameCount * frameSize).toNat) ↔
      frameCount.toNat ≤ 1 := by
  rw [frameBytes_toNat frameCount few]
  change (∀ f, f < frameCount.toNat → (f + 1) * 4 ≤ _) ↔ _
  constructor
  · intro entries
    by_contra more
    have last := entries (frameCount.toNat - 1) (by omega)
    omega
  · intro one f inside
    omega

/-- There is no number of frames for which both fit. -/
theorem mapFits_never : ¬MapFits frameCount (frameElems frameCount * frameSize).toNat := by
  intro fits
  have large := (reserved_fits_iff few).mp fits.reserved
  have small := (entries_fit_iff few).mp fits.entries
  omega

end

/-- The request is met when `init_memman` succeeds. -/
theorem initMemman_kalloc {fuel : Nat} {memorySize : UInt32} {s t : Machine}
    (init : initMemman fuel memorySize s = .done retSuccess t) : ∃ p u,
    kallocFrameMap fuel (memorySize * 1024 / frameLen) s = .done p u ∧ p ≠ 0 := by
  unfold initMemman at init
  rw [Prog.modify_bind_run, Prog.get_bind_run] at init
  obtain ⟨p, u, called, init⟩ := Prog.of_bind_done init
  refine ⟨p, u, called, fun null => ?_⟩
  rw [if_pos null] at init
  cases init

/-- A block that `kalloc` gives has the bytes it was asked for, by its header, and no more. -/
theorem Hosts.kalloc_len {R : Region} {s t : Machine} {h : Heap R} (hosts : Hosts s h) {fuel : Nat}
    (steps : R.length.toNat / 8 < fuel) {size p : UInt32}
    (small : (size.toNat + 3) / 4 * 4 + 8 < 4294967296) (run : kalloc fuel size s = .done p t) (valid : p ≠ 0) :
    (slotLen t.mem (p - 8)).toNat = (size.toNat + 3) / 4 * 4 := by
  rcases hosts.kalloc_done steps small with ⟨-, refused⟩ | ⟨b, h', m, given, granted, hosts', -⟩
  · rw [refused, Outcome.done.injEq] at run
    exact absurd run.1.symm valid
  · rw [granted, Outcome.done.injEq] at run
    obtain ⟨rfl, rfl⟩ := run
    obtain ⟨used, len, -⟩ := h.alloc_some given
    have header : slotLen (s.withMem m).mem b.addr = b.len := hosts'.rep.lens b (by simp [used])
    rw [pointer_sub, header, len]
    exact roundUp_toNat small

/-- Whenever `init_memman` succeeds, the block it has is too small for what is done with it. -/
theorem frameMap_overruns {R : Region} {s t : Machine} {h : Heap R} {fuel : Nat} {memorySize : UInt32}
    (hosts : Hosts s h) (steps : R.length.toNat / 8 < fuel)
    (init : initMemman fuel memorySize s = .done retSuccess t) :
    ∃ p u, kallocFrameMap fuel t.frameCount s = .done p u ∧ p ≠ 0 ∧
      ¬MapFits t.frameCount (slotLen u.mem (p - 8)).toNat := by
  have few := (initMemman_done init).bound
  have count : t.frameCount = memorySize * 1024 / frameLen :=
    UInt32.toNat_inj.mp ((initMemman_done init).frameCount.trans (frameCount_toNat memorySize).symm)
  obtain ⟨p, u, called, valid⟩ := initMemman_kalloc init
  rw [← count] at called
  have hosts' : Hosts { s with frameCount := t.frameCount } h := ⟨hosts.base, hosts.inited, hosts.rep⟩
  have bytes := frameBytes_toNat t.frameCount few
  have len := hosts'.kalloc_len steps (by omega) called valid
  have whole : (slotLen u.mem (p - 8)).toNat = (frameElems t.frameCount * frameSize).toNat := by omega
  refine ⟨p, u, called, valid, ?_⟩
  rw [whole]
  exact mapFits_never few

/-- A heap of a megabyte has the block for eight megabytes of memory. -/
theorem initMemman_eight : ∃ m₀ t, Hosts (fourMegabytes m₀) (Heap.init megabyte) ∧
    initMemman 131073 8192 (fourMegabytes m₀) = .done retSuccess t := by
  obtain ⟨m₀, -, rep⟩ := initAlloc_done megabyte fun _ => 0
  have hosts : Hosts (fourMegabytes m₀) (Heap.init megabyte) := ⟨rfl, rfl, rep⟩
  have room : ((Heap.init megabyte).request ((8192 * 1024 / frameLen / 32 + 1) * 4)).isSome = true := by
    decide +kernel
  have steps : megabyte.length.toNat / 8 < 131073 := by decide
  obtain ⟨⟨b, h'⟩, given⟩ := Option.isSome_iff_exists.mp room
  obtain ⟨t, run⟩ := initMemman_given hosts steps given
  exact ⟨m₀, t, hosts, run⟩

theorem frameMap_overruns_eight : ∃ m₀ t p u, initMemman 131073 8192 (fourMegabytes m₀) = .done retSuccess t ∧
    kallocFrameMap 131073 t.frameCount (fourMegabytes m₀) = .done p u ∧ p ≠ 0 ∧
      ¬MapFits t.frameCount (slotLen u.mem (p - 8)).toNat := by
  obtain ⟨m₀, t, hosts, run⟩ := initMemman_eight
  obtain ⟨p, u, called, valid, overrun⟩ := frameMap_overruns hosts (by decide) run
  exact ⟨m₀, t, p, u, run, called, valid, overrun⟩

/-- With eight megabytes there are 2048 frames, the block has 260 bytes, and the entry of frame 65
is behind it. -/
theorem frameMap_overruns_entry : ∃ m₀ t p u, initMemman 131073 8192 (fourMegabytes m₀) = .done retSuccess t ∧
    t.frameCount.toNat = 2048 ∧ kallocFrameMap 131073 2048 (fourMegabytes m₀) = .done p u ∧ p ≠ 0 ∧
      (slotLen u.mem (p - 8)).toNat = 260 ∧ ¬MapFits 2048 260 := by
  obtain ⟨m₀, t, hosts, run⟩ := initMemman_eight
  obtain ⟨p, u, called, valid⟩ := initMemman_kalloc run
  have hosts' : Hosts { fourMegabytes m₀ with frameCount := 2048 } (Heap.init megabyte) :=
    ⟨hosts.base, hosts.inited, hosts.rep⟩
  have len := hosts'.kalloc_len (by decide) (by decide) called valid
  refine ⟨m₀, t, p, u, run, (initMemman_done run).frameCount, called, valid, len, fun fits => ?_⟩
  exact absurd (fits.entries 65 (by decide)) (by decide)

end Sos.Kernel
