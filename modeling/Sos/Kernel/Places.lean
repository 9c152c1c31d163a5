import Sos.Kernel.Kalloc
import Sos.Kernel.Frames

/-! Where the words of heap blocks and of frames are. -/

namespace Sos.Kernel
open Sos.Lib Machine

/-- A block for a size that can be asked for. -/
def Heap.request {R : Region} (h : Heap R) (size : UInt32) : Option (Slot × Heap R) :=
  if small : (size.toNat + 3) / 4 * 4 + 8 < 4294967296 then h.alloc (Request.of size small) else none

/-- What giving out a block `b` of `size` bytes does to a heap. -/
structure Given {R : Region} (h : Heap R) (size : UInt32) (b : Slot) (h' : Heap R) : Prop where
  used : h'.used = b :: h.used
  len : b.len.toNat = (size.toNat + 3) / 4 * 4
  valid : b.addr + 8 ≠ 0
  headers : ∀ c, c ∈ h.free ++ h.used → ∃ c', c' ∈ h'.free ++ h'.used ∧ c'.addr = c.addr
  stale : ∃ p, p ∈ h.free ∧ p.addr = b.addr ∧ b.past ≤ p.past

theorem Heap.request_some {R : Region} {h h' : Heap R} {size : UInt32} {b : Slot}
    (result : h.request size = some (b, h')) : Given h size b h' := by
  unfold Heap.request at result
  split at result
  next small =>
    obtain ⟨used, len, valid⟩ := h.alloc_some result
    obtain ⟨pre, p, post, split, fits, rfl, free, -⟩ := h.of_alloc_some result
    have large := ((Request.of size small).fits_iff p).mp fits
    refine ⟨used, ?_, valid, ?_, p, by simp [split], rfl, ?_⟩
    · rw [len]
      exact roundUp_toNat small
    · intro c listed
      by_cases same : c = p
      · exact ⟨p.part (Request.of size small).size, by simp [used], by rw [same]; rfl⟩
      · refine ⟨c, ?_, rfl⟩
        rw [free, used]
        rw [split] at listed
        simp only [List.mem_append, List.mem_cons] at listed ⊢
        tauto
    · change p.addr.toNat + 8 + (Request.of size small).size.toNat ≤ p.addr.toNat + 8 + p.len.toNat
      omega
  next => cases result

/-- Free blocks are parts of earlier free blocks. -/
theorem Heap.request_within {R : Region} {h h' : Heap R} {size : UInt32} {b c : Slot}
    (result : h.request size = some (b, h')) (later : c ∈ h'.free) :
    ∃ p, p ∈ h.free ∧ p.addr.toNat ≤ c.addr.toNat ∧ c.past ≤ p.past := by
  unfold Heap.request at result
  split at result
  next small =>
    obtain ⟨pre, p, post, split, fits, -, free, -⟩ := h.of_alloc_some result
    rw [free, List.mem_cons] at later
    rcases later with rfl | old
    · have bound := h.layout.past_le (s := p) (by simp [split])
      have large := ((Request.of size small).fits_iff p).mp fits
      have addr := Layout.rest_addr (Request.of size small) bound large
      have len := Layout.rest_len (Request.of size small) large
      refine ⟨p, by simp [split], by omega, ?_⟩
      unfold Slot.past
      omega
    · refine ⟨c, ?_, le_refl _, le_refl _⟩
      rw [split]
      simp only [List.mem_append, List.mem_cons] at old ⊢
      tauto
  next => cases result

theorem Hosts.request {R : Region} {s : Machine} {h : Heap R} (hosts : Hosts s h) {fuel : Nat}
    (enough : R.length.toNat / 8 < fuel) (size : UInt32)
    (small : (size.toNat + 3) / 4 * 4 + 8 < 4294967296) :
    (h.request size = none ∧ kalloc fuel size s = .done 0 s) ∨
    ∃ b h' m', h.request size = some (b, h') ∧ kalloc fuel size s = .done (b.addr + 8) (s.withMem m') ∧
      Hosts (s.withMem m') h' ∧ Touches R (h'.free ++ h'.used) s.mem m' := by
  unfold Heap.request
  rw [dif_pos small]
  exact hosts.kalloc_done enough small

theorem Hosts.request_done {R : Region} {s : Machine} {h h' : Heap R} (hosts : Hosts s h) {fuel : Nat}
    (enough : R.length.toNat / 8 < fuel) {size : UInt32} {b : Slot}
    (given : h.request size = some (b, h')) : ∃ m', kalloc fuel size s = .done (b.addr + 8) (s.withMem m') ∧
      Hosts (s.withMem m') h' ∧ Touches R (h'.free ++ h'.used) s.mem m' := by
  have small : (size.toNat + 3) / 4 * 4 + 8 < 4294967296 := by
    by_contra large
    rw [Heap.request, dif_neg large] at given
    cases given
  rcases hosts.request enough size small with ⟨none, -⟩ | ⟨c, k, m', some, run, hosts', touches⟩
  · rw [none] at given
    cases given
  · rw [some, Option.some.injEq, Prod.mk.injEq] at given
    obtain ⟨rfl, rfl⟩ := given
    exact ⟨m', run, hosts', touches⟩

namespace Given
variable {R : Region} {h h' : Heap R} {size : UInt32} {b : Slot} (given : Given h size b h')
include given

theorem slot : b ∈ h'.free ++ h'.used := by simp [given.used]

/-- Earlier headers are among the later ones. -/
theorem touches {m m' : Mem} (touches : Touches R (h.free ++ h.used) m m') :
    Touches R (h'.free ++ h'.used) m m' := by
  intro x heads headers
  refine touches x heads ?_
  intro c listed
  obtain ⟨c', listed', same⟩ := given.headers c listed
  rw [← same]
  exact headers c' listed'

/-- A block that was used before is another one. -/
theorem ne {c : Slot} (member : c ∈ h.used) : c ≠ b := by
  have once := (List.nodup_append.mp h'.layout.1.nodup).2.1
  rw [given.used] at once
  rintro rfl
  exact (List.nodup_cons.mp once).1 member

end Given

/-- Headers are in the region. -/
theorem Touches.outside {R : Region} {l : List Slot} {m m' : Mem} (touches : Touches R l m m')
    (layout : Layout R l) {x : UInt32} (outside : x.toNat < R.base.toNat ∨ R.hi ≤ x.toNat) :
    m' x = m x := by
  have enough := R.enough
  refine touches x ?_ ?_
  · unfold Region.lo
    unfold Region.hi at outside
    omega
  · intro b member
    have bounds := layout.addr_bounds member
    have upper := layout.1.upper b member
    unfold Slot.past at upper
    omega

/-- Word `i` of a block. -/
theorem Layout.word_toNat {R : Region} {l : List Slot} (layout : Layout R l) {b : Slot} (member : b ∈ l)
    {i : UInt32} (inside : 4 * i.toNat + 4 ≤ b.len.toNat) :
    (b.addr + 8 + 4 * i).toNat = b.addr.toNat + 8 + 4 * i.toNat := by
  have past := layout.past_le member
  unfold Slot.past at past
  rw [UInt32.toNat_add, UInt32.toNat_add, UInt32.toNat_mul]
  simp
  omega

theorem Layout.word_aligned {R : Region} {l : List Slot} (layout : Layout R l) {b : Slot} (member : b ∈ l)
    (i : UInt32) : Mem.Aligned (b.addr + 8 + 4 * i) := by
  have aligned := layout.2 b member
  refine (aligned.add (by decide)).add ?_
  unfold Mem.Aligned
  rw [UInt32.toNat_mul]
  simp

/-- Words of different blocks, or different words, are apart. -/
theorem Layout.word_ne {R : Region} {l : List Slot} (layout : Layout R l) {b c : Slot} (hb : b ∈ l)
    (hc : c ∈ l) (differ : b ≠ c) {i k : UInt32} (insideB : 4 * i.toNat + 4 ≤ b.len.toNat)
    (insideC : 4 * k.toNat + 4 ≤ c.len.toNat) : b.addr + 8 + 4 * i ≠ c.addr + 8 + 4 * k := by
  have apart := layout.1.apart_of_ne hb hc differ
  have wordB := layout.word_toNat hb insideB
  have wordC := layout.word_toNat hc insideC
  unfold Slot.past Slot.first at apart
  intro same
  rw [same] at wordB
  omega

theorem frameAddr_toNat {f : Nat} (small : f < 1048576) : (frameAddr f).toNat = 4096 * f := by
  rw [frameAddr, UInt32.toNat_mul, UInt32.toNat_ofNat']
  simp [frameLen]
  omega

/-- The byte behind the start of a frame. -/
theorem frameAddr_succ_toNat {f : Nat} (small : f + 1 < 1048576) : (frameAddr f + 1).toNat = 4096 * f + 1 := by
  have place := frameAddr_toNat (f := f) (by omega)
  rw [Bytes.toNat_succ (by omega), place]

theorem frameAddr_aligned (f : Nat) : Mem.Aligned (frameAddr f) := by
  unfold Mem.Aligned
  rw [frameAddr, UInt32.toNat_mul]
  simp [frameLen]
  omega

theorem frameWord_toNat {f : Nat} (small : f < 1048576) {k : UInt32} (inside : k.toNat < 1024) :
    (frameAddr f + 4 * k).toNat = 4096 * f + 4 * k.toNat := by
  rw [UInt32.toNat_add, frameAddr_toNat small, UInt32.toNat_mul]
  simp
  omega

/-- The frame map is no longer than memory can be, and the heap has no part in the free
frames and so many bytes behind them. -/
structure Spared (R : Region) (s : Machine) (behind : Nat) : Prop where
  count : s.frameCount.toNat < 1048576
  apart : ∀ f, f ∈ freeList s → R.hi ≤ 4096 * f ∨ 4096 * f + 4096 + behind ≤ R.base.toNat

/-- Neither in one of these frames nor so many bytes behind it. -/
def OffFrames (fs : List Nat) (behind : Nat) (x : UInt32) : Prop :=
  ∀ f, f ∈ fs → x.toNat < 4096 * f ∨ 4096 * f + 4096 + behind ≤ x.toNat

/-- A byte that is none of the heap's own, and off these frames. -/
structure Plain (R : Region) (l : List Slot) (fs : List Nat) (behind : Nat) (x : UInt32) : Prop where
  heads : x.toNat < R.base.toNat ∨ R.lo ≤ x.toNat
  headers : ∀ b, b ∈ l → x.toNat < b.addr.toNat ∨ b.addr.toNat + 8 ≤ x.toNat
  frames : OffFrames fs behind x

theorem Plain.touches {R : Region} {l : List Slot} {fs : List Nat} {behind : Nat} {x : UInt32}
    (plain : Plain R l fs behind x) {m m' : Mem} (touches : Touches R l m m') : m' x = m x :=
  touches x plain.heads plain.headers

theorem OffFrames.within {fs gs : List Nat} (sub : ∀ f, f ∈ gs → f ∈ fs) {behind : Nat} {x : UInt32}
    (off : OffFrames fs behind x) : OffFrames gs behind x :=
  fun f member => off f (sub f member)

theorem Plain.within {R : Region} {l : List Slot} {fs gs : List Nat} (sub : ∀ f, f ∈ gs → f ∈ fs) {behind : Nat}
    {x : UInt32} (plain : Plain R l fs behind x) : Plain R l gs behind x where
  heads := plain.heads
  headers := plain.headers
  frames := plain.frames.within sub

/-- Later headers include the earlier ones. -/
theorem Plain.earlier {R : Region} {h h' : Heap R} {size : UInt32} {b : Slot} (given : Given h size b h')
    {fs : List Nat} {behind : Nat} {x : UInt32} (plain : Plain R (h'.free ++ h'.used) fs behind x) :
    Plain R (h.free ++ h.used) fs behind x where
  heads := plain.heads
  headers := by
    intro c listed
    obtain ⟨c', listed', same⟩ := given.headers c listed
    rw [← same]
    exact plain.headers c' listed'
  frames := plain.frames

namespace Spared
variable {R : Region} {s : Machine} {behind : Nat} (spared : Spared R s behind)
include spared

theorem le {n : Nat} (less : n ≤ behind) : Spared R s n where
  count := spared.count
  apart := by
    intro f free
    have apart := spared.apart f free
    omega

theorem weaken : Spared R s 0 := spared.le (Nat.zero_le behind)

theorem off {x : UInt32} (lower : R.base.toNat ≤ x.toNat) (upper : x.toNat < R.hi) :
    OffFrames (freeList s) behind x := by
  intro f free
  have apart := spared.apart f free
  omega

/-- The data of a block. -/
theorem plain {l : List Slot} (layout : Layout R l) {b : Slot} (member : b ∈ l) {x : UInt32}
    (data : b.Has x) : Plain R l (freeList s) behind x := by
  obtain ⟨heads, headers⟩ := layout.data_clear member data
  have upper := layout.1.upper b member
  have bounds := layout.addr_bounds member
  unfold Slot.Has at data
  exact ⟨heads, headers, spared.off (by omega) (by omega)⟩

theorem small {f : Nat} (member : f ∈ freeList s) : f < 1048576 :=
  (mem_freeList member).1.trans spared.count

/-- Words of the heap are not words of free frames. -/
theorem word_ne {l : List Slot} (layout : Layout R l) {b : Slot} (slot : b ∈ l) {i k : UInt32}
    (insideB : 4 * i.toNat + 4 ≤ b.len.toNat) {f : Nat} (member : f ∈ freeList s)
    (insideF : k.toNat < 1024) : b.addr + 8 + 4 * i ≠ frameAddr f + 4 * k := by
  have wordB := layout.word_toNat slot insideB
  have wordF := frameWord_toNat (spared.small member) insideF
  have upper := layout.1.upper b slot
  have bounds := layout.addr_bounds slot
  have apart := spared.apart f member
  unfold Slot.past at upper
  intro same
  rw [same] at wordB
  omega

end Spared

end Sos.Kernel
