import Sos.Kernel.Processes

/-! What a new process can see of what the memory held before: words of the `tss_t` that
`create_process` does not set keep what was in the heap block. -/

namespace Sos.Kernel
open Sos.Lib Machine

/-- A byte of a free frame, or of the data of a free block. -/
def Stale {R : Region} (s : Machine) (h : Heap R) (x : UInt32) : Prop :=
  (∃ f, f ∈ freeList s ∧ 4096 * f ≤ x.toNat ∧ x.toNat < 4096 * f + 4096) ∨ ∃ b, b ∈ h.free ∧ b.Has x

/-- The same machine apart from stale bytes. -/
structure Alike {R : Region} (s : Machine) (h : Heap R) (s' : Machine) : Prop where
  machine : s' = s.withMem s'.mem
  kept : ∀ x, ¬Stale s h x → s'.mem x = s.mem x

namespace Alike
variable {R : Region} {s s' : Machine} {h : Heap R} (alike : Alike s h s')
include alike

theorem freeList_eq : freeList s' = freeList s := by
  rw [alike.machine]
  rfl

theorem spared {behind : Nat} (spared : Spared R s behind) : Spared R s' behind := by
  rw [alike.machine]
  exact ⟨spared.count, spared.apart⟩

end Alike

/-- Byte `k` of the `tss_t`, from which the processor loads the state of a task. -/
def tssByte (t : Machine) (q : Process) (k : UInt32) : UInt8 := t.mem (t.mem.load q.archInfo + k)

/-- The byte at an address of the process, where the page walk finds one. -/
def userByte (t : Machine) (q : Process) (va : UInt32) : Option UInt8 :=
  (pageWalk t.mem (t.mem.load q.addrSpace) va).map fun place => t.mem (place.frame + (va &&& 0xFFF))

/-- Two machines that differ in stale bytes make processes with the same initial state. -/
def NoLeak {R : Region} (fuel : Nat) (s : Machine) (h : Heap R) (text tLen : UInt32) : Prop :=
  ∀ s₁ s₂ p q₁ q₂ t₁ t₂, Alike s h s₁ → Alike s h s₂ →
    (∀ k, k < tLen.toNat → s₁.mem (text + UInt32.ofNat k) = s₂.mem (text + UInt32.ofNat k)) →
    createProcess goOn fuel p text tLen s₁ = .done (retSuccess, q₁) t₁ →
    createProcess goOn fuel p text tLen s₂ = .done (retSuccess, q₂) t₂ →
    (∀ k, k < tssSize → tssByte t₁ q₁ k = tssByte t₂ q₂ k) ∧
      ∀ va, memspaceUserMem ≤ va → userByte t₁ q₁ va = userByte t₂ q₂ va

/-- There are frames and blocks for a process. -/
structure Room {R : Region} (s : Machine) (h : Heap R) (size : UInt32) : Prop where
  frames : demand (numPts size) (numFrames size) < (freeList s).length
  blocks : ∃ b c d e g h₂ h', Blocks h size b c d e g h₂ h'

/-- The word of `eax` in the `tss_t`. -/
def eaxOffset : UInt32 := 40

def sameFields (n : Nat) (w : UInt32) : List (UInt32 × UInt32) := (List.range n).map fun k => (UInt32.ofNat k, w)

/-- The machine with word `w` all over block `b` and byte `v` all over block `g`. -/
def Machine.stained (b g : Slot) (n : Nat) (w : UInt32) (v : UInt8) (s : Machine) : Machine :=
  s.withMem fun x => if g.Has x then v else (s.stored (fieldWrites (b.addr + 8) (sameFields n w))).mem x

section
variable {R : Region} {h h₂ h' : Heap R} {s : Machine} {size : UInt32} {b c d e g : Slot}

namespace Blocks
variable (blocks : Blocks h size b c d e g h₂ h')
include blocks

theorem fits_same (w : UInt32) : Fits R (h'.free ++ h'.used) b (sameFields (numFrames size) w) := by
  have bound := numFrames_le size
  refine ⟨h'.layout, blocks.slots.1, ?_⟩
  intro field member
  obtain ⟨k, inside, rfl⟩ := List.mem_map.mp member
  rw [List.mem_range] at inside
  change 4 * (UInt32.ofNat k).toNat + 4 ≤ _
  rw [blocks.lens.1, UInt32.toNat_ofNat']
  omega

theorem apart_bg {x : UInt32} (data : b.Has x) : ¬g.Has x := by
  have once := blocks.distinct.1
  simp only [List.nodup_cons, List.mem_cons, List.not_mem_nil, or_false, not_or] at once
  exact h'.layout.data_apart blocks.slots.1 blocks.slots.2.2.2.2 (Ne.symm once.1.2.2.2) data

/-- The data of the first and the last block were free before. -/
theorem within {x : UInt32} (data : b.Has x ∨ g.Has x) : ∃ p, p ∈ h.free ∧ p.Has x := by
  obtain ⟨h₁, first, second⟩ := blocks.lists
  obtain ⟨h₃, h₄, third, fourth, fifth⟩ := blocks.rest
  rcases data with data | data
  · obtain ⟨p, free, addr, past⟩ := (h.request_some first).stale
    refine ⟨p, free, ?_⟩
    unfold Slot.Has at *
    rw [addr]
    omega
  · obtain ⟨p₄, free₄, addr₄, past₄⟩ := (h₄.request_some fifth).stale
    obtain ⟨p₃, free₃, addr₃, past₃⟩ := h₃.request_within fourth free₄
    obtain ⟨p₂, free₂, addr₂, past₂⟩ := h₂.request_within third free₃
    obtain ⟨p₁, free₁, addr₁, past₁⟩ := h₁.request_within second free₂
    obtain ⟨p, free, addr, past⟩ := h.request_within first free₁
    have same := congrArg UInt32.toNat addr₄
    refine ⟨p, free, ?_⟩
    unfold Slot.Has at *
    omega

theorem stained_kept (w : UInt32) (v : UInt8) {x : UInt32} (notB : ¬b.Has x) (notG : ¬g.Has x) :
    (s.stained b g (numFrames size) w v).mem x = s.mem x :=
  (if_neg notG).trans ((blocks.fits_same w).outside s.mem notB)

theorem alike (w : UInt32) (v : UInt8) : Alike s h (s.stained b g (numFrames size) w v) where
  machine := rfl
  kept := by
    intro x fresh
    exact blocks.stained_kept w v (fun data => fresh (Or.inr (blocks.within (Or.inl data))))
      fun data => fresh (Or.inr (blocks.within (Or.inr data)))

theorem hosts_stained (hosts : Hosts s h) (w : UInt32) (v : UInt8) :
    Hosts (s.stained b g (numFrames size) w v) h := by
  refine hosts.congr rfl rfl ?_
  intro x lower upper away
  have clear : ¬(b.Has x ∨ g.Has x) := by
    intro data
    obtain ⟨p, free, inside⟩ := blocks.within data
    exact away p (List.mem_append_left h.used free) inside
  exact blocks.stained_kept w v (fun data => clear (Or.inl data)) fun data => clear (Or.inr data)

theorem stained_word (w : UInt32) (v : UInt8) {k : Nat} (inside : k < numFrames size) :
    (s.stained b g (numFrames size) w v).mem.load (b.addr + 8 + 4 * UInt32.ofNat k) = w := by
  have fits := blocks.fits_same w
  have field : (UInt32.ofNat k, w) ∈ sameFields (numFrames size) w :=
    List.mem_map.mpr ⟨k, List.mem_range.mpr inside, rfl⟩
  refine (h'.layout.word_kept blocks.slots.1 (fits.short _ field) fun x data =>
    if_neg (blocks.apart_bg data)).trans ?_
  refine Mem.load_storeAll_only s.mem (h'.layout.word_aligned blocks.slots.1 _)
    (fun u member => (fits.inside u member).1) (List.mem_map.mpr ⟨_, field, rfl⟩) ?_
  intro u member
  obtain ⟨field', listed, same⟩ := List.mem_map.mp member
  obtain ⟨k', -, rfl⟩ := List.mem_map.mp listed
  exact (congrArg Prod.snd same).symm

theorem eax_place : (g.addr + 8 + eaxOffset).toNat = g.addr.toNat + 48 ∧ g.Has (g.addr + 8 + eaxOffset) := by
  have lenG := blocks.lens.2.2.2.2
  have past := h'.layout.past_le blocks.slots.2.2.2.2
  unfold Slot.past at past
  have place : (g.addr + 8 + eaxOffset).toNat = g.addr.toNat + 48 := by
    rw [UInt32.toNat_add, UInt32.toNat_add, show eaxOffset.toNat = 40 by decide]
    simp
    omega
  refine ⟨place, ?_⟩
  unfold Slot.Has Slot.past
  omega

/-- Before a process is made the word and the byte can be any. -/
theorem stain (hosts : Hosts s h) (w : UInt32) (v : UInt8) : ∃ s', Alike s h s' ∧ Hosts s' h ∧
    (∀ k, k < numFrames size → s'.mem.load (b.addr + 8 + 4 * UInt32.ofNat k) = w) ∧
    s'.mem (g.addr + 8 + eaxOffset) = v :=
  ⟨s.stained b g (numFrames size) w v, blocks.alike w v, blocks.hosts_stained hosts w v,
    fun _ inside => blocks.stained_word w v inside, if_pos blocks.eax_place.2⟩

/-- The processor loads `eax` with what the block held before. -/
theorem eax_kept {as : AddrSpace} {u t : Machine} {m : Mem} {pd : Nat} {fs : List Nat} {p q : Process}
    {tLen : UInt32} {behind : Nat} (spared : Spared R s behind) (far : 1 ≤ behind)
    (fits : 4 * numPts size ≤ 3072 + behind) (built : Built s h size as u b c h₂ m pd fs)
    (created : Created s u h' as tLen p d e g q t) :
    tssByte t q eaxOffset = s.mem (g.addr + 8 + eaxOffset) := by
  obtain ⟨place, data⟩ := blocks.eax_place
  have info : t.mem.load q.archInfo = g.addr + 8 := by
    rw [created.process, ← created.info]
    exact congrArg t.mem.load (UInt32.add_zero _).symm
  rw [tssByte, info]
  apply created.unset_kept built blocks spared far fits data
  intro field listed
  have other : field.1.toNat ≠ 10 := by
    revert field
    simp [tssFields]
  omega

end Blocks

theorem NoLeak.same_eax {text tLen : UInt32} {fuel : Nat} {s₁ s₂ t₁ t₂ : Machine} {p q₁ q₂ : Process}
    (noLeak : NoLeak fuel s h text tLen) (alike₁ : Alike s h s₁) (alike₂ : Alike s h s₂)
    (text₁ : ∀ k, k < tLen.toNat → s₁.mem (text + UInt32.ofNat k) = s.mem (text + UInt32.ofNat k))
    (text₂ : ∀ k, k < tLen.toNat → s₂.mem (text + UInt32.ofNat k) = s.mem (text + UInt32.ofNat k))
    (run₁ : createProcess goOn fuel p text tLen s₁ = .done (retSuccess, q₁) t₁)
    (run₂ : createProcess goOn fuel p text tLen s₂ = .done (retSuccess, q₂) t₂) :
    tssByte t₁ q₁ eaxOffset = tssByte t₂ q₂ eaxOffset :=
  (noLeak s₁ s₂ p q₁ q₂ t₁ t₂ alike₁ alike₂
    (fun k inside => (text₁ k inside).trans (text₂ k inside).symm) run₁ run₂).1 eaxOffset (by decide)

/-- Where a process is made, the byte in `eax` can be any. -/
theorem Room.leaks {text tLen : UInt32} {fuel behind : Nat} (room : Room s h (tLen + dataLen))
    (hosts : Hosts s h) (steps : R.length.toNat / 8 < fuel) (spared : Spared R s behind) (far : 1 ≤ behind)
    (fits : 4 * numPts (tLen + dataLen) ≤ 3072 + behind)
    (kept : ∀ k, k < tLen.toNat → ¬Stale s h (text + UInt32.ofNat k)) (p : Process) (v : UInt8) :
    ∃ s' q t, Alike s h s' ∧
      (∀ k, k < tLen.toNat → s'.mem (text + UInt32.ofNat k) = s.mem (text + UInt32.ofNat k)) ∧
      createProcess goOn fuel p text tLen s' = .done (retSuccess, q) t ∧ tssByte t q eaxOffset = v := by
  obtain ⟨b, c, d, e, g, h₂, h', blocks⟩ := room.blocks
  have enough := room.frames
  cases list : freeList s with
  | nil =>
    rw [list] at enough
    exact absurd enough (Nat.not_lt_zero _)
  | cons pd fs =>
    rw [list, List.length_cons] at enough
    obtain ⟨s', alike, hosts', words, eax⟩ := blocks.stain hosts (frameAddr pd + 1) v
    have free : freeList s' = pd :: fs := alike.freeList_eq.trans list
    have spared' := alike.spared spared
    obtain ⟨as, u, m, q, t, built, created, run⟩ := createProcess_room p text
      hosts' steps spared' far fits free (Nat.lt_succ_iff.mp enough) blocks
      fun k _ inside => ⟨pd, by rw [free]; exact List.mem_cons_self, words k inside⟩
    refine ⟨s', q, t, alike, fun k inside => alike.kept _ (kept k inside), run goOn, ?_⟩
    rw [blocks.eax_kept spared' far fits built created, eax]

/-- Wherever `create_process` can make a process, what it makes tells what the memory held
before. -/
theorem createProcess_leaks {text tLen : UInt32} {fuel behind : Nat} (hosts : Hosts s h)
    (steps : R.length.toNat / 8 < fuel) (spared : Spared R s behind) (far : 1 ≤ behind)
    (fits : 4 * numPts (tLen + dataLen) ≤ 3072 + behind) (room : Room s h (tLen + dataLen))
    (kept : ∀ k, k < tLen.toNat → ¬Stale s h (text + UInt32.ofNat k)) : ¬NoLeak fuel s h text tLen := by
  intro noLeak
  have made := room.leaks hosts steps spared far fits kept ⟨0, .null, 0, 0⟩
  obtain ⟨s₁, q₁, t₁, alike₁, text₁, run₁, byte₁⟩ := made 0
  obtain ⟨s₂, q₂, t₂, alike₂, text₂, run₂, byte₂⟩ := made 1
  have same := noLeak.same_eax alike₁ alike₂ text₁ text₂ run₁ run₂
  rw [byte₁, byte₂] at same
  cases same

end

theorem room_fourMegabytes (m : Mem) : Room (fourMegabytes m) (Heap.init megabyte) (10 + dataLen) where
  frames := by
    rw [freeList_fourMegabytes, List.length_range']
    decide
  blocks := blocks_megabyte

/-- The text is kernel data below the heap. -/
theorem text_fourMegabytes (m : Mem) : ∀ k, k < (10 : UInt32).toNat →
    ¬Stale (fourMegabytes m) (Heap.init megabyte) (0x3000 + UInt32.ofNat k) := by
  intro k inside
  have place : ((0x3000 : UInt32) + UInt32.ofNat k).toNat = 12288 + k := by
    rw [UInt32.toNat_add, UInt32.toNat_ofNat']
    change k < 10 at inside
    simp
    omega
  change k < 10 at inside
  rintro (⟨f, free, lower, -⟩ | ⟨b, free, lower, -⟩)
  · rw [freeList_fourMegabytes, List.mem_range'_1] at free
    omega
  · have bounds := (Heap.init megabyte).layout.addr_bounds (List.mem_append_left _ free)
    have base : megabyte.base.toNat = 1048576 := by decide
    omega

theorem createProcess_leaks_small : ∃ m₀, initAlloc 0x100000 0x100000 (fun _ => 0) = .done retSuccess m₀ ∧
    ¬NoLeak 131073 (fourMegabytes m₀) (Heap.init megabyte) 0x3000 10 := by
  obtain ⟨m₀, init, rep⟩ := initAlloc_done megabyte fun _ => 0
  exact ⟨m₀, init, createProcess_leaks ⟨rfl, rfl, rep⟩ (by decide) (spared_fourMegabytes m₀ 1) (by decide)
    (by decide) (room_fourMegabytes m₀) (text_fourMegabytes m₀)⟩

/-- Two machines whose free memory differs, and `eax` with it. -/
theorem createProcess_eax : ∃ m₀ s₁ s₂ q₁ q₂ t₁ t₂,
    initAlloc 0x100000 0x100000 (fun _ => 0) = .done retSuccess m₀ ∧
    Alike (fourMegabytes m₀) (Heap.init megabyte) s₁ ∧ Alike (fourMegabytes m₀) (Heap.init megabyte) s₂ ∧
    createProcess goOn 131073 ⟨0, .null, 0, 0⟩ 0x3000 10 s₁ = .done (retSuccess, q₁) t₁ ∧
    createProcess goOn 131073 ⟨0, .null, 0, 0⟩ 0x3000 10 s₂ = .done (retSuccess, q₂) t₂ ∧
    tssByte t₁ q₁ eaxOffset = 0 ∧ tssByte t₂ q₂ eaxOffset = 1 ∧
    ¬NoLeak 131073 (fourMegabytes m₀) (Heap.init megabyte) 0x3000 10 := by
  obtain ⟨m₀, init, rep⟩ := initAlloc_done megabyte fun _ => 0
  have made := (room_fourMegabytes m₀).leaks ⟨rfl, rfl, rep⟩ (show megabyte.length.toNat / 8 < 131073 by decide)
    (spared_fourMegabytes m₀ 1) (by decide) (by decide) (text_fourMegabytes m₀) ⟨0, .null, 0, 0⟩
  obtain ⟨s₁, q₁, t₁, alike₁, text₁, run₁, byte₁⟩ := made 0
  obtain ⟨s₂, q₂, t₂, alike₂, text₂, run₂, byte₂⟩ := made 1
  refine ⟨m₀, s₁, s₂, q₁, q₂, t₁, t₂, init, alike₁, alike₂, run₁, run₂, byte₁, byte₂, ?_⟩
  intro noLeak
  have same := noLeak.same_eax alike₁ alike₂ text₁ text₂ run₁ run₂
  rw [byte₁, byte₂] at same
  cases same

end Sos.Kernel
