import Sos.Kernel.HeapCanonical

/-! `alloc` for every size there is: near the end of the range the sum with the header wraps. -/

namespace Sos.Kernel
open Sos.Lib

/-- The size can be rounded up with room for a header, or no free block is as long as what the
sum wraps to. -/
def Harmless (R : Region) (size : UInt32) (s : Clients) : Prop :=
  (size.toNat + 3) / 4 * 4 + 8 < 4294967296 ∨
    ∃ free, FreeList R s.mem free ∧ ∀ b, b ∈ free → b.len < roundUp size + 8

/-- At least `size` bytes from `p` on are in a new block and in the region, which the blocks
still tile. -/
structure Granted (R : Region) (size p : UInt32) (s : Clients) (m : Mem) : Prop where
  block : ∃ free b, WellFormed R m free (b :: s.live) ∧ b.addr + 8 = p ∧ size.toNat ≤ b.len.toNat
  lower : R.lo ≤ p.toNat
  upper : p.toNat + size.toNat ≤ R.hi

/-- The request is granted in full, or it is refused and nothing is changed. -/
def SafeSize (R : Region) (fuel : Nat) (size : UInt32) (s : Clients) : Prop :=
  ∃ p m, Kernel.alloc fuel R.base size s.mem = .done p m ∧
    (p = 0 ∧ m = s.mem ∨ p ≠ 0 ∧ Granted R size p s m)

/-- Calls with harmless sizes; a client stores to its own data only. -/
def Clients.Careful (R : Region) : Call → Clients → Prop
  | .alloc size, s => Harmless R size s
  | .free pointer, s => Clients.Allowed (.free pointer) s
  | .write a v, s => Clients.Allowed (.write a v) s

/-- Whatever the sizes, the slot goes to the head of the used list. -/
theorem take_returns (base p j size : UInt32) (m : Mem) : ∃ m' : Mem,
    take base p j size m = .done (p + 8) (m'.store (usedList base) p) := by
  obtain ⟨m₁, unlinked⟩ : ∃ m₁, unlink base p j m = .done () m₁ := by
    unfold unlink
    by_cases head : j = 0
    · exact ⟨_, by rw [if_pos head]; rfl⟩
    · exact ⟨_, by rw [if_neg head]; rfl⟩
  rw [take, Prog.bind_done _ unlinked]
  simp only [load, store, setLen, Prog.get_bind_run]
  by_cases large : m₁.load (p + 4) ≥ size + 8
  · exact ⟨_, by rw [if_pos large]; rfl⟩
  · exact ⟨_, by rw [if_neg large]; rfl⟩

/-- The search ends where some free block passes the test. -/
theorem first_passing {l : List Slot} {c : Slot} {size : UInt32} (member : c ∈ l)
    (passes : ¬c.len < roundUp size + 8) :
    ∃ b, (l.find? fun b => decide (¬b.len < roundUp size + 8)) = some b :=
  Option.isSome_iff_exists.mp (List.find?_isSome.mpr ⟨c, member, decide_eq_true passes⟩)

namespace Tracks
variable {R : Region} {s : Clients} {h : Heap R} (tracks : Tracks s h) {fuel : Nat}
  (enough : R.length.toNat / 8 < fuel) {size : UInt32}
include tracks enough

omit enough in
/-- The test on a slot in memory is the one on its length. -/
theorem test {b : Slot} (member : b ∈ h.free) :
    decide (¬slotLen s.mem b.addr < roundUp size + 8) = decide (¬b.len < roundUp size + 8) := by
  rw [tracks.rep.lens b (List.mem_append_left _ member)]

theorem alloc_none (none : ∀ b, b ∈ h.free → b.len < roundUp size + 8) :
    Kernel.alloc fuel R.base size s.mem = .done 0 s.mem := by
  have count := h.layout.among_left
  have missed := search_end fuel (fun m p => ¬slotLen m p < roundUp size + 8) tracks.rep.freeChain
    (by rw [List.length_map]; omega) (by
      intro y member
      obtain ⟨b, inside, rfl⟩ := List.mem_map.mp member
      rw [tracks.test inside, decide_eq_false (not_not.mpr (none b inside))])
  rw [alloc_eq, Prog.bind_done _ missed]
  rfl

/-- The first free block that passes the test is given away, with no regard to what the sum was. -/
theorem alloc_given {b : Slot}
    (first : (h.free.find? fun b => decide (¬b.len < roundUp size + 8)) = some b) : ∃ m,
    Kernel.alloc fuel R.base size s.mem = .done (b.addr + 8) m ∧ m.load (usedList R.base) = b.addr := by
  obtain ⟨fits, pre, post, split, before⟩ := List.find?_eq_some_iff_append.mp first
  have inside : b ∈ h.free := List.mem_of_find?_eq_some first
  have count := h.layout.among_left
  have chain := tracks.rep.freeChain
  rw [split, List.map_append, List.map_cons] at chain
  have hit := search_hit fuel (fun m p => ¬slotLen m p < roundUp size + 8) chain
    (by
      rw [split, List.length_append, List.length_cons] at count
      rw [List.length_map]
      omega)
    (by
      intro y link
      obtain ⟨a, early, rfl⟩ := List.mem_map.mp link
      rw [tracks.test (by rw [split]; exact List.mem_append_left _ early)]
      simpa using before a early)
    (by rw [tracks.test inside, fits])
  obtain ⟨m, given⟩ := take_returns R.base b.addr ((pre.map Slot.addr).getLastD 0) (roundUp size) s.mem
  have valid : b.addr ≠ 0 := h.layout.addr_ne_zero (List.mem_append_left _ inside)
  refine ⟨_, ?_, Mem.load_store_same m (usedList R.base) b.addr⟩
  rw [alloc_eq, Prog.bind_done _ hit]
  simp only [if_neg valid]
  exact given

omit enough in
/-- A free slot is not the head of the used list. -/
theorem head_ne {b : Slot} (member : b ∈ h.free) : s.mem.load (usedList R.base) ≠ b.addr := by
  have valid : b.addr ≠ 0 := h.layout.addr_ne_zero (List.mem_append_left _ member)
  have chain := tracks.rep.usedChain
  cases used : h.used with
  | nil =>
    rw [used] at chain
    intro same
    exact valid (same.symm.trans chain)
  | cons c rest =>
    rw [used] at chain
    have head : s.mem.load (usedList R.base) = c.addr := chain.1
    rw [head]
    exact (h.layout.lists_apart h.layout.among (List.mem_cons_of_mem _ (List.mem_map_of_mem member))
      (List.mem_cons_of_mem _ (by rw [used]; simp))).symm

theorem granted (small : (size.toNat + 3) / 4 * 4 + 8 < 4294967296) : SafeSize R fuel size s := by
  have count := h.layout.among_left
  have steps : h.free.length < fuel := by omega
  rcases alloc_done h tracks.rep steps size small with ⟨-, run⟩ | ⟨b, h', m, result, run, rep, -⟩
  · exact ⟨0, s.mem, run, Or.inl ⟨rfl, rfl⟩⟩
  · obtain ⟨used, len, valid⟩ := h.alloc_some result
    have next : Tracks ⟨m, b :: s.live⟩ h' := ⟨by rw [used, tracks.live], rep⟩
    have reply : (h.serve (.alloc size)).1 = .pointer (b.addr + 8) := by
      simp only [Heap.serve, dif_pos small, result]
    have fresh := tracks.fresh small reply valid
    have room : size.toNat ≤ b.len.toNat := by
      rw [len]
      change size.toNat ≤ (roundUp size).toNat
      rw [roundUp_toNat small]
      omega
    have wellFormed := next.wellFormed
    rw [next.live] at wellFormed
    exact ⟨_, m, run, Or.inr ⟨valid, ⟨h'.free, b, wellFormed, rfl, room⟩, fresh.lower, fresh.upper⟩⟩

/-- A size is handled if and only if it does not wrap, or nothing passes the test. -/
theorem safeSize_iff : SafeSize R fuel size s ↔ Harmless R size s := by
  constructor
  · rintro ⟨p, m, run, outcome⟩
    by_contra harmful
    unfold Harmless at harmful
    rw [not_or] at harmful
    obtain ⟨wraps, some⟩ := harmful
    have passing : ¬∀ b, b ∈ h.free → b.len < roundUp size + 8 := fun none => some ⟨_, tracks.freeList, none⟩
    simp only [not_forall] at passing
    obtain ⟨c, member, passes⟩ := passing
    obtain ⟨b, first⟩ := first_passing member passes
    have inside : b ∈ h.free := List.mem_of_find?_eq_some first
    obtain ⟨m', run', head⟩ := tracks.alloc_given enough first
    rw [run', Outcome.done.injEq] at run
    obtain ⟨rfl, rfl⟩ := run
    rcases outcome with ⟨-, same⟩ | ⟨valid, granted⟩
    · rw [same] at head
      exact tracks.head_ne inside head
    · have upper := granted.upper
      have room := R.room
      have bounds := h.layout.addr_bounds (List.mem_append_left h.used inside)
      have nonzero : (b.addr + 8).toNat ≠ 0 := fun zero => valid (UInt32.toNat_inj.mp zero)
      have place : (b.addr + 8).toNat = (b.addr.toNat + 8) % 4294967296 := UInt32.toNat_add _ _
      unfold Region.hi at upper
      omega
  · rintro (small | ⟨free, list, none⟩)
    · exact tracks.granted enough small
    · rw [list.unique tracks.freeList] at none
      exact ⟨0, s.mem, tracks.alloc_none enough none, Or.inl ⟨rfl, rfl⟩⟩

/-- Harmless calls keep the two lists in memory. -/
theorem careful {c : Call} {o : Reply} {t : Clients} (careful : Clients.Careful R c s)
    (run : Clients.step fuel R.base c s = .done o t) : ∃ h' : Heap R, Tracks t h' := by
  have allowed : Clients.Allowed c s → ∃ h' : Heap R, Tracks t h' := by
    intro allowed
    obtain ⟨t', run', next⟩ := tracks.step enough allowed
    rw [run', Outcome.done.injEq] at run
    obtain ⟨-, rfl⟩ := run
    exact ⟨_, next⟩
  cases c with
  | alloc size =>
    rcases careful with small | ⟨free, list, none⟩
    · exact allowed small
    · rw [list.unique tracks.freeList] at none
      have refused : Clients.onMem (Kernel.alloc fuel R.base size) s = .done 0 s :=
        Prog.zoom_done (tracks.alloc_none enough none)
      rw [Clients.step, Prog.bind_done _ refused] at run
      cases run
      exact ⟨h, tracks⟩
  | free pointer => exact allowed careful
  | write a v => exact allowed careful

end Tracks

theorem Tracks.of_careful {R : Region} {m₀ : Mem} {fuel : Nat} (enough : R.length.toNat / 8 < fuel)
    (init : Rep R m₀ (Heap.init R).free (Heap.init R).used) {log : List (Call × Reply)} {s : Clients}
    (runs : Runs (Clients.step fuel R.base) (Clients.Careful R) ⟨m₀, []⟩ log s) :
    ∃ h : Heap R, Tracks s h :=
  runs.invariant (fun _ s => ∃ h : Heap R, Tracks s h) ⟨Heap.init R, rfl, init⟩
    fun _ _ _ _ _ ⟨_, tracks⟩ careful run => tracks.careful enough careful run

/-- After any calls with harmless sizes a further size is handled if and only if it is harmless
as well. -/
theorem heap_sizes_safe_iff (R : Region) (m : Mem) {fuel : Nat} (enough : R.length.toNat / 8 < fuel) :
    ∃ m₀, initAlloc R.base R.length m = .done retSuccess m₀ ∧
      ∀ log s, Runs (Clients.step fuel R.base) (Clients.Careful R) ⟨m₀, []⟩ log s →
        ∀ size, SafeSize R fuel size s ↔ Harmless R size s := by
  obtain ⟨m₀, run, init⟩ := initAlloc_done R m
  refine ⟨m₀, run, fun log s runs size => ?_⟩
  obtain ⟨h, tracks⟩ := Tracks.of_careful enough init runs
  exact tracks.safeSize_iff enough

theorem heap_sizes_safe_iff_megabyte : ∃ m₀, initAlloc 0x100000 0x100000 (fun _ => 0) = .done retSuccess m₀ ∧
    ∀ log s, Runs (Clients.step 131073 0x100000) (Clients.Careful megabyte) ⟨m₀, []⟩ log s →
      ∀ size, SafeSize megabyte 131073 size s ↔ Harmless megabyte size s :=
  heap_sizes_safe_iff megabyte (fun _ => 0) (by decide)

/-- A request for all but one byte of the address space is granted, with a block of no bytes. -/
theorem heap_sizes_wrap : ∃ m₀ p m, initAlloc 0x100000 0x100000 (fun _ => 0) = .done retSuccess m₀ ∧
    alloc 131073 0x100000 0xFFFFFFFF m₀ = .done p m ∧ p ≠ 0 ∧
    ¬SafeSize megabyte 131073 0xFFFFFFFF ⟨m₀, []⟩ := by
  obtain ⟨m₀, run, init⟩ := initAlloc_done megabyte (fun _ => 0)
  have tracks : Tracks ⟨m₀, []⟩ (Heap.init megabyte) := ⟨rfl, init⟩
  have enough : megabyte.length.toNat / 8 < 131073 := by decide
  have member : (⟨0x100008, 0xFFFF0⟩ : Slot) ∈ (Heap.init megabyte).free := List.mem_singleton.mpr rfl
  have first : ((Heap.init megabyte).free.find? fun b => decide (¬b.len < roundUp 0xFFFFFFFF + 8)) =
      some ⟨0x100008, 0xFFFF0⟩ := rfl
  obtain ⟨m, given, -⟩ := tracks.alloc_given enough first
  refine ⟨m₀, _, m, run, given, by decide, fun safe => ?_⟩
  rcases (tracks.safeSize_iff enough).mp safe with small | ⟨free, list, none⟩
  · exact absurd small (by decide)
  · rw [list.unique tracks.freeList] at none
    exact absurd (none _ member) (by decide)

end Sos.Kernel
