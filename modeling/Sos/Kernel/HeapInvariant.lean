import Sos.Kernel.HeapRuns

/-! After any calls the heap is well formed, and what clients store stays theirs. -/

namespace Sos.Kernel
open Sos.Lib

/-- The calls on the heap of two lists as a system of its own. -/
def Heap.step {R : Region} (c : Call) : Prog (Heap R) Reply := fun h =>
  .done (h.serve c).1 (h.serve c).2

/-- All runs of the allocator and its clients from the memory `m`. -/
def Sessions (R : Region) (fuel : Nat) (m : Mem) : List (Call × Reply) → Clients → Prop :=
  Runs (Clients.step fuel R.base) Clients.Allowed ⟨m, []⟩

section
variable {R : Region} {fuel : Nat} {m : Mem} {log : List (Call × Reply)} {s : Clients}

/-- Every run is one of the heap of two lists with the same replies. -/
theorem Sessions.tracks (sessions : Sessions R fuel m log s) (enough : R.length.toNat / 8 < fuel)
    (init : Rep R m (Heap.init R).free (Heap.init R).used) :
    ∃ h, Runs Heap.step (fun _ _ => True) (Heap.init R) log h ∧ Tracks s h := by
  refine Runs.simulated Tracks ⟨rfl, init⟩ ?_ sessions
  intro c s h o t tracks allowed run
  obtain ⟨t', run', next⟩ := tracks.step enough allowed
  rw [run', Outcome.done.injEq] at run
  obtain ⟨rfl, rfl⟩ := run
  exact ⟨trivial, _, rfl, next⟩

end

/-- Two finite lists of aligned blocks that tile the region. -/
structure WellFormed (R : Region) (m : Mem) (free used : List Slot) : Prop where
  freeList : Chain m.load 0 R.base (free.map Slot.addr)
  usedList : Chain m.load 0 (usedList R.base) (used.map Slot.addr)
  lens : ∀ b, b ∈ free ++ used → slotLen m b.addr = b.len
  freeOnce : (free.map Slot.addr).Nodup
  usedOnce : (used.map Slot.addr).Nodup
  disjoint : ∀ b c, b ∈ free → c ∈ used → b.addr ≠ c.addr
  tiles : Tiles Slot.first Slot.past R.lo R.hi (free ++ used)
  aligned : ∀ b, b ∈ free ++ used → Mem.Aligned b.addr

theorem Tracks.wellFormed {R : Region} {s : Clients} {h : Heap R} (tracks : Tracks s h) :
    WellFormed R s.mem h.free h.used where
  freeList := tracks.rep.freeChain
  usedList := tracks.rep.usedChain
  lens := tracks.rep.lens
  freeOnce := (List.nodup_cons.mp tracks.rep.freeChain.nodup).2
  usedOnce := (List.nodup_cons.mp tracks.rep.usedChain.nodup).2
  disjoint := fun _ _ hb hc => h.layout.lists_apart h.layout.among
    (List.mem_cons_of_mem _ (List.mem_map_of_mem hb)) (List.mem_cons_of_mem _ (List.mem_map_of_mem hc))
  tiles := h.layout.1
  aligned := h.layout.2

/-- The two lists tile the region after any calls, and every further call returns. -/
theorem heap_wellFormed (R : Region) (m : Mem) {fuel : Nat} (enough : R.length.toNat / 8 < fuel) :
    ∃ m₀, initAlloc R.base R.length m = .done retSuccess m₀ ∧ ∀ log s, Sessions R fuel m₀ log s →
      (∃ free used, WellFormed R s.mem free used) ∧
        ∀ c, Clients.Allowed c s → ∃ o t, Clients.step fuel R.base c s = .done o t := by
  obtain ⟨m₀, run, init⟩ := initAlloc_done R m
  refine ⟨m₀, run, fun log s sessions => ?_⟩
  obtain ⟨h, -, tracks⟩ := sessions.tracks enough init
  refine ⟨⟨h.free, h.used, tracks.wellFormed⟩, fun c allowed => ?_⟩
  obtain ⟨t, next, -⟩ := tracks.step enough allowed
  exact ⟨_, t, next⟩

/-- A megabyte behind the first one. -/
def megabyte : Region where
  base := 0x100000
  length := 0x100000
  aligned := by decide
  enough := by decide
  room := by decide

theorem heap_wellFormed_megabyte : ∃ m₀,
    initAlloc 0x100000 0x100000 (fun _ => 0) = .done retSuccess m₀ ∧
    ∀ log s, Sessions megabyte 131073 m₀ log s →
      (∃ free used, WellFormed megabyte s.mem free used) ∧
        ∀ c, Clients.Allowed c s → ∃ o t, Clients.step 131073 0x100000 c s = .done o t :=
  heap_wellFormed megabyte (fun _ => 0) (by decide)

/-- What `alloc` promises of a pointer: aligned, inside the region, clear of the data of
every other block and of every header that there is afterwards. -/
structure Fresh {R : Region} (s : Clients) (h' : Heap R) (size p : UInt32) : Prop where
  aligned : Mem.Aligned p
  lower : R.lo ≤ p.toNat
  upper : p.toNat + size.toNat ≤ R.hi
  data : ∀ b, b ∈ s.live → ∀ x, b.Has x → x.toNat < p.toNat ∨ p.toNat + size.toNat ≤ x.toNat
  headers : ∀ b, b ∈ h'.free ++ h'.used →
    b.addr.toNat + 8 ≤ p.toNat ∨ p.toNat + size.toNat ≤ b.addr.toNat

/-- No byte of a client's data is different. -/
def Untouched (s t : Clients) : Prop := ∀ b, b ∈ s.live → ∀ x, b.Has x → t.mem x = s.mem x

namespace Tracks
variable {R : Region} {s : Clients} {h : Heap R} (tracks : Tracks s h)
include tracks

theorem fresh {size p : UInt32} (small : (size.toNat + 3) / 4 * 4 + 8 < 4294967296)
    (reply : (h.serve (.alloc size)).1 = .pointer p) (found : p ≠ 0) :
    Fresh s (h.serve (.alloc size)).2 size p := by
  simp only [Heap.serve, dif_pos small] at reply ⊢
  cases result : h.alloc (Request.of size small) with
  | none =>
    rw [result] at reply
    exact absurd (Reply.pointer.inj reply).symm found
  | some outcome =>
    obtain ⟨b, h'⟩ := outcome
    rw [result] at reply
    have pointer : b.addr + 8 = p := Reply.pointer.inj reply
    obtain ⟨used, len, valid⟩ := h.alloc_some result
    have member : b ∈ h'.free ++ h'.used := by simp [used]
    have bounds := h'.layout.addr_bounds member
    have past := h'.layout.1.upper b member
    have place : p.toNat = b.addr.toNat + 8 := by
      have nonzero : p.toNat ≠ 0 := fun zero => found (UInt32.toNat_inj.mp zero)
      rw [← pointer, UInt32.toNat_add] at nonzero ⊢
      simp at nonzero ⊢
      omega
    have rounded : b.len.toNat = (size.toNat + 3) / 4 * 4 := by
      rw [len]
      exact roundUp_toNat small
    have room : b.addr.toNat + 8 + size.toNat ≤ b.past := by
      unfold Slot.past
      omega
    refine { aligned := ?_, lower := ?_, upper := ?_, data := ?_, headers := ?_ }
    · rw [← pointer]
      exact (h'.layout.2 b member).add (by decide)
    · have lower := h'.layout.1.lower b member
      unfold Slot.first at lower
      omega
    · omega
    · intro c live x data
      have other : c ∈ h'.used := by
        rw [used, tracks.live]
        exact List.mem_cons_of_mem b live
      have once := (List.nodup_append.mp h'.layout.1.nodup).2.1
      have differ : c ≠ b := by
        rintro rfl
        rw [used, tracks.live] at once
        exact (List.nodup_cons.mp once).1 live
      have apart := h'.layout.1.apart_of_ne (List.mem_append_right _ other) member differ
      unfold Slot.first at apart
      unfold Slot.Has at data
      omega
    · intro c listed
      by_cases same : c = b
      · subst same
        omega
      · have apart := h'.layout.1.apart_of_ne listed member same
        have width : c.addr.toNat + 8 ≤ c.past := by
          unfold Slot.past
          omega
        unfold Slot.first at apart
        omega

end Tracks

/-- The calls act on the bytes as they do on the heap of two lists: pointers are fresh, and
the data of the clients is left alone. -/
theorem heap_refines (R : Region) (m : Mem) {fuel : Nat} (enough : R.length.toNat / 8 < fuel) :
    ∃ m₀, initAlloc R.base R.length m = .done retSuccess m₀ ∧ ∀ log s, Sessions R fuel m₀ log s →
      ∃ h : Heap R, Runs Heap.step (fun _ _ => True) (Heap.init R) log h ∧ Tracks s h ∧
        (∀ size, Clients.Allowed (.alloc size) s → ∃ t,
          Clients.step fuel R.base (.alloc size) s = .done (h.serve (.alloc size)).1 t ∧
            Tracks t (h.serve (.alloc size)).2 ∧ Untouched s t ∧
            ∀ p, (h.serve (.alloc size)).1 = .pointer p → p ≠ 0 →
              Fresh s (h.serve (.alloc size)).2 size p) ∧
        ∀ pointer, ∃ t,
          Clients.step fuel R.base (.free pointer) s = .done (h.serve (.free pointer)).1 t ∧
            Tracks t (h.serve (.free pointer)).2 ∧ Untouched s t := by
  obtain ⟨m₀, run, init⟩ := initAlloc_done R m
  refine ⟨m₀, run, fun log s sessions => ?_⟩
  obtain ⟨h, runs, tracks⟩ := sessions.tracks enough init
  refine ⟨h, runs, tracks, fun size small => ?_, tracks.free enough⟩
  obtain ⟨t, next, tracks', kept⟩ := tracks.alloc enough small
  exact ⟨t, next, tracks', kept, fun p reply found => tracks.fresh small reply found⟩

theorem heap_refines_megabyte : ∃ m₀,
    initAlloc 0x100000 0x100000 (fun _ => 0) = .done retSuccess m₀ ∧
    ∀ log s, Sessions megabyte 131073 m₀ log s →
      ∃ h : Heap megabyte, Runs Heap.step (fun _ _ => True) (Heap.init megabyte) log h ∧ Tracks s h ∧
        (∀ size, Clients.Allowed (.alloc size) s → ∃ t,
          Clients.step 131073 0x100000 (.alloc size) s = .done (h.serve (.alloc size)).1 t ∧
            Tracks t (h.serve (.alloc size)).2 ∧ Untouched s t ∧
            ∀ p, (h.serve (.alloc size)).1 = .pointer p → p ≠ 0 →
              Fresh s (h.serve (.alloc size)).2 size p) ∧
        ∀ pointer, ∃ t,
          Clients.step 131073 0x100000 (.free pointer) s = .done (h.serve (.free pointer)).1 t ∧
            Tracks t (h.serve (.free pointer)).2 ∧ Untouched s t :=
  heap_refines megabyte (fun _ => 0) (by decide)

end Sos.Kernel
