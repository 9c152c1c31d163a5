import Sos.Lib.Gaps
import Sos.Kernel.HeapInvariant

/-! The free blocks depend on the live ones only: no two of them are adjacent. -/

namespace Sos.Kernel
open Sos.Lib

theorem Slot.join_past {s t : Slot} (bound : t.past ≤ 4294967296) (next : s.past = t.first) :
    (s.join t).past = t.past := by
  unfold Slot.past Slot.first at *
  simp only [Slot.join, UInt32.toNat_add]
  simp
  omega

/-- Addresses decide a slot. -/
theorem Slot.eq_of_span {s t : Slot} (first : s.first = t.first) (past : s.past = t.past) : s = t := by
  unfold Slot.past Slot.first at *
  cases s
  cases t
  simp only [Slot.mk.injEq, ← UInt32.toNat_inj] at *
  omega

/-- What is put back reaches to the free neighbours, where there are any, and takes
their place. -/
theorem Heap.putBack_cases {R : Region} {free rest : List Slot} {s : Slot}
    (layout : Layout R (free ++ s :: rest)) : ∃ p others,
    (putBack free s).Perm (p :: others) ∧ (∀ q, q ∈ others → q ∈ free) ∧
      ((p.first = s.first ∧ ∀ q, q ∈ free → q.past ≠ s.first) ∨
        ∃ b, b ∈ free ∧ p.first = b.first) ∧
      ((p.past = s.past ∧ ∀ q, q ∈ free → s.past ≠ q.first) ∨
        ∃ a, a ∈ free ∧ p.past = a.past) := by
  have once : free.Nodup := (List.nodup_append.mp layout.1.nodup).1
  have boundS := layout.past_le (s := s) (by simp)
  unfold putBack
  cases findB : Heap.before free s with
  | none =>
    have noneB := Heap.before_none findB
    cases findA : Heap.after free s with
    | none =>
      have noneA := Heap.after_none findA
      exact ⟨s, free, List.Perm.refl _, fun _ member => member, Or.inl ⟨rfl, noneB⟩,
        Or.inl ⟨rfl, noneA⟩⟩
    | some a =>
      obtain ⟨memberA, nextA⟩ := Heap.of_after findA
      have boundA := layout.past_le (s := a) (by simp [memberA])
      exact ⟨s.join a, free.erase a, List.Perm.refl _, fun _ => List.mem_of_mem_erase,
        Or.inl ⟨rfl, noneB⟩, Or.inr ⟨a, memberA, Slot.join_past boundA nextA⟩⟩
  | some b =>
    obtain ⟨memberB, nextB⟩ := Heap.of_before findB
    have joined := Slot.join_past boundS nextB
    cases findA : Heap.after free s with
    | none =>
      have noneA := Heap.after_none findA
      exact ⟨b.join s, free.erase b, replace_perm once memberB, fun _ => List.mem_of_mem_erase,
        Or.inr ⟨b, memberB, rfl⟩, Or.inl ⟨joined, noneA⟩⟩
    | some a =>
      obtain ⟨memberA, nextA⟩ := Heap.of_after findA
      have boundA := layout.past_le (s := a) (by simp [memberA])
      have differ : b ≠ a := by
        rintro rfl
        exact layout.one_side (s := s) (by simp) (by simp [memberB]) nextB nextA
      have kept := (List.mem_erase_of_ne differ).mpr memberB
      exact ⟨(b.join s).join a, (free.erase a).erase b, replace_perm (once.erase a) kept,
        fun _ member => List.mem_of_mem_erase (List.mem_of_mem_erase member),
        Or.inr ⟨b, memberB, rfl⟩, Or.inr ⟨a, memberA, Slot.join_past boundA (joined.trans nextA)⟩⟩

namespace Heap
variable {R : Region}

/-- No two free slots are adjacent. -/
def Coalesced (h : Heap R) : Prop := Separated Slot.first Slot.past h.free

theorem init_coalesced (R : Region) : (init R).Coalesced := by
  apply Separated.single
  exact (init R).layout.1.proper _ (by simp [init])

theorem alloc_coalesced {h h' : Heap R} {q : Request} {s : Slot} (apart : h.Coalesced)
    (result : h.alloc q = some (s, h')) : h'.Coalesced := by
  obtain ⟨pre, p, post, split, fits, -, free, -⟩ := h.of_alloc_some result
  have member : p ∈ h.free := by simp [split]
  have bound := h.layout.past_le (List.mem_append_left h.used member)
  have large := (q.fits_iff p).mp fits
  have addr := Layout.rest_addr q bound large
  have len := Layout.rest_len q large
  have start : (p.rest q.size).first = p.addr.toNat + 8 + q.size.toNat := addr
  have stop : (p.rest q.size).past = p.past := by
    unfold Slot.past
    omega
  have within : ∀ r, r ∈ pre ++ post → r ∈ h.free := by
    intro r inside
    rw [split]
    rcases List.mem_append.mp inside with before | behind
    · exact List.mem_append_left _ before
    · exact List.mem_append_right _ (List.mem_cons_of_mem p behind)
  have once := (List.nodup_append.mp h.layout.1.nodup).1
  rw [split] at once
  have outside : p ∉ pre ++ post := (List.nodup_cons.mp (List.perm_middle.nodup_iff.mp once)).1
  rw [Coalesced, free]
  refine (apart.subset within).cons ?_ ?_ ?_
  · rw [start, stop]
    unfold Slot.past
    omega
  · intro r inside
    have differ : r ≠ p := by
      rintro rfl
      exact outside inside
    have beside := h.layout.1.apart_of_ne (List.mem_append_left h.used (within r inside))
      (List.mem_append_left h.used member) differ
    have proper := h.layout.1.proper r (List.mem_append_left h.used (within r inside))
    rw [start]
    unfold Slot.past Slot.first at *
    omega
  · intro r inside
    rw [stop]
    exact apart p member r (within r inside)

theorem release_coalesced {h h' : Heap R} {f : UInt32} (apart : h.Coalesced)
    (result : h.release f = some h') : h'.Coalesced := by
  rcases h.release_cases f with ⟨none, -⟩ | ⟨pre, s, post, h'', split, -, -, some, free, used⟩
  · rw [none] at result
    cases result
  · rw [some, Option.some.injEq] at result
    subst result
    have layout : Layout R (h.free ++ s :: (pre ++ post)) := by
      refine h.layout.perm ?_
      rw [split]
      exact List.perm_middle.append_left h.free
    obtain ⟨p, others, order, within, start, stop⟩ := putBack_cases layout
    have piece : p ∈ h''.free ++ h''.used := by
      rw [free]
      exact List.mem_append_left _ (order.mem_iff.mpr List.mem_cons_self)
    have joined : Separated Slot.first Slot.past (p :: others) := by
      refine (apart.subset within).cons (h''.layout.1.proper p piece) ?_ ?_
      · intro q other
        rcases start with ⟨same, none⟩ | ⟨b, member, same⟩
        · rw [same]
          exact none q (within q other)
        · rw [same]
          exact apart q (within q other) b member
      · intro q other
        rcases stop with ⟨same, none⟩ | ⟨a, member, same⟩
        · rw [same]
          exact none q (within q other)
        · rw [same]
          exact apart a member q (within q other)
    rw [Coalesced, free]
    exact joined.subset fun q member => order.mem_iff.mp member

/-- Every call keeps free slots from being adjacent. -/
theorem serve_coalesced {h : Heap R} (apart : h.Coalesced) (c : Call) : (h.serve c).2.Coalesced := by
  cases c with
  | alloc size =>
    by_cases small : (size.toNat + 3) / 4 * 4 + 8 < 4294967296
    · cases result : h.alloc (Request.of size small) with
      | none => simpa only [serve, dif_pos small, result] using apart
      | some outcome =>
        simpa only [serve, dif_pos small, result] using alloc_coalesced apart result
    · simpa only [serve, dif_neg small] using apart
  | free pointer =>
    cases result : h.release (pointer - 8) with
    | none => simpa only [serve, result] using apart
    | some h' => simpa only [serve, result] using release_coalesced apart result
  | write a v => exact apart

theorem runs_coalesced {log : List (Call × Reply)} {h : Heap R}
    (runs : Runs Heap.step (fun _ _ => True) (init R) log h) : h.Coalesced := by
  refine runs.invariant (fun _ h => h.Coalesced) (init_coalesced R) ?_
  intro log h c o h' apart _ run
  rw [Heap.step, Outcome.done.injEq] at run
  rw [← run.2]
  exact serve_coalesced apart c

end Heap

/-- The blocks met on the way down the free list in memory. -/
structure FreeList (R : Region) (m : Mem) (free : List Slot) : Prop where
  chain : Chain m.load 0 R.base (free.map Slot.addr)
  lens : ∀ b, b ∈ free → slotLen m b.addr = b.len

theorem FreeList.unique {R : Region} {m : Mem} {free free' : List Slot} (left : FreeList R m free)
    (right : FreeList R m free') : free = free' := by
  have read : ∀ l : List Slot, (∀ b, b ∈ l → slotLen m b.addr = b.len) →
      (l.map Slot.addr).map (fun a => Slot.mk a (slotLen m a)) = l := by
    intro l lens
    rw [List.map_map]
    conv_rhs => rw [← List.map_id l]
    apply List.map_congr_left
    intro b member
    rw [Function.comp_apply, lens b member, id]
  rw [← read free left.lens, ← read free' right.lens, left.chain.unique right.chain]

/-- The block is all that the live blocks leave between two of them. -/
def Between (R : Region) (live : List Slot) (b : Slot) : Prop :=
  Gap Slot.first Slot.past R.lo R.hi live b.first b.past

theorem Heap.free_iff {R : Region} {h : Heap R} (apart : h.Coalesced) (b : Slot) :
    b ∈ h.free ↔ Between R h.used b := by
  rw [Between, ← h.layout.1.gaps_iff apart]
  constructor
  · intro member
    exact ⟨b, member, rfl, rfl⟩
  · rintro ⟨c, member, first, past⟩
    rwa [← Slot.eq_of_span first past]

theorem Heap.free_of_unused {R : Region} {h : Heap R} (apart : h.Coalesced) (unused : h.used = []) :
    h.free = (Heap.init R).free := by
  have once := (List.nodup_append.mp h.layout.1.nodup).1
  have same : ∀ b, b ∈ h.free ↔ b ∈ (Heap.init R).free := by
    intro b
    rw [Heap.free_iff apart, Heap.free_iff (Heap.init_coalesced R), unused]
    rfl
  have order : h.free.Perm (Heap.init R).free :=
    (List.perm_ext_iff_of_nodup once (List.nodup_singleton _)).mpr same
  exact List.perm_singleton.mp order

namespace Tracks
variable {R : Region} {s : Clients} {h : Heap R} (tracks : Tracks s h)
include tracks

theorem freeList : FreeList R s.mem h.free where
  chain := tracks.rep.freeChain
  lens := fun b member => tracks.rep.lens b (List.mem_append_left h.used member)

/-- What was just given out can be given back, and that leaves the clients what they had. -/
theorem undo {fuel : Nat} (enough : R.length.toNat / 8 < fuel) {size p : UInt32} {t : Clients}
    (small : (size.toNat + 3) / 4 * 4 + 8 < 4294967296) (apart : h.Coalesced)
    (run : Clients.step fuel R.base (.alloc size) s = .done (.pointer p) t) (found : p ≠ 0) :
    ∃ (u : Clients) (h' : Heap R), Clients.step fuel R.base (.free p) t = .done (.status retSuccess) u ∧
      Tracks u h' ∧ h'.Coalesced ∧ h'.used = h.used := by
  obtain ⟨t', run', next, -⟩ := tracks.alloc enough small
  have apart' := Heap.serve_coalesced apart (.alloc size)
  rw [run', Outcome.done.injEq] at run
  obtain ⟨reply, rfl⟩ := run
  cases result : h.alloc (Request.of size small) with
  | none =>
    simp only [Heap.serve, dif_pos small, result] at reply
    exact absurd (Reply.pointer.inj reply).symm found
  | some outcome =>
    obtain ⟨b, h'⟩ := outcome
    simp only [Heap.serve, dif_pos small, result] at reply next apart'
    have pointer : b.addr + 8 = p := Reply.pointer.inj reply
    subst pointer
    obtain ⟨used, -, -⟩ := h.alloc_some result
    obtain ⟨u, again, after, -⟩ := next.free enough (b.addr + 8)
    have last := Heap.serve_coalesced apart' (.free (b.addr + 8))
    rcases h'.release_cases (b.addr + 8 - 8) with ⟨-, none⟩ | ⟨-, -, -, h'', -, -, -, some, -, -⟩
    · exact absurd (pointer_sub b.addr).symm (none b (by simp [used]))
    · simp only [Heap.serve, some] at again after last
      refine ⟨u, h'', again, after, last, ?_⟩
      rw [h'.release_some some, used, List.eraseP_cons_of_pos]
      simp

end Tracks

/-- After any calls the free list holds the stretches between live blocks, no two of them
adjacent. So it is decided by the live blocks up to order: allocating and freeing again
leaves it, and with no live block it is the one block there was first. -/
theorem heap_canonical (R : Region) (m : Mem) {fuel : Nat} (enough : R.length.toNat / 8 < fuel) :
    ∃ m₀, initAlloc R.base R.length m = .done retSuccess m₀ ∧
      FreeList R m₀ [⟨R.base + 8, R.length - 8 - 8⟩] ∧
      ∀ log s, Sessions R fuel m₀ log s → ∃ free, FreeList R s.mem free ∧
        (∀ b, b ∈ free ↔ Between R s.live b) ∧
        (∀ b c, b ∈ free → c ∈ free → b.past ≠ c.first) ∧
        (s.live = [] → free = [⟨R.base + 8, R.length - 8 - 8⟩]) ∧
        (∀ log' s' free', Sessions R fuel m₀ log' s' → FreeList R s'.mem free' →
          (∀ b, b ∈ s.live ↔ b ∈ s'.live) → ∀ b, b ∈ free ↔ b ∈ free') ∧
        ∀ size p t, Clients.Allowed (.alloc size) s →
          Clients.step fuel R.base (.alloc size) s = .done (.pointer p) t → p ≠ 0 →
          ∃ u free', Clients.step fuel R.base (.free p) t = .done (.status retSuccess) u ∧
            FreeList R u.mem free' ∧ ∀ b, b ∈ free ↔ b ∈ free' := by
  obtain ⟨m₀, run, init⟩ := initAlloc_done R m
  have start : Tracks ⟨m₀, []⟩ (Heap.init R) := ⟨rfl, init⟩
  refine ⟨m₀, run, start.freeList, fun log s sessions => ?_⟩
  obtain ⟨h, runs, tracks⟩ := sessions.tracks enough init
  have apart := Heap.runs_coalesced runs
  refine ⟨h.free, tracks.freeList, fun b => ?_, fun b c hb hc => apart b hb c hc, ?_, ?_, ?_⟩
  · rw [← tracks.live]
    exact Heap.free_iff apart b
  · intro none
    exact Heap.free_of_unused apart (tracks.live.trans none)
  · intro log' s' free' sessions' list' same b
    obtain ⟨h', runs', tracks'⟩ := sessions'.tracks enough init
    rw [list'.unique tracks'.freeList, Heap.free_iff apart, Heap.free_iff (Heap.runs_coalesced runs'),
      tracks.live, tracks'.live]
    exact ⟨fun gap => gap.congr same, fun gap => gap.congr fun c => (same c).symm⟩
  · intro size p t small alloc found
    obtain ⟨u, h', free, tracks', apart', used⟩ := tracks.undo enough small apart alloc found
    refine ⟨u, h'.free, free, tracks'.freeList, fun b => ?_⟩
    rw [Heap.free_iff apart, Heap.free_iff apart', used]

theorem heap_canonical_megabyte : ∃ m₀,
    initAlloc 0x100000 0x100000 (fun _ => 0) = .done retSuccess m₀ ∧
      FreeList megabyte m₀ [⟨megabyte.base + 8, megabyte.length - 8 - 8⟩] ∧
      ∀ log s, Sessions megabyte 131073 m₀ log s → ∃ free, FreeList megabyte s.mem free ∧
        (∀ b, b ∈ free ↔ Between megabyte s.live b) ∧
        (∀ b c, b ∈ free → c ∈ free → b.past ≠ c.first) ∧
        (s.live = [] → free = [⟨megabyte.base + 8, megabyte.length - 8 - 8⟩]) ∧
        (∀ log' s' free', Sessions megabyte 131073 m₀ log' s' → FreeList megabyte s'.mem free' →
          (∀ b, b ∈ s.live ↔ b ∈ s'.live) → ∀ b, b ∈ free ↔ b ∈ free') ∧
        ∀ size p t, Clients.Allowed (.alloc size) s →
          Clients.step 131073 0x100000 (.alloc size) s = .done (.pointer p) t → p ≠ 0 →
          ∃ u free', Clients.step 131073 0x100000 (.free p) t = .done (.status retSuccess) u ∧
            FreeList megabyte u.mem free' ∧ ∀ b, b ∈ free ↔ b ∈ free' :=
  heap_canonical megabyte (fun _ => 0) (by decide)

end Sos.Kernel
