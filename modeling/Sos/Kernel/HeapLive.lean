import Sos.Kernel.HeapInvariant

/-! `free` takes what was given and not freed since, and nothing else. -/

namespace Sos.Kernel
open Sos.Lib

/-- The pointers that are live after some calls, by the calls and their answers alone. -/
def livePointers : List (Call × Reply) → List UInt32
  | [] => []
  | (.alloc _, .pointer p) :: log => if p = 0 then livePointers log else p :: livePointers log
  | (.free pointer, _) :: log => (livePointers log).erase pointer
  | _ :: log => livePointers log

/-- The block behind the pointer leaves the used list, which stays as it is otherwise. -/
structure LeavesUsed (R : Region) (pointer : UInt32) (used : List UInt32) (m m' : Mem) : Prop where
  before : Chain m.load 0 (usedList R.base) used
  once : used.Nodup
  own : pointer - 8 ∈ used
  after : Chain m'.load 0 (usedList R.base) (used.erase (pointer - 8))
  lens : ∀ a, a ∈ used.erase (pointer - 8) → slotLen m' a = slotLen m a

theorem pointer_eq_iff (a pointer : UInt32) : a = pointer - 8 ↔ a + 8 = pointer :=
  ⟨fun same => by rw [same, UInt32.sub_add_cancel], fun same => by rw [← same, pointer_sub]⟩

/-- The block found by an address is the one whose address leaves. -/
theorem eraseP_addrs (f : UInt32) (used : List Slot) :
    (used.eraseP fun b => b.addr = f).map Slot.addr = (used.map Slot.addr).erase f := by
  rw [List.erase_eq_eraseP', List.eraseP_map]
  refine congrArg _ (congrFun (congrArg _ ?_) used)
  funext b
  exact (beq_eq_decide b.addr f).symm

/-- The same by the pointers. -/
theorem eraseP_pointers (pointer : UInt32) (live : List Slot) :
    (live.eraseP fun b => b.addr = pointer - 8).map (fun b => b.addr + 8) =
      (live.map fun b => b.addr + 8).erase pointer := by
  rw [List.erase_eq_eraseP', List.eraseP_map]
  refine congrArg _ (congrFun (congrArg _ ?_) live)
  funext b
  simp only [Function.comp, pointer_eq_iff]
  rfl

/-- No block is at an address that is not found. -/
theorem Heap.release_none {R : Region} (h : Heap R) {f : UInt32} (result : h.release f = none) :
    ∀ b, b ∈ h.used → b.addr ≠ f := by
  rcases h.release_cases f with ⟨-, none⟩ | ⟨pre, s, post, h'', -, -, -, some, -⟩
  · exact none
  · rw [some] at result
    cases result

theorem Heap.release_found {R : Region} (h : Heap R) {f : UInt32} {h' : Heap R}
    (result : h.release f = some h') : ∃ b, b ∈ h.used ∧ b.addr = f := by
  rcases h.release_cases f with ⟨none, -⟩ | ⟨pre, s, post, h'', split, -, same, -⟩
  · rw [none] at result
    cases result
  · exact ⟨s, by simp [split], same⟩

namespace Tracks
variable {R : Region} {s : Clients} {h : Heap R} (tracks : Tracks s h) {fuel : Nat}
  (enough : R.length.toNat / 8 < fuel)
include tracks

/-- A pointer is live when a used block is there. -/
theorem live_iff (pointer : UInt32) :
    pointer ∈ s.live.map (fun b => b.addr + 8) ↔ ∃ b, b ∈ h.used ∧ b.addr = pointer - 8 := by
  rw [List.mem_map, tracks.live]
  exact exists_congr fun b => and_congr_right fun _ => (pointer_eq_iff b.addr pointer).symm

theorem addrs : (s.live.map fun b => b.addr + 8).map (· - 8) = h.used.map Slot.addr := by
  rw [List.map_map, tracks.live]
  exact List.map_congr_left fun b _ => pointer_sub b.addr

theorem live_once : (s.live.map fun b => b.addr + 8).Nodup := by
  have once := tracks.wellFormed.usedOnce
  rw [tracks.live] at once
  have shifted := once.map (f := (· + 8)) fun a b same => (UInt32.add_left_inj 8).mp same
  rwa [List.map_map] at shifted

include enough in
/-- The calls a client sees keep its pointers those of the blocks it has. -/
theorem livePointers_step {log : List (Call × Reply)} {c : Call} {o : Reply} {t : Clients}
    (before : livePointers log = s.live.map fun b => b.addr + 8) (allowed : Clients.Allowed c s)
    (run : Clients.step fuel R.base c s = .done o t) :
    livePointers ((c, o) :: log) = t.live.map fun b => b.addr + 8 := by
  obtain ⟨t', run', next⟩ := tracks.step enough allowed
  rw [run', Outcome.done.injEq] at run
  obtain ⟨rfl, rfl⟩ := run
  cases c with
  | alloc size =>
    have small : (size.toNat + 3) / 4 * 4 + 8 < 4294967296 := allowed
    rw [← next.live]
    simp only [Heap.serve, dif_pos small]
    cases result : h.alloc (Request.of size small) with
    | none => simp only [livePointers, if_pos, before, tracks.live]
    | some outcome =>
      obtain ⟨b, h'⟩ := outcome
      obtain ⟨used, -, valid⟩ := h.alloc_some result
      simp only [livePointers, if_neg valid, before, used, List.map_cons, tracks.live]
  | free pointer =>
    rw [← next.live]
    simp only [Heap.serve]
    cases result : h.release (pointer - 8) with
    | none =>
      have absent : pointer ∉ s.live.map fun b => b.addr + 8 := by
        rw [tracks.live_iff]
        rintro ⟨b, used, same⟩
        exact h.release_none result b used same
      simp only [livePointers, before, List.erase_of_not_mem absent, tracks.live]
    | some h' =>
      simp only [livePointers, before, h.release_some result, eraseP_pointers, tracks.live]
  | write a v =>
    rw [← next.live]
    simp only [Heap.serve, livePointers, before, tracks.live]

include enough in
/-- A live pointer is taken, and its block alone leaves the used list. -/
theorem free_live {pointer : UInt32} (live : pointer ∈ s.live.map fun b => b.addr + 8) : ∃ m',
    Kernel.free fuel R.base pointer s.mem = .done retSuccess m' ∧
      LeavesUsed R pointer (h.used.map Slot.addr) s.mem m' := by
  obtain ⟨b, used, same⟩ := (tracks.live_iff pointer).mp live
  have steps : (h.free ++ h.used).length < fuel := by
    have count := h.layout.length_le
    omega
  rcases free_done h tracks.rep steps pointer with ⟨none, -⟩ | ⟨h', m', result, run, rep, -⟩
  · exact absurd same (h.release_none none b used)
  · have addrs : h'.used.map Slot.addr = (h.used.map Slot.addr).erase (pointer - 8) := by
      rw [h.release_some result, eraseP_addrs]
    refine ⟨m', run, tracks.rep.usedChain, tracks.wellFormed.usedOnce, ?_, addrs ▸ rep.usedChain, ?_⟩
    · rw [← same]
      exact List.mem_map_of_mem used
    · intro a left
      rw [← addrs] at left
      obtain ⟨c, other, rfl⟩ := List.mem_map.mp left
      have listed : c ∈ h.used := by
        rw [h.release_some result] at other
        exact List.mem_of_mem_eraseP other
      rw [rep.lens c (List.mem_append_right _ other), tracks.rep.lens c (List.mem_append_right _ listed)]

include enough in
/-- Any other pointer is refused. -/
theorem free_dead {pointer : UInt32} (dead : pointer ∉ s.live.map fun b => b.addr + 8) :
    Kernel.free fuel R.base pointer s.mem = .done retFailure s.mem := by
  have steps : (h.free ++ h.used).length < fuel := by
    have count := h.layout.length_le
    omega
  rcases free_done h tracks.rep steps pointer with ⟨-, run⟩ | ⟨h', m', result, -⟩
  · exact run
  · exact absurd ((tracks.live_iff pointer).mpr (h.release_found result)) dead

end Tracks

/-- The call is no `alloc`. -/
def Call.Gives : Call → Prop
  | .alloc _ => True
  | _ => False

/-- Without an `alloc` no pointer becomes live. -/
theorem livePointers_later {later log : List (Call × Reply)} (none : ∀ e, e ∈ later → ¬e.1.Gives)
    {pointer : UInt32} (dead : pointer ∉ livePointers log) : pointer ∉ livePointers (later ++ log) := by
  induction later with
  | nil => exact dead
  | cons e later ih =>
    have rest : pointer ∉ livePointers (later ++ log) :=
      ih fun e' member => none e' (List.mem_cons_of_mem e member)
    obtain ⟨c, o⟩ := e
    cases c with
    | alloc size => exact absurd trivial (none _ List.mem_cons_self)
    | free other => exact fun member => rest (List.mem_of_mem_erase member)
    | write a v => exact rest

namespace Sessions
variable {R : Region} {fuel : Nat} {m : Mem} {log : List (Call × Reply)} {s : Clients}
  (sessions : Sessions R fuel m log s) (enough : R.length.toNat / 8 < fuel)
  (init : Rep R m (Heap.init R).free (Heap.init R).used)
include sessions enough init

/-- The live pointers are those of the blocks the clients have, each of them once. -/
theorem livePointers : (∃ h : Heap R, Tracks s h) ∧
    Kernel.livePointers log = s.live.map fun b => b.addr + 8 := by
  refine sessions.invariant (fun log s => (∃ h : Heap R, Tracks s h) ∧
    Kernel.livePointers log = s.live.map fun b => b.addr + 8) ⟨⟨Heap.init R, rfl, init⟩, rfl⟩ ?_
  rintro log s c o t ⟨⟨h, tracks⟩, before⟩ allowed run
  refine ⟨?_, tracks.livePointers_step enough before allowed run⟩
  obtain ⟨t', run', next⟩ := tracks.step enough allowed
  rw [run', Outcome.done.injEq] at run
  obtain ⟨-, rfl⟩ := run
  exact ⟨_, next⟩

theorem livePointers_once : (Kernel.livePointers log).Nodup := by
  obtain ⟨⟨h, tracks⟩, live⟩ := sessions.livePointers enough init
  rw [live]
  exact tracks.live_once

end Sessions

/-- After any calls `free` succeeds if and only if the pointer is live, and takes the block
behind it off the used list; with any other pointer nothing is changed. A pointer that was freed
is refused until an `alloc` gives it again. -/
theorem free_live_iff (R : Region) (m : Mem) {fuel : Nat} (enough : R.length.toNat / 8 < fuel) :
    ∃ m₀, initAlloc R.base R.length m = .done retSuccess m₀ ∧ ∀ log s, Sessions R fuel m₀ log s →
      ∀ pointer,
        ((∃ m', free fuel R.base pointer s.mem = .done retSuccess m') ↔ pointer ∈ livePointers log) ∧
        (pointer ∈ livePointers log → ∃ m', free fuel R.base pointer s.mem = .done retSuccess m' ∧
          LeavesUsed R pointer ((livePointers log).map (· - 8)) s.mem m') ∧
        (pointer ∉ livePointers log → free fuel R.base pointer s.mem = .done retFailure s.mem) ∧
        ∀ later earlier o, log = later ++ (.free pointer, o) :: earlier →
          (∀ e, e ∈ later → ¬e.1.Gives) → free fuel R.base pointer s.mem = .done retFailure s.mem := by
  obtain ⟨m₀, run, init⟩ := initAlloc_done R m
  refine ⟨m₀, run, fun log s sessions pointer => ?_⟩
  obtain ⟨⟨h, tracks⟩, live⟩ := sessions.livePointers enough init
  have taken : pointer ∈ livePointers log → ∃ m',
      free fuel R.base pointer s.mem = .done retSuccess m' ∧
        LeavesUsed R pointer ((livePointers log).map (· - 8)) s.mem m' := by
    rw [live, tracks.addrs]
    exact tracks.free_live enough
  have refused : pointer ∉ livePointers log →
      free fuel R.base pointer s.mem = .done retFailure s.mem := by
    rw [live]
    exact tracks.free_dead enough
  refine ⟨⟨?_, ?_⟩, ?_, refused, ?_⟩
  · rintro ⟨m', success⟩
    by_contra dead
    rw [refused dead, Outcome.done.injEq] at success
    exact absurd success.1 (by decide)
  · intro member
    obtain ⟨m', success, -⟩ := taken member
    exact ⟨m', success⟩
  · intro member
    obtain ⟨m', success, leaves⟩ := taken member
    exact ⟨m', success, leaves⟩
  · rintro later earlier o rfl none
    refine refused (livePointers_later none ?_)
    obtain ⟨t, first⟩ := Runs.prior sessions
    cases first with
    | call before _ _ => exact (Sessions.livePointers_once before enough init).not_mem_erase

theorem free_live_iff_megabyte : ∃ m₀, initAlloc 0x100000 0x100000 (fun _ => 0) = .done retSuccess m₀ ∧
    ∀ log s, Sessions megabyte 131073 m₀ log s → ∀ pointer,
      ((∃ m', free 131073 0x100000 pointer s.mem = .done retSuccess m') ↔ pointer ∈ livePointers log) ∧
      (pointer ∈ livePointers log → ∃ m', free 131073 0x100000 pointer s.mem = .done retSuccess m' ∧
        LeavesUsed megabyte pointer ((livePointers log).map (· - 8)) s.mem m') ∧
      (pointer ∉ livePointers log → free 131073 0x100000 pointer s.mem = .done retFailure s.mem) ∧
      ∀ later earlier o, log = later ++ (.free pointer, o) :: earlier →
        (∀ e, e ∈ later → ¬e.1.Gives) → free 131073 0x100000 pointer s.mem = .done retFailure s.mem :=
  free_live_iff megabyte (fun _ => 0) (by decide)

end Sos.Kernel
