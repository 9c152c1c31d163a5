import Sos.Lib.Runs
import Sos.Kernel.HeapAlloc
import Sos.Kernel.HeapFree

/-! The allocator and its clients, over any sequence of calls. -/

namespace Sos.Kernel
open Sos.Lib

/-- What a client does: one of the two calls, or a store to a block it was given. -/
inductive Call where
  | alloc (size : UInt32)
  | free (pointer : UInt32)
  | write (a : UInt32) (v : UInt8)

inductive Reply where
  | pointer (p : UInt32)
  | status (r : Int)
  | written

/-- The memory, and the blocks that were given out and not freed since. -/
structure Clients where
  mem : Mem
  live : List Slot

namespace Clients

def onMem {α : Type} (x : Prog Mem α) : Prog Clients α := Prog.zoom Clients.mem (fun s m => { s with mem := m }) x

def given (p size : UInt32) (s : Clients) : Clients :=
  if p = 0 then s else { s with live := ⟨p - 8, roundUp size⟩ :: s.live }

def returned (pointer : UInt32) (r : Int) (s : Clients) : Clients :=
  if r = retSuccess then { s with live := s.live.eraseP fun b => b.addr = pointer - 8 } else s

def step (fuel : Nat) (base : UInt32) : Call → Prog Clients Reply
  | .alloc size => do
    let p ← onMem (Kernel.alloc fuel base size)
    Prog.modify (given p size)
    return .pointer p
  | .free pointer => do
    let r ← onMem (Kernel.free fuel base pointer)
    Prog.modify (returned pointer r)
    return .status r
  | .write a v => do
    onMem (Prog.modify fun m => fun x => if x = a then v else m x)
    return .written

/-- The size and its header do not wrap; a client stores to its own data only. -/
def Allowed : Call → Clients → Prop
  | .alloc size, _ => (size.toNat + 3) / 4 * 4 + 8 < 4294967296
  | .free _, _ => True
  | .write a _, s => ∃ b, b ∈ s.live ∧ b.Has a

end Clients

/-- The call on the heap of two lists. -/
def Heap.serve {R : Region} (h : Heap R) : Call → Reply × Heap R
  | .alloc size =>
    if small : (size.toNat + 3) / 4 * 4 + 8 < 4294967296 then
      match h.alloc (Request.of size small) with
      | none => (.pointer 0, h)
      | some (s, h') => (.pointer (s.addr + 8), h')
    else (.pointer 0, h)
  | .free pointer =>
    match h.release (pointer - 8) with
    | none => (.status retFailure, h)
    | some h' => (.status retSuccess, h')
  | .write _ _ => (.written, h)

/-- The heap of two lists is in the memory, and what is used is what the clients have. -/
structure Tracks {R : Region} (s : Clients) (h : Heap R) : Prop where
  live : h.used = s.live
  rep : Rep R s.mem h.free h.used

theorem Layout.length_le {R : Region} {l : List Slot} (layout : Layout R l) :
    l.length ≤ R.length.toNat / 8 := by
  have count := layout.1.length_le (w := 8) (by decide) (by
    intro s member
    unfold Slot.past Slot.first
    omega)
  unfold Region.lo Region.hi at count
  omega

theorem Layout.among_left {R : Region} {free used : List Slot} (layout : Layout R (free ++ used)) :
    free.length ≤ R.length.toNat / 8 := by
  have count := layout.length_le
  rw [List.length_append] at count
  omega

theorem Heap.alloc_some {R : Region} (h : Heap R) {q : Request} {s : Slot} {h' : Heap R}
    (result : h.alloc q = some (s, h')) :
    h'.used = s :: h.used ∧ s.len = q.size ∧ s.addr + 8 ≠ 0 := by
  obtain ⟨pre, p, post, split, fits, rfl, -, used⟩ := h.of_alloc_some result
  refine ⟨used, rfl, fun zero => ?_⟩
  have past := h.layout.past_le (s := p) (by simp [split])
  have large := (q.fits_iff p).mp fits
  have value := congrArg UInt32.toNat zero
  rw [UInt32.toNat_add] at value
  unfold Slot.past at past
  simp [Slot.part] at value
  omega

theorem Heap.release_some {R : Region} (h : Heap R) {f : UInt32} {h' : Heap R}
    (result : h.release f = some h') : h'.used = h.used.eraseP fun s => s.addr = f := by
  rcases h.release_cases f with ⟨none, -⟩ | ⟨pre, s, post, h'', split, before, same, some, -, used⟩
  · rw [none] at result
    cases result
  · rw [some, Option.some.injEq] at result
    subst result
    rw [used, split, List.eraseP_append_right _ (by simpa using before),
      List.eraseP_cons_of_pos (by simpa using same)]

theorem pointer_sub (a : UInt32) : a + 8 - 8 = a := UInt32.add_sub_cancel a 8

namespace Tracks
variable {R : Region} {s : Clients} {h : Heap R} (tracks : Tracks s h)
include tracks

/-- The blocks of the clients are slots of the layout. -/
theorem slot {b : Slot} (member : b ∈ s.live) : b ∈ h.free ++ h.used :=
  List.mem_append_right _ (tracks.live ▸ member)

theorem alloc {fuel : Nat} (enough : R.length.toNat / 8 < fuel) {size : UInt32}
    (small : (size.toNat + 3) / 4 * 4 + 8 < 4294967296) : ∃ t,
    Clients.step fuel R.base (.alloc size) s = .done (h.serve (.alloc size)).1 t ∧
      Tracks t (h.serve (.alloc size)).2 ∧
      ∀ b, b ∈ s.live → ∀ x, b.Has x → t.mem x = s.mem x := by
  have steps : h.free.length < fuel := by
    have count := h.layout.among_left
    omega
  rcases alloc_done h tracks.rep steps size small with ⟨none, run⟩ |
    ⟨p, h', m', result, run, rep, touches⟩
  · have served : h.serve (.alloc size) = (.pointer 0, h) := by
      simp only [Heap.serve, dif_pos small, none]
    have first : Clients.onMem (Kernel.alloc fuel R.base size) s = .done 0 s := Prog.zoom_done run
    rw [served]
    refine ⟨s, ?_, tracks, fun _ _ _ _ => rfl⟩
    rw [Clients.step, Prog.bind_done _ first]
    rfl
  · have served : h.serve (.alloc size) = (.pointer (p.addr + 8), h') := by
      simp only [Heap.serve, dif_pos small, result]
    obtain ⟨used, len, valid⟩ := h.alloc_some result
    have first : Clients.onMem (Kernel.alloc fuel R.base size) s =
        .done (p.addr + 8) { s with mem := m' } := Prog.zoom_done run
    have block : (⟨p.addr + 8 - 8, roundUp size⟩ : Slot) = p := by
      rw [pointer_sub]
      exact congrArg (Slot.mk p.addr) len.symm
    rw [served]
    refine ⟨⟨m', p :: s.live⟩, ?_, ⟨by rw [used, tracks.live], rep⟩, ?_⟩
    · rw [Clients.step, Prog.bind_done _ first]
      simp only [Prog.modify_bind_run, Prog.pure_run, Clients.given, if_neg valid, block]
    · intro b member x data
      refine touches.data h'.layout (List.mem_append_right _ ?_) data
      rw [used, tracks.live]
      exact List.mem_cons_of_mem p member

theorem free {fuel : Nat} (enough : R.length.toNat / 8 < fuel) (pointer : UInt32) : ∃ t,
    Clients.step fuel R.base (.free pointer) s = .done (h.serve (.free pointer)).1 t ∧
      Tracks t (h.serve (.free pointer)).2 ∧
      ∀ b, b ∈ s.live → ∀ x, b.Has x → t.mem x = s.mem x := by
  have steps : (h.free ++ h.used).length < fuel := by
    have count := h.layout.length_le
    omega
  rcases free_done h tracks.rep steps pointer with ⟨none, run⟩ |
    ⟨h', m', result, run, rep, touches⟩
  · have served : h.serve (.free pointer) = (.status retFailure, h) := by
      simp only [Heap.serve, none]
    have first : Clients.onMem (Kernel.free fuel R.base pointer) s = .done retFailure s :=
      Prog.zoom_done run
    rw [served]
    refine ⟨s, ?_, tracks, fun _ _ _ _ => rfl⟩
    rw [Clients.step, Prog.bind_done _ first]
    rfl
  · have served : h.serve (.free pointer) = (.status retSuccess, h') := by
      simp only [Heap.serve, result]
    have first : Clients.onMem (Kernel.free fuel R.base pointer) s =
        .done retSuccess { s with mem := m' } := Prog.zoom_done run
    rw [served]
    refine ⟨⟨m', s.live.eraseP fun b => b.addr = pointer - 8⟩, ?_, ⟨?_, rep⟩, ?_⟩
    · rw [Clients.step, Prog.bind_done _ first]
      rfl
    · rw [h.release_some result, tracks.live]
    · intro b member x data
      exact touches.data h.layout (tracks.slot member) data

theorem write {fuel : Nat} {a : UInt32} {v : UInt8} (own : ∃ b, b ∈ s.live ∧ b.Has a) : ∃ t,
    Clients.step fuel R.base (.write a v) s = .done .written t ∧ Tracks t h := by
  obtain ⟨b, member, data⟩ := own
  refine ⟨⟨fun x => if x = a then v else s.mem x, s.live⟩, rfl, tracks.live, ?_⟩
  refine tracks.rep.congr h.layout ?_
  intro x lower header
  obtain ⟨heads, headers⟩ := h.layout.data_clear (tracks.slot member) data
  refine if_neg ?_
  rintro rfl
  rcases header with head | ⟨t, inside, above, below⟩
  · omega
  · have outside := headers t inside
    omega

/-- Every allowed call returns, and does to the heap of two lists what it says. -/
theorem step {fuel : Nat} (enough : R.length.toNat / 8 < fuel) {c : Call}
    (allowed : Clients.Allowed c s) : ∃ t,
    Clients.step fuel R.base c s = .done (h.serve c).1 t ∧ Tracks t (h.serve c).2 := by
  cases c with
  | alloc size =>
    obtain ⟨t, run, next, -⟩ := tracks.alloc enough allowed
    exact ⟨t, run, next⟩
  | free pointer =>
    obtain ⟨t, run, next, -⟩ := tracks.free enough pointer
    exact ⟨t, run, next⟩
  | write a v => exact tracks.write allowed

end Tracks

end Sos.Kernel
