import Sos.Lib.Runs
import Sos.Lib.Leases
import Sos.Kernel.Places

/-! Calls of `memman_alloc_frame` and `memman_free_frame` in any order. -/

namespace Sos.Kernel
open Sos.Lib Machine

inductive FrameCall where
  | alloc (flags : UInt32)
  | free (f : UInt32)

inductive FrameReply where
  | frame (error : Bool) (address : UInt32)
  | freed (result : Int)

def memmanCall : FrameCall → Prog Machine FrameReply
  | .alloc flags => do
    let (error, address) ← memmanAllocFrame flags
    return .frame error address
  | .free f => do
    return .freed (← memmanFreeFrame goOn f)

/-- What a call and its answer say about frames. -/
def lease : FrameCall × FrameReply → Lease Nat
  | (.alloc _, .frame false address) => .grant (address.toNat / 4096)
  | (.alloc _, _) => .refuse
  | (.free f, _) => .release f.toNat

/-- The frames that were returned and not yet freed. -/
def heldFrames (log : List (FrameCall × FrameReply)) : List Nat := Lease.held (log.map lease)

/-- Only frames that are held are freed. -/
def FreesHeld (log : List (FrameCall × FrameReply)) : FrameCall → Prop
  | .alloc _ => True
  | .free f => f.toNat ∈ heldFrames log

instance (log : List (FrameCall × FrameReply)) : DecidablePred (FreesHeld log)
  | .alloc _ => inferInstanceAs (Decidable True)
  | .free f => inferInstanceAs (Decidable (f.toNat ∈ heldFrames log))

/-- A frame without references. -/
def Unused (s : Machine) (f : Nat) : Prop := f < s.frameCount.toNat ∧ (s.frameMap f).count = 0

def freeAll : List Nat → Prog Machine Unit
  | [] => return ()
  | f :: fs => do
    let _ ← memmanFreeFrame goOn (UInt32.ofNat f)
    freeAll fs

/-- The counts of `t`, reached by these calls from `s`, are those of `s` and the frames held. -/
structure Counted (s : Machine) (log : List (FrameCall × FrameReply)) (t : Machine) : Prop where
  inited : t.memmanInited = s.memmanInited
  frameCount : t.frameCount = s.frameCount
  serves : Lease.Serves (Unused s) (log.map lease)
  counts : ∀ i, (t.frameMap i).count = if i ∈ heldFrames log then 1 else (s.frameMap i).count

/-- What the allocator does in `t`, reached by these calls from `s`. -/
structure Allots (s : Machine) (log : List (FrameCall × FrameReply)) (t : Machine) : Prop where
  answers : ∀ flags, ∃ error a u, memmanAllocFrame flags t = .done (error, a) u ∧
    (error = true ↔ ∀ f, f < s.frameCount.toNat → (t.frameMap f).count ≠ 0) ∧
    (error = false → ∃ f, f < s.frameCount.toNat ∧ a.toNat = 4096 * f ∧ f ∉ heldFrames log ∧
      (t.frameMap f).count = 0 ∧ (s.frameMap f).count = 0)
  once : ∀ f later between before,
    log.map lease = later ++ .grant f :: (between ++ .grant f :: before) → .release f ∈ between
  restores : ∀ fs, fs.Perm (heldFrames log) →
    ∃ u, freeAll fs t = .done () u ∧ ∀ i, (u.frameMap i).count = (s.frameMap i).count

/-- The scan misses no frame. -/
theorem freeList_nil_iff {s : Machine} (inited : s.memmanInited = true) :
    freeList s = [] ↔ ∀ f, f < s.frameCount.toNat → (s.frameMap f).count ≠ 0 := by
  rw [List.eq_nil_iff_forall_not_mem]
  constructor
  · intro none f inside unused
    exact none f (mem_freeList_iff.mpr ⟨inited, inside, unused⟩)
  · intro used f free
    obtain ⟨inside, unused⟩ := mem_freeList free
    exact used f inside unused

theorem freeAll_done {fs : List Nat} {s : Machine} (once : fs.Nodup)
    (held : ∀ f, f ∈ fs → HeldFrame s f) : freeAll fs s = .done () (s.dropped fs) := by
  induction fs generalizing s with
  | nil => rw [dropped_nil]; rfl
  | cons f fs ih =>
    obtain ⟨fresh, once⟩ := List.nodup_cons.mp once
    have rest : ∀ g, g ∈ fs → HeldFrame (s.dropped [f]) g := by
      intro g member
      refine (held g (List.mem_cons_of_mem f member)).dropped ?_
      rw [List.mem_singleton]
      rintro rfl
      exact fresh member
    rw [freeAll, Prog.bind_done _ (memmanFreeFrame_done (held f List.mem_cons_self) goOn), ih once rest,
      dropped_dropped]
    · rfl
    · intro g same member
      rw [List.mem_singleton] at same
      exact fresh (same ▸ member)

namespace Counted
variable {s t : Machine} {log : List (FrameCall × FrameReply)}

theorem start (s : Machine) : Counted s [] s where
  inited := rfl
  frameCount := rfl
  serves := trivial
  counts := fun _ => rfl

section
variable (counted : Counted s log t)
include counted

/-- A free frame is not held, and was free at the start. -/
theorem unused {f : Nat} (free : f ∈ freeList t) :
    Unused s f ∧ f ∉ heldFrames log := by
  obtain ⟨inside, none⟩ := mem_freeList free
  rw [counted.frameCount] at inside
  rw [counted.counts] at none
  split at none
  next => cases none
  next out => exact ⟨⟨inside, none⟩, out⟩

theorem heldFrame {f : Nat} (out : f ∈ heldFrames log) : HeldFrame t f := by
  refine ⟨?_, ?_⟩
  · rw [counted.frameCount]
    exact (Lease.held_usable counted.serves out).1
  · rw [counted.counts, if_pos out]
    decide

theorem refused (inited : s.memmanInited = true) (full : freeList t = []) {x : Nat} (usable : Unused s x) :
    x ∈ heldFrames log := by
  have used := (freeList_nil_iff (counted.inited.trans inited)).mp full x
    (by rw [counted.frameCount]; exact usable.1)
  rw [counted.counts] at used
  by_contra out
  rw [if_neg out] at used
  exact used usable.2

theorem alloc (inited : s.memmanInited = true) (bound : s.frameCount.toNat ≤ 1048576) {flags : UInt32}
    {r : FrameReply} {u : Machine} (run : memmanCall (.alloc flags) t = .done r u) :
    Counted s ((.alloc flags, r) :: log) u := by
  rcases memmanAllocFrame_flags flags t with ⟨full, first⟩ | ⟨f, fs, list, first⟩
  · rw [memmanCall, Prog.bind_done _ first] at run
    change Outcome.done _ _ = _ at run
    rw [Outcome.done.injEq] at run
    obtain ⟨rfl, rfl⟩ := run
    exact ⟨counted.inited, counted.frameCount, ⟨fun _ => counted.refused inited full, counted.serves⟩,
      counted.counts⟩
  · rw [memmanCall, Prog.bind_done _ first] at run
    change Outcome.done _ _ = _ at run
    rw [Outcome.done.injEq] at run
    obtain ⟨rfl, rfl⟩ := run
    obtain ⟨usable, out⟩ := counted.unused (f := f) (by simp [list])
    have small : f < 1048576 := usable.1.trans_le bound
    have index : (frameAddr f).toNat / 4096 = f := by
      rw [frameAddr_toNat small]
      omega
    have event : lease (.alloc flags, .frame false (frameAddr f)) = .grant f := congrArg Lease.grant index
    refine ⟨counted.inited, counted.frameCount, ?_, ?_⟩
    · rw [List.map_cons, event]
      exact ⟨usable, out, counted.serves⟩
    · intro i
      rw [heldFrames, List.map_cons, event, Lease.held]
      by_cases same : i = f
      · simp [Machine.taken, same]
      · have kept := counted.counts i
        rw [heldFrames] at kept
        simp [Machine.taken, same, kept]

theorem free {f : UInt32} (out : f.toNat ∈ heldFrames log) {r : FrameReply} {u : Machine}
    (run : memmanCall (.free f) t = .done r u) : Counted s ((.free f, r) :: log) u := by
  have step := memmanFreeFrame_done (counted.heldFrame out) goOn
  rw [UInt32.ofNat_toNat] at step
  rw [memmanCall, Prog.bind_done _ step, Prog.pure_run, Outcome.done.injEq] at run
  obtain ⟨rfl, rfl⟩ := run
  have fresh : f.toNat ∉ (heldFrames log).erase f.toNat :=
    (Lease.held_nodup counted.serves).not_mem_erase
  refine ⟨counted.inited, counted.frameCount, ⟨out, counted.serves⟩, ?_⟩
  intro i
  have kept := counted.counts i
  change (if i ∈ [f.toNat] then { t.frameMap i with count := (t.frameMap i).count - 1 }
    else t.frameMap i).count = if i ∈ (heldFrames log).erase f.toNat then 1 else (s.frameMap i).count
  by_cases same : i = f.toNat
  · subst same
    rw [if_pos List.mem_cons_self, if_neg fresh]
    change (t.frameMap f.toNat).count - 1 = _
    rw [kept, if_pos out, (Lease.held_usable counted.serves out).2]
    rfl
  · have other : i ∈ (heldFrames log).erase f.toNat ↔ i ∈ heldFrames log := List.mem_erase_of_ne same
    rw [if_neg (by simpa using same), kept, if_congr other rfl rfl]

theorem allots (inited : s.memmanInited = true) (bound : s.frameCount.toNat ≤ 1048576) :
    Allots s log t where
  answers := by
    intro flags
    have full := freeList_nil_iff (counted.inited.trans inited)
    rw [counted.frameCount] at full
    rcases memmanAllocFrame_flags flags t with ⟨none, run⟩ | ⟨f, fs, list, run⟩
    · exact ⟨true, 0, t, run, iff_of_true rfl (full.mp none), fun error => by cases error⟩
    · have member : f ∈ freeList t := by simp [list]
      obtain ⟨usable, out⟩ := counted.unused member
      have small : f < 1048576 := usable.1.trans_le bound
      refine ⟨false, frameAddr f, _, run, iff_of_false (by decide) ?_, fun _ => ?_⟩
      · rw [← full, list]
        exact List.cons_ne_nil f fs
      · exact ⟨f, usable.1, frameAddr_toNat small, out, (mem_freeList member).2, usable.2⟩
  once := by
    intro f later between before split
    have serves := counted.serves
    rw [split] at serves
    exact serves.released
  restores := by
    intro fs perm
    have once : fs.Nodup := perm.nodup_iff.mpr (Lease.held_nodup counted.serves)
    refine ⟨_, freeAll_done once fun f member => counted.heldFrame (perm.mem_iff.mp member), ?_⟩
    intro i
    have kept := counted.counts i
    change (if i ∈ fs then { t.frameMap i with count := (t.frameMap i).count - 1 }
      else t.frameMap i).count = (s.frameMap i).count
    by_cases out : i ∈ heldFrames log
    · rw [if_pos (perm.mem_iff.mpr out), kept, if_pos out, (Lease.held_usable counted.serves out).2]
      rfl
    · rw [if_neg fun member => out (perm.mem_iff.mp member), kept, if_neg out]

end

end Counted

/-- Frames are handed out exclusively and completely, whatever is allocated and freed. -/
theorem memman_allots {s t : Machine} {log : List (FrameCall × FrameReply)} (inited : s.memmanInited = true)
    (bound : s.frameCount.toNat ≤ 1048576) (session : Session memmanCall FreesHeld s log t) :
    Allots s log t := by
  have counted : Counted s log t := by
    refine session.invariant (Counted s) (Counted.start s) ?_
    intro log u call r v counted allow run
    cases call with
    | alloc flags => exact counted.alloc inited bound run
    | free f => exact counted.free allow run
  exact counted.allots inited bound

/-- Four frames, of which the second and the third are free. -/
def fourFrames : Machine where
  mem := fun _ => 0
  kallocBase := 0
  kallocInited := false
  memmanInited := true
  frameCount := 4
  frameMap := fun i => if i = 1 ∨ i = 2 then ⟨false, 0⟩ else ⟨true, 255⟩
  kernPageDir := 0
  schedStartProc := 0
  proctab := fun _ => ⟨0, .null, 0, 0⟩
  curproc := 0
  gdt := fun _ => ⟨0, 0, 0, 0, 0, 0⟩

theorem memman_allots_four : ∃ log t, Session memmanCall FreesHeld fourFrames log t ∧ log.length = 5 ∧
    Allots fourFrames log t := by
  have session : Session memmanCall FreesHeld fourFrames [] fourFrames := Session.nil
  have session := session.call (i := FrameCall.alloc 0) trivial rfl
  have session := session.call (i := FrameCall.alloc 1) trivial rfl
  have session := session.call (i := FrameCall.alloc 0) trivial rfl
  have session := session.call (i := FrameCall.free 1) (by decide) rfl
  have session := session.call (i := FrameCall.alloc 0) trivial rfl
  exact ⟨_, _, session, rfl, memman_allots rfl (by decide) session⟩

end Sos.Kernel
