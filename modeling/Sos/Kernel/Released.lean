import Sos.Kernel.HeapCanonical
import Sos.Kernel.Processes

/-! What `process_kill` may write before another task runs: list heads and headers that were there
before. -/

namespace Sos.Kernel
open Sos.Lib Machine

theorem Slot.addr_eq_of_first {b c : Slot} (first : b.first = c.first) : b.addr = c.addr :=
  UInt32.toNat_inj.mp first

/-- Giving a block back makes no header. -/
theorem Heap.release_addrs {R : Region} {h h' : Heap R} {f : UInt32} (result : h.release f = some h') {c : Slot}
    (later : c ∈ h'.free ++ h'.used) : ∃ c₀, c₀ ∈ h.free ++ h.used ∧ c₀.addr = c.addr := by
  rcases h.release_cases f with ⟨none, -⟩ | ⟨pre, b, post, h'', split, -, -, some, free, used⟩
  · rw [none] at result
    cases result
  · rw [some, Option.some.injEq] at result
    subst result
    have layout : Layout R (h.free ++ b :: (pre ++ post)) := by
      refine h.layout.perm ?_
      rw [split]
      exact List.perm_middle.append_left h.free
    obtain ⟨p, others, perm, old, low, -⟩ := Heap.putBack_cases layout
    rcases List.mem_append.mp later with inside | inside
    · rw [free] at inside
      rcases List.mem_cons.mp (perm.mem_iff.mp inside) with rfl | other
      · rcases low with ⟨first, -⟩ | ⟨q, listed, first⟩
        · exact ⟨b, by simp [split], (Slot.addr_eq_of_first first).symm⟩
        · exact ⟨q, List.mem_append_left _ listed, (Slot.addr_eq_of_first first).symm⟩
      · exact ⟨c, List.mem_append_left _ (old c other), rfl⟩
    · rw [used] at inside
      refine ⟨c, List.mem_append_right _ ?_, rfl⟩
      rw [split]
      simp only [List.mem_append, List.mem_cons] at inside ⊢
      tauto

/-- The memory tells which blocks there are. -/
theorem Hosts.unique {R : Region} {s : Machine} {h h' : Heap R} (hosts : Hosts s h) (hosts' : Hosts s h') :
    h.free = h'.free ∧ h.used = h'.used := by
  have read : ∀ {k : Heap R}, Rep R s.mem k.free k.used → ∀ l : List Slot, (∀ b, b ∈ l → b ∈ k.free ++ k.used) →
      (l.map Slot.addr).map (fun a => Slot.mk a (slotLen s.mem a)) = l := by
    intro k rep l inside
    rw [List.map_map]
    conv_rhs => rw [← List.map_id l]
    apply List.map_congr_left
    intro b member
    rw [Function.comp_apply, rep.lens b (inside b member), id]
  have free := hosts.rep.freeChain.unique hosts'.rep.freeChain
  have used := hosts.rep.usedChain.unique hosts'.rep.usedChain
  constructor
  · rw [← read hosts.rep h.free fun b => List.mem_append_left _, free,
      read hosts'.rep h'.free fun b => List.mem_append_left _]
  · rw [← read hosts.rep h.used fun b => List.mem_append_right _, used,
      read hosts'.rep h'.used fun b => List.mem_append_right _]

/-- Blocks of `h` have been given back since `s`. -/
structure Shrunk {R : Region} (h : Heap R) (s t : Machine) : Prop where
  heap : ∃ h' : Heap R, Hosts t h' ∧ ∀ c, c ∈ h'.free ++ h'.used → ∃ c₀, c₀ ∈ h.free ++ h.used ∧ c₀.addr = c.addr
  touches : Touches R (h.free ++ h.used) s.mem t.mem

namespace Shrunk
variable {R : Region} {s t : Machine} {h : Heap R} {fuel : Nat}

theorem refl (hosts : Hosts s h) : Shrunk h s s where
  heap := ⟨h, hosts, fun c member => ⟨c, member, rfl⟩⟩
  touches := fun _ _ _ => rfl

theorem aside {u : Machine} (shrunk : Shrunk h s t) (mem : u.mem = t.mem) (base : u.kallocBase = t.kallocBase)
    (inited : u.kallocInited = t.kallocInited) : Shrunk h s u where
  heap := by
    obtain ⟨h', hosts, heads⟩ := shrunk.heap
    exact ⟨h', hosts.congr base inited fun x _ _ _ => congrFun mem x, heads⟩
  touches := by
    rw [mem]
    exact shrunk.touches

theorem modify {f : Machine → Machine} (same : ∀ t, (f t).mem = t.mem ∧ (f t).kallocBase = t.kallocBase ∧
    (f t).kallocInited = t.kallocInited) : Prog.Stays (Shrunk h s) (Prog.modify f) := by
  intro t r u shrunk run
  cases run
  obtain ⟨mem, base, inited⟩ := same t
  exact shrunk.aside mem base inited

theorem nextProc (maxProcs lastproc : UInt32) (left : Nat) (waiting : Bool) :
    Prog.Stays (Shrunk h s) (nextProc maxProcs lastproc left waiting) := by
  induction left generalizing waiting with
  | zero =>
    intro t r u _ run
    cases run
  | succ left ih =>
    unfold Kernel.nextProc
    refine Prog.Stays.bind (modify ?_) fun _ => (Prog.Stays.get _).bind fun _ => (Prog.Stays.get _).bind fun _ => ?_
    · exact fun _ => ⟨rfl, rfl, rfl⟩
    · exact Prog.Stays.ite (ih _) (Prog.Stays.pure _)

theorem schedule (maxProcs : UInt32) : Prog.Stays (Shrunk h s) (schedule maxProcs) := by
  refine (Prog.Stays.get _).bind fun _ => (nextProc _ _ _ _).bind fun _ => (Prog.Stays.get _).bind fun _ => ?_
  refine (Prog.Stays.get _).bind fun _ => Prog.Stays.ite ?_ (Prog.Stays.ite (Prog.Stays.pure _) ?_)
  · exact Prog.Stays.ite (Prog.Stays.pure _) (Prog.Stays.pure _)
  · refine Prog.Stays.bind (modify ?_) fun _ => Prog.Stays.pure _
    exact fun _ => ⟨rfl, rfl, rfl⟩

theorem fetch (p i : UInt32) : Prog.Stays (Shrunk h s) (fetch p i) :=
  Prog.Stays.ite Prog.Stays.fault (Prog.Stays.get _)

theorem memmanFreeFrame (f : UInt32) : Prog.Stays (Shrunk h s) (memmanFreeFrame goOn f) := by
  intro t r u shrunk run
  unfold Kernel.memmanFreeFrame at run
  split at run
  · split at run
    · cases run
      exact shrunk.aside rfl rfl rfl
    · cases run
      exact shrunk
  · cases run

theorem freeFrames (list : UInt32) (left : Nat) (i : UInt32) :
    Prog.Stays (Shrunk h s) (freeFrames goOn list left i) := by
  induction left generalizing i with
  | zero => exact Prog.Stays.pure ()
  | succ left ih => exact (fetch list i).bind fun v => (memmanFreeFrame _).bind fun _ => ih (i + 1)

variable (steps : R.length.toNat / 8 < fuel)
include steps

theorem kfree (slot : UInt32) : Prog.Stays (Shrunk h s) (kfree goOn fuel slot) := by
  intro t r u shrunk run
  obtain ⟨h', hosts, heads⟩ := shrunk.heap
  rcases hosts.kfree_done steps slot with ⟨-, missed⟩ | ⟨h'', m, result, freed, hosts', touches⟩
  · rw [missed goOn] at run
    cases run
    exact shrunk
  · rw [freed goOn] at run
    cases run
    refine ⟨⟨h'', hosts', ?_⟩, shrunk.touches.trans ?_⟩
    · intro c later
      obtain ⟨c', member, same⟩ := Heap.release_addrs result later
      obtain ⟨c₀, member', same'⟩ := heads c' member
      exact ⟨c₀, member', same'.trans same⟩
    · intro x lists clear
      refine touches x lists fun c' member => ?_
      obtain ⟨c₀, member', same⟩ := heads c' member
      rw [← same]
      exact clear c₀ member'

theorem freeAddrSpace (as : UInt32) : Prog.Stays (Shrunk h s) (freeAddrSpace goOn fuel as) := by
  unfold Kernel.freeAddrSpace
  refine (fetch as 2).bind fun _ => (fetch as 1).bind fun _ => (freeFrames _ _ _).bind fun _ => ?_
  refine (fetch as 4).bind fun _ => (fetch as 3).bind fun _ => (freeFrames _ _ _).bind fun _ => ?_
  refine (fetch as 0).bind fun _ => (memmanFreeFrame _).bind fun _ => ?_
  refine (fetch as 2).bind fun _ => (kfree steps _).bind fun _ => ?_
  exact (fetch as 4).bind fun _ => (kfree steps _).bind fun _ => Prog.Stays.pure _

theorem destroyProcess (p : Process) : Prog.Stays (Shrunk h s) (destroyProcess goOn fuel p) := by
  unfold Kernel.destroyProcess
  exact (fetch p.archInfo 0).bind fun _ => (kfree steps _).bind fun _ => (kfree steps _).bind fun _ => kfree steps _

theorem processKill (maxProcs pid : UInt32) : Prog.Stays (Shrunk h s) (processKill maxProcs goOn fuel pid) := by
  refine Prog.Stays.ite ?_ Prog.Stays.fault
  refine (Prog.Stays.get _).bind fun _ => (freeAddrSpace steps _).bind fun _ => (Prog.Stays.get _).bind fun _ => ?_
  refine Prog.Stays.bind (modify ?_) fun _ => (destroyProcess steps _).bind fun _ => schedule _
  exact fun _ => ⟨rfl, rfl, rfl⟩

end Shrunk

end Sos.Kernel
