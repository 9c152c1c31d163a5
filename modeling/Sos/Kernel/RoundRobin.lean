import Sos.Kernel.Mapping
import Sos.Kernel.Scheduling

/-! The scheduler takes turns. -/

namespace Sos.Kernel
open Sos.Lib Machine

/-- A process that can be run; entry 0 is not one. -/
def Runnable (s : Machine) (i : Nat) : Bool := (s.proctab i).status = .run ∧ i ≠ 0

section
variable {maxProcs : UInt32} {s : Machine}

/-- The old process comes last in its round. -/
theorem curproc_last {x : Nat} {pre post : List Nat}
    (way : lap maxProcs.toNat (s.curproc + 1).toNat = pre ++ x :: post) : s.curproc.toNat ∉ pre := by
  intro early
  have small : s.curproc.toNat < maxProcs.toNat := mem_lap.mp (by rw [way]; exact List.mem_append_left _ early)
  have bound := maxProcs.toNat_lt
  have next : (s.curproc + 1).toNat = s.curproc.toNat + 1 := Bytes.toNat_succ (by omega)
  rw [next] at way
  exact lap_before way early

/-- The first process that can be run goes on. -/
theorem schedule_first {x : Nat} (first : (lap maxProcs.toNat (s.curproc + 1).toNat).find? (Runnable s) = some x) :
    ∃ (c : UInt32) (gdt : Nat → Descriptor), c.toNat = x ∧
      schedule maxProcs s = .done (if c = s.curproc then .same else .switched) (s.switched c gdt) := by
  obtain ⟨runnable, pre, post, way, before⟩ := List.find?_eq_some_iff_append.mp first
  have runs : (s.proctab x).status = .run ∧ x ≠ 0 := of_decide_eq_true runnable
  have goesOn : ∀ i, i ∈ pre → ¬Stops s s.curproc.toNat i := by
    rintro i member (found | last)
    · have none := before i member
      rw [Runnable, decide_eq_true found] at none
      cases none
    · exact curproc_last way (last ▸ member)
  obtain ⟨c, gdt, rfl, run⟩ := schedule_stops way goesOn (Or.inl runs)
  refine ⟨c, gdt, rfl, run.trans ?_⟩
  have same : s.curproc.toNat = c.toNat ↔ c = s.curproc := by
    rw [UInt32.toNat_inj]
    exact eq_comm
  unfold exitAt
  rw [if_neg (not_not.mpr runs.1)]
  simp only [same]

theorem first_runnable (runnable : ∃ i, i < maxProcs.toNat ∧ Runnable s i = true) :
    ∃ x, (lap maxProcs.toNat (s.curproc + 1).toNat).find? (Runnable s) = some x := by
  obtain ⟨i, inside, runs⟩ := runnable
  refine Option.isSome_iff_exists.mp ?_
  rw [List.find?_isSome]
  exact ⟨i, mem_lap.mpr inside, runs⟩

/-- So many calls of `schedule`, and the processes that they let run. -/
def schedules (maxProcs : UInt32) : Nat → Prog Machine (List Nat)
  | 0 => return []
  | m + 1 => do
    let _ ← schedule maxProcs
    let cur ← Prog.get Machine.curproc
    let later ← schedules maxProcs m
    return cur.toNat :: later

theorem schedules_picks (runnable : ∃ i, i < maxProcs.toNat ∧ Runnable s i = true) (m : Nat) : ∃ c gdt,
    schedules maxProcs m s =
      .done (picks (Runnable s) maxProcs.toNat m (s.curproc + 1).toNat) (s.switched c gdt) := by
  induction m generalizing s with
  | zero => exact ⟨s.curproc, s.gdt, rfl⟩
  | succ m ih =>
    obtain ⟨x, first⟩ := first_runnable runnable
    obtain ⟨c, gdt, rfl, run⟩ := schedule_first first
    obtain ⟨c', gdt', later⟩ := ih (s := s.switched c gdt) runnable
    have small : c.toNat < maxProcs.toNat := mem_lap.mp (List.mem_of_find?_eq_some first)
    have bound := maxProcs.toNat_lt
    have next : (c + 1).toNat = c.toNat + 1 := Bytes.toNat_succ (by omega)
    refine ⟨c', gdt', ?_⟩
    rw [schedules, Prog.bind_done _ run, Prog.get_bind_run, Prog.bind_done _ later, picks, first]
    change Outcome.done (c.toNat :: picks _ _ m (c + 1).toNat) _ = _
    rw [next]
    rfl

end

/-- A machine whose processes have these states, process 1 being the current one. -/
def tableOf (statuses : List ProcStatus) : Machine :=
  { fourMegabytes (fun _ => 0) with
    proctab := fun i => ⟨0, statuses.getD i .null, 0, UInt32.ofNat i⟩
    curproc := 1 }

end Sos.Kernel
