import Sos.Kernel.RoundRobin

/-! Who runs after `schedule` and after `process_kill`. -/

namespace Sos.Kernel
open Sos.Lib Machine

/-- The process that runs next: none after `kend`, else the one switched to or the caller's. -/
def runsNext (lastproc cur : UInt32) : SchedExit → Option UInt32
  | .switched => some cur
  | .same => some lastproc
  | .waited => some lastproc
  | .ended => none

/-- Only a process that can be run goes on after `schedule`. -/
def NeverResumed (maxProcs : UInt32) (s : Machine) : Prop :=
  ∀ exit t, schedule maxProcs s = .done exit t → ∀ q, runsNext s.curproc t.curproc exit = some q →
    (t.proctab q.toNat).status = .run

/-- Some other process can be run, or none waits. -/
def OthersGoOn (maxProcs : UInt32) (s : Machine) : Prop :=
  (∃ i, i < maxProcs.toNat ∧ i ≠ s.curproc.toNat ∧ Runnable s i = true) ∨
    ∀ i, i < maxProcs.toNat → i ≠ s.curproc.toNat → (s.proctab i).status ≠ .wait

section
variable {maxProcs : UInt32} {s : Machine}

/-- Without a process that can be run the loop comes back to the old one. -/
theorem schedule_none (small : s.curproc.toNat < maxProcs.toNat)
    (none : ∀ i, i < maxProcs.toNat → Runnable s i = false) : ∃ exit gdt,
      schedule maxProcs s = .done exit (s.switched s.curproc gdt) ∧
      ((s.proctab s.curproc.toNat).status = .run ∧ exit = .same ∨
        (s.proctab s.curproc.toNat).status ≠ .run ∧
          ((exit = .waited ∧ ∃ i, i < maxProcs.toNat ∧ (s.proctab i).status = .wait) ∨
            exit = .ended ∧ ∀ i, i < maxProcs.toNat → (s.proctab i).status ≠ .wait)) := by
  have bound := maxProcs.toNat_lt
  have next : (s.curproc + 1).toNat = s.curproc.toNat + 1 := Bytes.toNat_succ (by omega)
  obtain ⟨l, round, others⟩ := lap_last small
  rw [← next] at round
  have goesOn : ∀ i, i ∈ l → ¬Stops s s.curproc.toNat i := by
    rintro i member (found | last)
    · have absent := none i ((others i).mp member).1
      rw [Runnable, decide_eq_true found] at absent
      cases absent
    · exact ((others i).mp member).2 last
  obtain ⟨c, gdt, same, run⟩ := schedule_stops round goesOn (Or.inr rfl)
  obtain rfl := UInt32.toNat_inj.mp same
  refine ⟨_, gdt, run, ?_⟩
  have seen : ∀ i, i ∈ l ++ [s.curproc.toNat] ↔ i < maxProcs.toNat := fun i => by rw [← round, mem_lap]
  unfold exitAt
  by_cases stopped : (s.proctab s.curproc.toNat).status = .run
  · rw [if_neg (not_not.mpr stopped), if_pos rfl]
    exact Or.inl ⟨stopped, rfl⟩
  · rw [if_pos stopped]
    refine Or.inr ⟨stopped, ?_⟩
    cases waiting : (l ++ [s.curproc.toNat]).any fun i => decide ((s.proctab i).status = .wait) with
    | true =>
      obtain ⟨i, member, waits⟩ := List.any_eq_true.mp waiting
      exact Or.inl ⟨rfl, i, (seen i).mp member, of_decide_eq_true waits⟩
    | false =>
      refine Or.inr ⟨rfl, fun i inside => ?_⟩
      exact of_decide_eq_false (by simpa using List.any_eq_false.mp waiting i ((seen i).mpr inside))

theorem neverResumed_iff (small : s.curproc.toNat < maxProcs.toNat) : NeverResumed maxProcs s ↔
    (∃ i, i < maxProcs.toNat ∧ Runnable s i = true) ∨ (s.proctab s.curproc.toNat).status = .run ∨
      ∀ i, i < maxProcs.toNat → (s.proctab i).status ≠ .wait := by
  by_cases some : ∃ i, i < maxProcs.toNat ∧ Runnable s i = true
  · refine iff_of_true ?_ (Or.inl some)
    obtain ⟨x, first⟩ := first_runnable some
    obtain ⟨c, gdt, rfl, run⟩ := schedule_first first
    have found : Runnable s c.toNat = true := List.find?_some first
    have runs : (s.proctab c.toNat).status = .run := (of_decide_eq_true found).1
    intro exit t done q next
    rw [run, Outcome.done.injEq] at done
    obtain ⟨rfl, rfl⟩ := done
    by_cases same : c = s.curproc
    · rw [if_pos same, ← same] at next
      cases next
      exact runs
    · rw [if_neg same] at next
      cases next
      exact runs
  · have none : ∀ i, i < maxProcs.toNat → Runnable s i = false := fun i inside => by
      by_contra runs
      exact some ⟨i, inside, by simpa using runs⟩
    obtain ⟨exit, gdt, run, cases⟩ := schedule_none small none
    rcases cases with ⟨runs, rfl⟩ | ⟨stopped, ⟨rfl, waits⟩ | ⟨rfl, noWait⟩⟩
    · refine iff_of_true ?_ (Or.inr (Or.inl runs))
      intro exit t done q next
      rw [run, Outcome.done.injEq] at done
      obtain ⟨rfl, rfl⟩ := done
      cases next
      exact runs
    · refine iff_of_false ?_ ?_
      · intro never
        exact stopped (never _ _ run s.curproc rfl)
      · rintro (runs | runs | noWait)
        · exact some runs
        · exact stopped runs
        · obtain ⟨i, inside, waiting⟩ := waits
          exact noWait i inside waiting
    · refine iff_of_true ?_ (Or.inr (Or.inr noWait))
      intro exit t done q next
      rw [run, Outcome.done.injEq] at done
      obtain ⟨rfl, rfl⟩ := done
      cases next

end

section
variable {β : Type} {f : Machine → β}

/-- A part of the machine that is neither memory nor frame map. -/
structure Aside (f : Machine → β) : Prop where
  mem : ∀ s m, f (s.withMem m) = f s
  map : ∀ s map, f { s with frameMap := map } = f s

namespace Aside
variable (aside : Aside f)
include aside

theorem onMem {α : Type} (x : Prog Mem α) : Prog.Keeps f (onMem x) := by
  intro s a t run
  unfold Machine.onMem Prog.zoom at run
  split at run
  · cases run
    exact aside.mem s _
  all_goals cases run

theorem memmanFreeFrame (g : UInt32) : Prog.Keeps f (memmanFreeFrame goOn g) := by
  intro s r t run
  unfold Kernel.memmanFreeFrame at run
  split at run
  · split at run
    · cases run
      exact aside.map s _
    · cases run
      rfl
  · cases run

theorem kfree (fuel : Nat) (slot : UInt32) : Prog.Keeps f (kfree goOn fuel slot) := by
  intro s a t run
  unfold Kernel.kfree at run
  split at run
  · exact (aside.onMem _).bind (fun r => Prog.Keeps.ite (Prog.Keeps.pure ()) (Prog.Keeps.pure ())) s a t run
  · cases run
    rfl

omit aside in
theorem fetch (p i : UInt32) : Prog.Keeps f (fetch p i) := Prog.Keeps.ite Prog.Keeps.fault Prog.Keeps.get

theorem freeFrames (list : UInt32) (left : Nat) (i : UInt32) : Prog.Keeps f (freeFrames goOn list left i) := by
  induction left generalizing i with
  | zero => exact Prog.Keeps.pure ()
  | succ left ih => exact (fetch list i).bind fun v => (aside.memmanFreeFrame _).bind fun _ => ih (i + 1)

theorem freeAddrSpace (fuel : Nat) (as : UInt32) : Prog.Keeps f (freeAddrSpace goOn fuel as) := by
  unfold Kernel.freeAddrSpace
  refine (fetch as 2).bind fun _ => (fetch as 1).bind fun _ => (aside.freeFrames _ _ _).bind fun _ => ?_
  refine (fetch as 4).bind fun _ => (fetch as 3).bind fun _ => (aside.freeFrames _ _ _).bind fun _ => ?_
  refine (fetch as 0).bind fun _ => (aside.memmanFreeFrame _).bind fun _ => ?_
  refine (fetch as 2).bind fun _ => (aside.kfree _ _).bind fun _ => ?_
  exact (fetch as 4).bind fun _ => (aside.kfree _ _).bind fun _ => Prog.Keeps.pure _

theorem destroyProcess (fuel : Nat) (p : Process) : Prog.Keeps f (destroyProcess goOn fuel p) := by
  unfold Kernel.destroyProcess
  exact (fetch p.archInfo 0).bind fun _ => (aside.kfree _ _).bind fun _ => (aside.kfree _ _).bind fun _ =>
    aside.kfree _ _

end Aside

end

section
variable {maxProcs : UInt32} {s : Machine}

/-- `process_kill` ends with `schedule` on a table in which the process is null. -/
theorem processKill_schedule {fuel : Nat} {pid : UInt32} {exit : SchedExit} {t : Machine}
    (run : processKill maxProcs goOn fuel pid s = .done exit t) : pid.toNat < maxProcs.toNat ∧ ∃ v,
      v.curproc = s.curproc ∧
      v.proctab = (s.setProc pid.toNat { s.proctab pid.toNat with status := .null }).proctab ∧
      schedule maxProcs v = .done exit t := by
  have table : Aside Machine.proctab := ⟨fun _ _ => rfl, fun _ _ => rfl⟩
  have current : Aside Machine.curproc := ⟨fun _ _ => rfl, fun _ _ => rfl⟩
  unfold processKill at run
  split at run
  next inside =>
    rw [Prog.get_bind_run] at run
    obtain ⟨_, u, freed, run⟩ := Prog.of_bind_done run
    rw [Prog.get_bind_run, Prog.modify_bind_run] at run
    obtain ⟨_, v, destroyed, run⟩ := Prog.of_bind_done run
    have kept : u.curproc = s.curproc := current.freeAddrSpace _ _ _ _ _ freed
    refine ⟨UInt32.lt_iff_toNat_lt.mp inside, v, ?_, ?_, run⟩
    · exact (current.destroyProcess _ _ _ _ _ destroyed).trans kept
    · rw [table.destroyProcess _ _ _ _ _ destroyed]
      unfold setProc
      simp only [table.freeAddrSpace _ _ _ _ _ freed]
  next => cases run

theorem killed_iff {fuel : Nat} {exit : SchedExit} {t : Machine}
    (run : processKill maxProcs goOn fuel s.curproc s = .done exit t) :
    runsNext s.curproc t.curproc exit ≠ some s.curproc ↔ OthersGoOn maxProcs s := by
  obtain ⟨small, v, current, table, next⟩ := processKill_schedule run
  have null : (v.proctab s.curproc.toNat).status = .null := by
    rw [table]
    exact congrArg Process.status (if_pos rfl)
  have other : ∀ i, i ≠ s.curproc.toNat → v.proctab i = s.proctab i := by
    intro i differ
    rw [table]
    exact if_neg differ
  have runnable : ∀ i, Runnable v i = true ↔ i ≠ s.curproc.toNat ∧ Runnable s i = true := by
    intro i
    by_cases same : i = s.curproc.toNat
    · subst same
      simp [Runnable, null]
    · simp [Runnable, other i same, same]
  have waits : ∀ i, (v.proctab i).status = .wait ↔ i ≠ s.curproc.toNat ∧ (s.proctab i).status = .wait := by
    intro i
    by_cases same : i = s.curproc.toNat
    · subst same
      simp [null]
    · simp [other i same, same]
  unfold OthersGoOn
  by_cases some : ∃ i, i < maxProcs.toNat ∧ Runnable v i = true
  · refine iff_of_true ?_ ?_
    · obtain ⟨x, first⟩ := first_runnable some
      obtain ⟨c, gdt, rfl, run'⟩ := schedule_first first
      have found : Runnable v c.toNat = true := List.find?_some first
      have differ : c ≠ v.curproc := by
        rintro rfl
        exact ((runnable _).mp found).1 (congrArg UInt32.toNat current)
      rw [next, Outcome.done.injEq, if_neg differ] at run'
      obtain ⟨rfl, rfl⟩ := run'
      intro back
      exact differ ((Option.some.inj back).trans current.symm)
    · obtain ⟨i, inside, runs⟩ := some
      exact Or.inl ⟨i, inside, (runnable i).mp runs⟩
  · have none : ∀ i, i < maxProcs.toNat → Runnable v i = false := fun i inside => by
      by_contra runs
      exact some ⟨i, inside, by simpa using runs⟩
    have noOther : ¬∃ i, i < maxProcs.toNat ∧ i ≠ s.curproc.toNat ∧ Runnable s i = true := by
      rintro ⟨i, inside, runs⟩
      exact some ⟨i, inside, (runnable i).mpr runs⟩
    obtain ⟨exit', gdt, run', cases⟩ := schedule_none (s := v) (by rw [current]; exact small) none
    rw [next, Outcome.done.injEq] at run'
    obtain ⟨rfl, rfl⟩ := run'
    rcases cases with ⟨runs, -⟩ | ⟨-, ⟨rfl, i, inside, waiting⟩ | ⟨rfl, noWait⟩⟩
    · rw [current, null] at runs
      cases runs
    · refine iff_of_false (fun away => away rfl) ?_
      rintro (runs | noWait)
      · exact noOther runs
      · exact noWait i inside ((waits i).mp waiting).1 ((waits i).mp waiting).2
    · refine iff_of_true (by simp [runsNext]) (Or.inr ?_)
      intro i inside differ waiting
      exact noWait i inside ((waits i).mpr ⟨differ, waiting⟩)

/-- When it is sure that only a process that can be run goes on after `schedule`, and that a
killed process does not. -/
theorem schedule_resumes_iff (small : s.curproc.toNat < maxProcs.toNat) :
    (NeverResumed maxProcs s ↔ (∃ i, i < maxProcs.toNat ∧ Runnable s i = true) ∨
      (s.proctab s.curproc.toNat).status = .run ∨ ∀ i, i < maxProcs.toNat → (s.proctab i).status ≠ .wait) ∧
    ∀ fuel exit t, processKill maxProcs goOn fuel s.curproc s = .done exit t →
      (runsNext s.curproc t.curproc exit ≠ some s.curproc ↔ OthersGoOn maxProcs s) :=
  ⟨neverResumed_iff small, fun _ _ _ run => killed_iff run⟩

end

/-- Process 1 is killed while process 2 waits. -/
theorem schedule_resumes_killed : ¬NeverResumed 4 (tableOf [.null, .null, .wait]) := by
  intro never
  have resumed := never .waited _ rfl 1 rfl
  cases resumed

theorem schedule_resumes_iff_three :
    (NeverResumed 4 (tableOf [.null, .run, .wait]) ↔
      (∃ i, i < (4 : UInt32).toNat ∧ Runnable (tableOf [.null, .run, .wait]) i = true) ∨
      ((tableOf [.null, .run, .wait]).proctab (tableOf [.null, .run, .wait]).curproc.toNat).status = .run ∨
      ∀ i, i < (4 : UInt32).toNat → ((tableOf [.null, .run, .wait]).proctab i).status ≠ .wait) ∧
    ∀ fuel exit t, processKill 4 goOn fuel (tableOf [.null, .run, .wait]).curproc
        (tableOf [.null, .run, .wait]) = .done exit t →
      (runsNext (tableOf [.null, .run, .wait]).curproc t.curproc exit ≠
        some (tableOf [.null, .run, .wait]).curproc ↔ OthersGoOn 4 (tableOf [.null, .run, .wait])) :=
  schedule_resumes_iff (by decide)

end Sos.Kernel
