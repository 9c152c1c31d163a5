import Sos.Lib.Cyclic
import Sos.Kernel.Teardown

/-! The scheduler, and a process killed. -/

namespace Sos.Kernel
open Sos.Lib Machine

/-- The machine with another current process and another descriptor table. -/
def Machine.switched (c : UInt32) (gdt : Nat → Descriptor) (s : Machine) : Machine :=
  { s with curproc := c, gdt := gdt }

/-- Where the loop in `schedule` ends. -/
def Stops (s : Machine) (lastproc i : Nat) : Prop := ((s.proctab i).status = .run ∧ i ≠ 0) ∨ i = lastproc

instance (s : Machine) (lastproc i : Nat) : Decidable (Stops s lastproc i) :=
  inferInstanceAs (Decidable (_ ∨ _))

/-- The entry behind `curproc`. -/
def following (maxProcs : UInt32) (s : Machine) : UInt32 := (s.curproc + 1) % maxProcs

theorem nextProc_succ (maxProcs lastproc : UInt32) (left : Nat) (waiting : Bool) (s : Machine) :
    nextProc maxProcs lastproc (left + 1) waiting s =
      if Stops s lastproc.toNat (following maxProcs s).toNat then
        .done (waiting || decide ((s.proctab (following maxProcs s).toNat).status = .wait))
          (s.switched (following maxProcs s) s.gdt)
      else
        nextProc maxProcs lastproc left
          (waiting || decide ((s.proctab (following maxProcs s).toNat).status = .wait))
          (s.switched (following maxProcs s) s.gdt) := by
  have test : ((s.proctab (following maxProcs s).toNat).status ≠ .run ∨ following maxProcs s = 0) ∧
      lastproc ≠ following maxProcs s ↔ ¬Stops s lastproc.toNat (following maxProcs s).toNat := by
    have zero : following maxProcs s = 0 ↔ (following maxProcs s).toNat = 0 := UInt32.toNat_inj.symm
    have last : lastproc ≠ following maxProcs s ↔ (following maxProcs s).toNat ≠ lastproc.toNat := by
      rw [ne_comm, Ne, ← UInt32.toNat_inj]
    unfold Stops
    rw [zero, last]
    tauto
  rw [nextProc, Prog.modify_bind_run, Prog.get_bind_run, Prog.get_bind_run]
  by_cases stop : Stops s lastproc.toNat (following maxProcs s).toNat
  · rw [if_pos stop]
    exact congrFun (if_neg fun more => test.mp more stop) _
  · rw [if_neg stop]
    exact congrFun (if_pos (test.mpr stop)) _

/-- The loop goes around the table to the first entry where it stops. -/
theorem nextProc_stops {maxProcs lastproc : UInt32} {left : Nat} {s : Machine} {pre post : List Nat}
    {x : Nat} (waiting : Bool) (way : lap maxProcs.toNat (s.curproc + 1).toNat = pre ++ x :: post)
    (enough : pre.length < left) (goesOn : ∀ i, i ∈ pre → ¬Stops s lastproc.toNat i)
    (stop : Stops s lastproc.toNat x) : ∃ c : UInt32, c.toNat = x ∧ nextProc maxProcs lastproc left waiting s =
      .done (waiting || (pre ++ [x]).any fun i => decide ((s.proctab i).status = .wait)) (s.switched c s.gdt) := by
  obtain ⟨left, rfl⟩ : ∃ k, left = k + 1 := ⟨left - 1, by omega⟩
  have place : (following maxProcs s).toNat = (s.curproc + 1).toNat % maxProcs.toNat := UInt32.toNat_mod _ _
  induction pre generalizing s waiting left post with
  | nil =>
    have here := (lap_head way).trans place.symm
    refine ⟨following maxProcs s, here.symm, ?_⟩
    rw [nextProc_succ, ← here, if_pos stop]
    simp
  | cons y pre ih =>
    rw [List.cons_append] at way
    have here := (lap_head way).trans place.symm
    have below : y < maxProcs.toNat := mem_lap.mp (by rw [way]; exact List.mem_cons_self)
    have bound := maxProcs.toNat_lt
    have next : ((s.switched (following maxProcs s) s.gdt).curproc + 1).toNat = y + 1 := by
      change (following maxProcs s + 1).toNat = _
      rw [UInt32.toNat_add, ← here]
      exact Nat.mod_eq_of_lt (by change y + 1 < 4294967296; omega)
    have way' : lap maxProcs.toNat ((s.switched (following maxProcs s) s.gdt).curproc + 1).toNat =
        pre ++ x :: (post ++ [y]) := by
      rw [next, lap_tail way, List.append_assoc, List.cons_append]
    rw [List.length_cons] at enough
    obtain ⟨left, rfl⟩ : ∃ k, left = k + 1 := ⟨left - 1, by omega⟩
    obtain ⟨c, same, run⟩ := ih (waiting || decide ((s.proctab y).status = .wait)) way'
      (fun i member => goesOn i (List.mem_cons_of_mem y member)) stop left (by omega) (UInt32.toNat_mod _ _)
    refine ⟨c, same, ?_⟩
    rw [nextProc_succ, ← here, if_neg (goesOn y List.mem_cons_self)]
    refine run.trans ?_
    rw [Bool.or_assoc]
    rfl

/-- How `schedule` ends when its loop has seen these entries and stops at entry `x`. -/
def exitAt (s : Machine) (seen : List Nat) (x : Nat) : SchedExit :=
  if (s.proctab x).status ≠ .run then
    if seen.any fun i => decide ((s.proctab i).status = .wait) then .waited else .ended
  else if s.curproc.toNat = x then .same else .switched

theorem schedule_stops {maxProcs : UInt32} {s : Machine} {pre post : List Nat} {x : Nat}
    (way : lap maxProcs.toNat (s.curproc + 1).toNat = pre ++ x :: post)
    (goesOn : ∀ i, i ∈ pre → ¬Stops s s.curproc.toNat i) (stop : Stops s s.curproc.toNat x) :
    ∃ (c : UInt32) (gdt : Nat → Descriptor), c.toNat = x ∧
      schedule maxProcs s = .done (exitAt s (pre ++ [x]) x) (s.switched c gdt) := by
  have enough : pre.length < maxProcs.toNat := by
    have length := congrArg List.length way
    rw [length_lap, List.length_append, List.length_cons] at length
    omega
  obtain ⟨c, rfl, run⟩ := nextProc_stops false way enough goesOn stop
  unfold schedule exitAt
  rw [Prog.get_bind_run, Prog.bind_done _ run, Prog.get_bind_run, Prog.get_bind_run, Bool.false_or]
  by_cases stopped : (s.proctab c.toNat).status ≠ .run
  · refine ⟨c, s.gdt, rfl, ?_⟩
    rw [if_pos stopped]
    refine (congrFun (if_pos stopped) _).trans ?_
    cases (pre ++ [c.toNat]).any fun i => decide ((s.proctab i).status = .wait) with
    | true => rfl
    | false => rfl
  · rw [if_neg stopped]
    by_cases same : s.curproc = c
    · refine ⟨c, s.gdt, rfl, ?_⟩
      rw [if_pos (congrArg UInt32.toNat same)]
      exact (congrFun (if_neg stopped) _).trans (congrFun (if_pos same) _)
    · rw [if_neg fun equal => same (UInt32.toNat_inj.mp equal)]
      let entry := tssEntry (s.proctab c.toNat).pid
      refine ⟨c, (setGdt entry { s.gdt entry with type := 0x9 } s).gdt, rfl, ?_⟩
      exact (congrFun (if_neg stopped) _).trans (congrFun (if_neg same) _)

theorem schedule_done (maxProcs : UInt32) {s : Machine} (small : s.curproc.toNat < maxProcs.toNat) :
    ∃ exit c gdt, c.toNat < maxProcs.toNat ∧ schedule maxProcs s = .done exit (s.switched c gdt) := by
  have some : ((lap maxProcs.toNat (s.curproc + 1).toNat).find? fun i => Stops s s.curproc.toNat i).isSome := by
    rw [List.find?_isSome]
    exact ⟨s.curproc.toNat, mem_lap.mpr small, decide_eq_true (Or.inr rfl)⟩
  obtain ⟨x, found⟩ := Option.isSome_iff_exists.mp some
  obtain ⟨stop, pre, post, way, goesOn⟩ := List.find?_eq_some_iff_append.mp found
  obtain ⟨c, gdt, rfl, run⟩ := schedule_stops way
    (fun i member => by simpa using goesOn i member) (of_decide_eq_true stop)
  exact ⟨_, c, gdt, mem_lap.mp (List.mem_of_find?_eq_some found), run⟩

/-- The machine with the process in entry `i` gone, before it is scheduled anew. -/
def Machine.killed (i : Nat) (r : Owned) (m : Mem) (s : Machine) : Machine :=
  ((s.dropped r.frames).setProc i { s.proctab i with status := .null }).withMem m

/-- `process_kill` frees what the process owns, whatever would happen at a free of
something else, and then it is `schedule` on what remains. -/
theorem processKill_done {R : Region} {s : Machine} {h : Heap R} {fuel : Nat} (maxProcs : UInt32)
    {pid : UInt32} {r : Owned} (small : pid.toNat < maxProcs.toNat) (records : Records s (s.proctab pid.toNat) r)
    (own : Exclusive s r) (hosts : Hosts s h) (steps : R.length.toNat / 8 < fuel) {rest : List Slot}
    (used : h.used.Perm (r.blocks ++ rest)) : ∃ (h' : Heap R) (m : Mem),
      (∀ unheld, processKill maxProcs unheld fuel pid s = schedule maxProcs (s.killed pid.toNat r m)) ∧
      Hosts (s.killed pid.toNat r m) h' ∧ h'.used.Perm rest ∧
      ∀ b, b ∈ h'.used → ∀ x, b.Has x → m x = s.mem x := by
  obtain ⟨h₁, m₁, run₁, hosts₁, used₁, kept₁⟩ := records.freeAddrSpace_done own hosts steps used
  have info : r.info ∈ h₁.used := used₁.mem_iff.mpr (by simp)
  have tss : m₁.load (r.info.addr + 8 + 4 * 0) = r.tss.addr + 8 := by
    rw [← records.tss]
    refine h₁.layout.word_kept (List.mem_append_right _ info) ?_ (kept₁ _ info)
    have len := records.lens.2.2.2
    simpa using len
  have hosts₁' : Hosts (s.killed pid.toNat r m₁) h₁ := ⟨hosts₁.base, hosts₁.inited, hosts₁.rep⟩
  obtain ⟨h', m, run₂, hosts₂, used₂, kept₂⟩ := destroyProcess_done records.addrSpace records.archInfo
    (records.valid r.info (by simp [Owned.blocks])) (s := s.killed pid.toNat r m₁) tss hosts₁' steps used₁
  have inside : pid < maxProcs := UInt32.lt_iff_toNat_lt.mpr small
  refine ⟨h', m, ?_, ⟨hosts₂.base, hosts₂.inited, hosts₂.rep⟩, used₂, ?_⟩
  · intro unheld
    rw [processKill, if_pos inside, Prog.get_bind_run, Prog.bind_done _ (run₁ unheld),
      Prog.get_bind_run, Prog.modify_bind_run]
    exact Prog.bind_done _ (run₂ unheld)
  · intro b member x data
    have early : b ∈ h₁.used := used₁.mem_iff.mpr (List.mem_append_right _ (used₂.mem_iff.mp member))
    exact (kept₂ b member x data).trans (kept₁ b early x data)

end Sos.Kernel
