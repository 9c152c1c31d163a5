import Sos.Kernel.TimerSet
import Sos.Lib.Checks
import Sos.Lib.Runs

/-! The timed events with an access through the null pointer as undefined. Such an access is what
`Timers` takes as one to a record that belongs to no event. -/

namespace Sos.Kernel
open Sos.Lib Timers

variable {ω : Type}

namespace Strict

/-- The fields of the event at an address. -/
def fetchEvent (p : UInt32) : Prog (Timers ω) TimeEvent :=
  if p = 0 then Prog.fault else Prog.get fun t => t.events p

def storeEvent (p : UInt32) (e : TimeEvent) : Prog (Timers ω) Unit :=
  if p = 0 then Prog.fault else Prog.modify (put p e)

def storeNext (p v : UInt32) : Prog (Timers ω) Unit :=
  if p = 0 then Prog.fault else Prog.modify fun t => t.setNext p v

def findFrom (e : UInt32) : Nat → UInt32 → UInt32 → Prog (Timers ω) (UInt32 × UInt32)
  | 0, _, _ => Prog.timeout
  | fuel + 1, p, j =>
    if p ≠ 0 ∧ p ≠ e then do findFrom e fuel (← fetchEvent p).next p
    else return (p, j)

def findEvent (fuel : Nat) (e : UInt32) : Prog (Timers ω) (UInt32 × UInt32) := do
  findFrom e fuel (← Prog.get Timers.head) 0

def timeEventSet (fuel : Nat) (e interval repeats funct arg : UInt32) : Prog (Timers ω) Unit := do
  let (p, _) ← findEvent fuel e
  if p = e then return ()
  else storeEvent e ⟨funct, arg, interval, if repeats = timeEventRepeat then interval else 0, 0⟩

def timeEventDel (fuel : Nat) (e : UInt32) : Prog (Timers ω) Unit := do
  let (p, j) ← findEvent fuel e
  if p ≠ e then return ()
  else if j = 0 then do
    let first ← fetchEvent (← Prog.get Timers.head)
    Prog.modify fun t => { t with head := first.next }
  else do
    let found ← fetchEvent p
    storeNext j found.next

def timeEventAdd (fuel : Nat) (e : UInt32) : Prog (Timers ω) Unit := do
  let (p, _) ← findEvent fuel e
  if p = e then return ()
  else
    let head ← Prog.get Timers.head
    if head = 0 then storeNext head 0
    storeNext e head
    Prog.modify fun t => { t with head := e }

def call (fuel : Nat) : TimerCall → Prog (Timers ω) Unit
  | .set e interval repeats funct arg => timeEventSet fuel e interval repeats funct arg
  | .add e => timeEventAdd fuel e
  | .del e => timeEventDel fuel e

def runCalls (fuel : Nat) : List TimerCall → Prog (Timers ω) Unit
  | [] => return ()
  | c :: calls => do
    call fuel c
    runCalls fuel calls

variable (callback : Callback ω)

def callEvent (fuel : Nat) (p : UInt32) : Prog (Timers ω) (List TimerCall) := do
  let e ← fetchEvent p
  let (calls, world) ← Prog.get fun t => callback e.event e.arg t
  Prog.modify fun t => { t with world := world }
  runCalls fuel calls
  return calls

def countDown (fuel : Nat) (p : UInt32) : Prog (Timers ω) Bool := do
  let e ← fetchEvent p
  storeEvent p { e with tRemaining := e.tRemaining - 1 }
  let e ← fetchEvent p
  if e.tRemaining = 0 then
    if e.tInterval = 0 then timeEventDel fuel p
    else storeEvent p { e with tRemaining := e.tInterval }
    return true
  else return false

def visit (fuel : Nat) (p : UInt32) : Prog (Timers ω) Visit := do
  if ← countDown fuel p then return ⟨p, some (← callEvent callback fuel p)⟩
  else return ⟨p, none⟩

def timerLoop (fuel : Nat) : Nat → UInt32 → Prog (Timers ω) (List Visit)
  | 0, _ => Prog.timeout
  | left + 1, p =>
    if p = 0 then return []
    else do
      let v ← visit callback fuel p
      let visits ← timerLoop fuel left (← fetchEvent p).next
      return v :: visits

def timerInterrupt (fuel : Nat) : Prog (Timers ω) (List Visit) := do
  timerLoop callback fuel fuel (← Prog.get Timers.head)

end Strict

/-- An event is added to an empty list. -/
def TimerCall.Fills (c : TimerCall) (t : Timers ω) : Prop := (∃ e, c = .add e) ∧ t.head = 0

/-- One of these calls adds an event to an empty list. -/
def FillsOne (fuel : Nat) : List TimerCall → Timers ω → Prop
  | [], _ => False
  | c :: calls, t => c.Fills t ∨ ∃ u, c.run fuel t = .done () u ∧ FillsOne fuel calls u

section
variable (callback : Callback ω)

/-- The callback of this event, which is counted down, does so. -/
def VisitFills (fuel : Nat) (p : UInt32) (t : Timers ω) : Prop :=
  ∃ u, countDown fuel p t = .done true u ∧
    FillsOne fuel (callback (u.events p).event (u.events p).arg u).1
      { u with world := (callback (u.events p).event (u.events p).arg u).2 }

/-- Some callback does so in the rounds from `p` on. -/
def LoopFills (fuel : Nat) : Nat → UInt32 → Timers ω → Prop
  | 0, _, _ => False
  | left + 1, p, t => p ≠ 0 ∧ (VisitFills callback fuel p t ∨
      ∃ v u, visit callback fuel p t = .done v u ∧ LoopFills fuel left (u.events p).next u)

end

section
variable {e p : UInt32} {fuel : Nat}

theorem fetchEvent_of_ne (event : p ≠ 0) : (Strict.fetchEvent p : Prog (Timers ω) TimeEvent) =
    Prog.get fun t => t.events p := if_neg event

theorem storeEvent_of_ne (event : p ≠ 0) (record : TimeEvent) : (Strict.storeEvent p record : Prog (Timers ω) Unit) =
    Prog.modify (put p record) := if_neg event

theorem storeNext_of_ne (event : p ≠ 0) (v : UInt32) : (Strict.storeNext p v : Prog (Timers ω) Unit) =
    Prog.modify fun t => t.setNext p v := if_neg event

/-- The loops test the pointer before they follow it. -/
theorem findFrom_walk (fuel : Nat) (p j : UInt32) (t : Timers ω) : Strict.findFrom e fuel p j t =
    match walk t.link 0 (fun p => p = e) fuel p j with
    | some found => .done found t
    | none => .timeout := by
  induction fuel generalizing p j with
  | zero => rfl
  | succ fuel ih =>
    by_cases more : p ≠ 0 ∧ p ≠ e
    · have on : ¬(p = 0 ∨ decide (p = e) = true) := by simpa using more
      rw [Strict.findFrom, if_pos more, fetchEvent_of_ne more.1, Prog.get_bind_run, ih, walk, if_neg on,
        link_of_ne t more.1]
    · have stop : p = 0 ∨ decide (p = e) = true := by
        rw [decide_eq_true_eq]
        tauto
      rw [Strict.findFrom, if_neg more, walk, if_pos stop]
      rfl

theorem strict_findEvent : (Strict.findEvent fuel e : Prog (Timers ω) _) = findEvent fuel e := by
  funext t
  rw [Strict.findEvent, Prog.get_bind_run, findFrom_walk]
  rfl

theorem findEvent_first {t u : Timers ω} {q : UInt32} (run : findEvent fuel e t = .done (q, 0) u) :
    u = t ∧ q = t.head := by
  unfold findEvent at run
  split at run
  next found here =>
    cases run
    exact ⟨rfl, walk_first 0 here⟩
  next => cases run

theorem strict_timeEventSet (event : e ≠ 0) (interval repeats funct arg : UInt32) :
    (Strict.timeEventSet fuel e interval repeats funct arg : Prog (Timers ω) Unit) =
      timeEventSet fuel e interval repeats funct arg := by
  unfold Strict.timeEventSet timeEventSet
  rw [strict_findEvent, storeEvent_of_ne event]

/-- An event that is found first is the head of the list, and one that is found later has one before it. -/
theorem strict_timeEventDel (event : e ≠ 0) :
    (Strict.timeEventDel fuel e : Prog (Timers ω) Unit) = timeEventDel fuel e := by
  funext t
  unfold Strict.timeEventDel timeEventDel
  rw [strict_findEvent]
  apply Prog.bind_congr
  rintro ⟨p, j⟩ u run
  by_cases other : p ≠ e
  · exact (congrFun (if_pos other) u).trans (congrFun (if_pos other) u).symm
  · have same : p = e := not_not.mp other
    dsimp only
    rw [if_neg other, if_neg other]
    by_cases first : j = 0
    · subst first
      obtain ⟨rfl, head⟩ := findEvent_first run
      have active : u.head ≠ 0 := by
        rw [← head, same]
        exact event
      rw [if_pos rfl, if_pos rfl, Prog.get_bind_run, fetchEvent_of_ne active]
      rfl
    · rw [if_neg first, if_neg first, same, fetchEvent_of_ne event, Prog.get_bind_run, storeNext_of_ne first]
      rfl

/-- With a first event there the pointer to it is not null. -/
theorem strict_timeEventAdd (event : e ≠ 0) {t : Timers ω} (some : t.head ≠ 0) :
    Strict.timeEventAdd fuel e t = timeEventAdd fuel e t := by
  unfold Strict.timeEventAdd timeEventAdd
  rw [strict_findEvent]
  apply Prog.bind_congr
  rintro ⟨p, j⟩ u run
  have same : u = t := by
    unfold findEvent at run
    split at run
    · cases run
      rfl
    · cases run
  subst same
  dsimp only
  by_cases found : p = e
  · rw [if_pos found, if_pos found]
  · rw [if_neg found, if_neg found, Prog.get_bind_run, if_neg some, storeNext_of_ne event, Prog.modify_bind_run,
      Prog.modify_bind_run, if_neg some]
    rfl

theorem strict_timeEventAdd_empty (event : e ≠ 0) {t : Timers ω} (empty : t.head = 0) :
    Strict.timeEventAdd (fuel + 1) e t = .fault := by
  have run : findEvent (fuel + 1) e t = .done (0, 0) t := by
    rw [findEvent, empty, walk_start]
  rw [Strict.timeEventAdd, strict_findEvent, Prog.bind_done _ run]
  refine (congrFun (if_neg (Ne.symm event)) t).trans ?_
  rw [Prog.get_bind_run, empty, if_pos rfl]
  rfl

theorem findEvent_sound : Prog.Sound (findEvent fuel e : Prog (Timers ω) _) := by
  intro t fault
  unfold findEvent at fault
  split at fault
  · cases fault
  · cases fault

theorem TimerCall.run_sound (c : TimerCall) : Prog.Sound (c.run fuel : Prog (Timers ω) Unit) := by
  cases c with
  | set e interval repeats funct arg =>
    apply findEvent_sound.bind
    rintro ⟨p, j⟩
    exact Prog.Sound.ite (Prog.Sound.pure ()) (Prog.Sound.modify _)
  | add e =>
    apply findEvent_sound.bind
    rintro ⟨p, j⟩
    refine Prog.Sound.ite (Prog.Sound.pure ()) ?_
    exact (Prog.Sound.modify _).bind fun _ => Prog.Sound.modify _
  | del e =>
    apply findEvent_sound.bind
    rintro ⟨p, j⟩
    exact Prog.Sound.ite (Prog.Sound.pure ()) (Prog.Sound.ite (Prog.Sound.modify _) (Prog.Sound.modify _))

/-- A call on an event goes through the null pointer when it adds the event to an empty list, and never
otherwise. -/
theorem strict_call (c : TimerCall) (event : c.event ≠ 0) :
    Prog.Checks c.Fills (Strict.call (fuel + 1) c : Prog (Timers ω) Unit) (c.run (fuel + 1)) := by
  have same (t : Timers ω) (fine : ¬c.Fills t) : Strict.call (fuel + 1) c t = c.run (fuel + 1) t := by
    cases c with
    | set e interval repeats funct arg => exact congrFun (strict_timeEventSet event _ _ _ _) t
    | add e => exact strict_timeEventAdd event fun empty => fine ⟨⟨e, rfl⟩, empty⟩
    | del e => exact congrFun (strict_timeEventDel event) t
  constructor
  · intro t
    constructor
    · intro fault
      by_contra fine
      rw [same t fine] at fault
      exact c.run_sound t fault
    · rintro ⟨⟨e, rfl⟩, empty⟩
      exact strict_timeEventAdd_empty event empty
  · exact same

theorem strict_runCalls (calls : List TimerCall) (events : ∀ c ∈ calls, c.event ≠ 0) :
    Prog.Checks (FillsOne (fuel + 1) calls) (Strict.runCalls (fuel + 1) calls : Prog (Timers ω) Unit)
      (runCalls (fuel + 1) calls) := by
  induction calls with
  | nil => exact Prog.Checks.of_sound (Prog.Sound.pure ())
  | cons c calls ih =>
    have first : Prog.Checks c.Fills (Strict.call (fuel + 1) c : Prog (Timers ω) Unit) (c.run (fuel + 1)) :=
      strict_call c (events c List.mem_cons_self)
    have rest := ih fun c member => events c (List.mem_cons_of_mem _ member)
    apply (first.bind fun _ => rest).iff
    intro t
    constructor
    · rintro (fills | ⟨u, run, fills⟩)
      · exact .inl fills
      · exact .inr ⟨(), u, run, fills⟩
    · rintro (fills | ⟨⟨⟩, u, run, fills⟩)
      · exact .inl fills
      · exact .inr ⟨u, run, fills⟩

/-- Everything there is done on an event that is given. -/
theorem strict_countDown (event : p ≠ 0) :
    (Strict.countDown fuel p : Prog (Timers ω) Bool) = countDown fuel p := by
  funext t
  rw [Strict.countDown, countDown, fetchEvent_of_ne event, strict_timeEventDel event, Prog.get_bind_run,
    storeEvent_of_ne event, Prog.modify_bind_run, Prog.modify_bind_run]
  apply Prog.bind_congr
  intro e u run
  rw [storeEvent_of_ne event]

theorem countDown_sound (fuel : Nat) (p : UInt32) : Prog.Sound (countDown fuel p : Prog (Timers ω) Bool) := by
  apply (Prog.Sound.modify _).bind
  intro _
  apply (Prog.Sound.get _).bind
  intro e
  refine Prog.Sound.ite ?_ (Prog.Sound.pure false)
  refine Prog.Sound.ite ?_ ?_
  · exact (TimerCall.run_sound (.del p)).bind fun _ => Prog.Sound.pure true
  · exact (Prog.Sound.modify _).bind fun _ => Prog.Sound.pure true

section
variable {callback : Callback ω} (events : ∀ event arg t c, c ∈ (callback event arg t).1 → c.event ≠ 0)
include events

theorem strict_callEvent (event : p ≠ 0) : Prog.Checks
    (fun t => FillsOne (fuel + 1) (callback (t.events p).event (t.events p).arg t).1
      { t with world := (callback (t.events p).event (t.events p).arg t).2 })
    (Strict.callEvent callback (fuel + 1) p) (callEvent callback (fuel + 1) p) := by
  have calls (t : Timers ω) : Prog.Checks _ (Strict.runCalls (fuel + 1) _ : Prog (Timers ω) Unit) _ :=
    strict_runCalls (callback (t.events p).event (t.events p).arg t).1 (events _ _ t)
  constructor
  · intro t
    rw [Strict.callEvent, fetchEvent_of_ne event]
    exact ((calls t).followed fun _ => Prog.Sound.pure _).fault _
  · intro t fine
    rw [Strict.callEvent, fetchEvent_of_ne event]
    exact ((calls t).followed fun _ => Prog.Sound.pure _).same _ fine

theorem strict_visit (event : p ≠ 0) : Prog.Checks (VisitFills callback (fuel + 1) p)
    (Strict.visit callback (fuel + 1) p) (visit callback (fuel + 1) p) := by
  have count : Prog.Checks (fun _ => False) (Strict.countDown (fuel + 1) p : Prog (Timers ω) Bool)
      (countDown (fuel + 1) p) := by
    rw [strict_countDown event]
    exact Prog.Checks.of_sound (countDown_sound (fuel + 1) p)
  have rest (due : Bool) : Prog.Checks (fun t => due = true ∧
      FillsOne (fuel + 1) (callback (t.events p).event (t.events p).arg t).1
        { t with world := (callback (t.events p).event (t.events p).arg t).2 })
      (if due then do return ⟨p, some (← Strict.callEvent callback (fuel + 1) p)⟩
        else return ⟨p, none⟩ : Prog (Timers ω) Visit)
      (if due then do return ⟨p, some (← callEvent callback (fuel + 1) p)⟩ else return ⟨p, none⟩) := by
    cases due with
    | false => exact (Prog.Checks.of_sound (Prog.Sound.pure _)).iff fun t => by simp
    | true =>
      rw [if_pos rfl, if_pos rfl]
      apply ((strict_callEvent events event).followed fun _ => Prog.Sound.pure _).iff
      intro t
      exact and_iff_right rfl
  apply (count.bind rest).iff
  intro t
  constructor
  · rintro ⟨u, run, fills⟩
    exact .inr ⟨true, u, run, rfl, fills⟩
  · rintro (no | ⟨due, u, run, rfl, fills⟩)
    · exact no.elim
    · exact ⟨u, run, fills⟩

theorem strict_timerLoop (left : Nat) (p : UInt32) : Prog.Checks (LoopFills callback (fuel + 1) left p)
    (Strict.timerLoop callback (fuel + 1) left p) (timerLoop callback (fuel + 1) left p) := by
  induction left generalizing p with
  | zero => exact Prog.Checks.of_sound Prog.Sound.timeout
  | succ left ih =>
    unfold Strict.timerLoop timerLoop
    by_cases last : p = 0
    · rw [if_pos last, if_pos last]
      apply (Prog.Checks.of_sound (Prog.Sound.pure [])).iff
      intro t
      simp [LoopFills, last]
    · rw [if_neg last, if_neg last, fetchEvent_of_ne last]
      have rest (v : Visit) : Prog.Checks (fun u : Timers ω => LoopFills callback (fuel + 1) left (u.events p).next u)
          (do
            let e ← Prog.get fun u => u.events p
            let visits ← Strict.timerLoop callback (fuel + 1) left e.next
            return v :: visits)
          (do
            let next ← Prog.get fun u => (u.events p).next
            let visits ← timerLoop callback (fuel + 1) left next
            return v :: visits) := by
        constructor
        · intro u
          rw [Prog.get_bind_run]
          exact ((ih (u.events p).next).followed fun _ => Prog.Sound.pure _).fault u
        · intro u fine
          rw [Prog.get_bind_run, Prog.get_bind_run]
          exact ((ih (u.events p).next).followed fun _ => Prog.Sound.pure _).same u fine
      apply ((strict_visit events last).bind rest).iff
      intro t
      simp only [LoopFills, last, ne_eq, not_false_eq_true, true_and]

theorem strict_timerInterrupt : Prog.Checks (fun t => LoopFills callback (fuel + 1) (fuel + 1) t.head t)
    (Strict.timerInterrupt callback (fuel + 1)) (timerInterrupt callback (fuel + 1)) := by
  constructor
  · intro t
    exact (strict_timerLoop events (fuel + 1) t.head).fault t
  · intro t fine
    exact (strict_timerLoop events (fuel + 1) t.head).same t fine

end

end

/-- What happens to the timed events: a call from elsewhere, or the interrupt. -/
inductive TimerOp where
  | call (c : TimerCall)
  | interrupt

namespace TimerOp

/-- A call is for an event. -/
def Proper : TimerOp → Prop
  | call c => c.event ≠ 0
  | interrupt => True

section
variable (callback : Callback ω) (fuel : Nat)

def run : TimerOp → Prog (Timers ω) Unit
  | call c => c.run fuel
  | interrupt => do
    let _ ← timerInterrupt callback fuel
    return ()

def strict : TimerOp → Prog (Timers ω) Unit
  | call c => Strict.call fuel c
  | interrupt => do
    let _ ← Strict.timerInterrupt callback fuel
    return ()

/-- The call, or one that a callback makes in the interrupt, adds an event to an empty list. -/
def Fills : TimerOp → Timers ω → Prop
  | call c, t => c.Fills t
  | interrupt, t => LoopFills callback fuel fuel t.head t

end

theorem strict_checks {callback : Callback ω} {fuel : Nat}
    (events : ∀ event arg t c, c ∈ (callback event arg t).1 → c.event ≠ 0) (op : TimerOp) (proper : op.Proper) :
    Prog.Checks (op.Fills callback (fuel + 1)) (op.strict callback (fuel + 1)) (op.run callback (fuel + 1)) := by
  cases op with
  | call c => exact strict_call c proper
  | interrupt => exact (strict_timerInterrupt events).followed fun _ => Prog.Sound.pure ()

end TimerOp

/-- In any state that operations lead to, the next one goes through the null pointer when it adds an event to
an empty list, and never otherwise. Operations that do not are done without such an access. -/
theorem null_access_iff {callback : Callback ω}
    (events : ∀ event arg t c, c ∈ (callback event arg t).1 → c.event ≠ 0) (fuel : Nat) (start : Timers ω) :
    (∀ log t, Runs (TimerOp.run callback (fuel + 1)) (fun op _ => op.Proper) start log t →
      ∀ op : TimerOp, op.Proper → (op.strict callback (fuel + 1) t = .fault ↔ op.Fills callback (fuel + 1) t)) ∧
    ∀ log t, Runs (TimerOp.run callback (fuel + 1))
        (fun op t => op.Proper ∧ ¬op.Fills callback (fuel + 1) t) start log t →
      Runs (TimerOp.strict callback (fuel + 1)) (fun op _ => op.Proper) start log t := by
  constructor
  · intro log t _ op proper
    exact (op.strict_checks events proper).fault t
  · intro log t runs
    have follow : ∀ (op : TimerOp) (s t : Timers ω) (o : Unit) (s' : Timers ω), s = t →
        (op.Proper ∧ ¬op.Fills callback (fuel + 1) s) → op.run callback (fuel + 1) s = .done o s' →
        op.Proper ∧ ∃ t', op.strict callback (fuel + 1) t = .done o t' ∧ s' = t' := by
      rintro op s _ o s' rfl ⟨proper, fine⟩ run
      exact ⟨proper, s', ((op.strict_checks events proper).same s fine).trans run, rfl⟩
    obtain ⟨t', runs', rfl⟩ := Runs.simulated (· = ·) rfl follow runs
    exact runs'

/-- No event is active. -/
def noTimers : Timers Unit := ⟨0, fun _ => ⟨0, 0, 0, 0, 0⟩, ()⟩

def noCallback : Callback Unit := fun _ _ t => ([], t.world)

/-- The list is empty again when its only event is deleted. -/
theorem null_access_again : ∃ t, Runs (TimerOp.run noCallback 2) (fun op _ => op.Proper) noTimers
      [(.call (.del 0x100), ()), (.call (.add 0x100), ())] t ∧
    (TimerOp.strict noCallback 2 (.call (.add 0x100)) t = .fault ↔
      TimerOp.Fills noCallback 2 (.call (.add 0x100)) t) ∧
    TimerOp.Fills noCallback 2 (.call (.add 0x100)) t := by
  have proper : TimerOp.Proper (.call (.add 0x100)) := by
    change (0x100 : UInt32) ≠ 0
    decide
  have proper' : TimerOp.Proper (.call (.del 0x100)) := by
    change (0x100 : UInt32) ≠ 0
    decide
  have empty : noTimers.Actives [] := rfl
  have add : TimerOp.run noCallback 2 (.call (.add 0x100)) noTimers = .done () (noTimers.added 0x100) :=
    timeEventAdd_miss empty (by decide) (by decide) (by decide)
  have actives : (noTimers.added 0x100).Actives ([] ++ [0x100]) := empty.added (by decide) (by decide)
  have del : TimerOp.run noCallback 2 (.call (.del 0x100)) (noTimers.added 0x100) =
      .done () ((noTimers.added 0x100).relinked 0 ((noTimers.added 0x100).link 0x100)) :=
    timeEventDel_hit actives (by decide)
  have runs : Runs (TimerOp.run noCallback 2) (fun op _ => op.Proper) noTimers
      [(.call (.del 0x100), ()), (.call (.add 0x100), ())]
      ((noTimers.added 0x100).relinked 0 ((noTimers.added 0x100).link 0x100)) := by
    refine Runs.call (Runs.call Runs.nil ?_ add) ?_ del
    · exact proper
    · exact proper'
  refine ⟨_, runs, ?_, ⟨0x100, rfl⟩, actives.relinked⟩
  refine (null_access_iff ?_ 1 noTimers).1 _ _ runs _ proper
  intro event arg t c member
  cases member

/-- `init_sched` sets its event and adds it, the first one that there is. -/
theorem null_access_first : ∃ t, Runs (TimerOp.run noCallback 2) (fun op _ => op.Proper) noTimers
      [(.call (.set 0x100 100 1 0x10 0), ())] t ∧
    TimerOp.strict noCallback 2 (.call (.add 0x100)) t = .fault := by
  have empty : noTimers.Actives [] := rfl
  have event : (0x100 : UInt32) ≠ 0 := by decide
  have set : TimerOp.run noCallback 2 (.call (.set 0x100 100 1 0x10 0)) noTimers =
      .done () (noTimers.put 0x100 ⟨0x10, 0, 100, 100, 0⟩) :=
    timeEventSet_miss 100 1 0x10 0 empty event List.not_mem_nil Nat.zero_lt_two
  refine ⟨_, Runs.call Runs.nil ?_ set, ?_⟩
  · exact event
  · exact strict_timeEventAdd_empty event rfl

end Sos.Kernel
