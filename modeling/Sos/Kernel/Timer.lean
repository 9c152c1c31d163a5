import Sos.Lib.Chain
import Sos.Lib.Prog

/-! Timed events: the calls on the list of active events, and `timer_interrupt`. -/

namespace Sos.Kernel
open Sos.Lib

/-- `time_event_t`. -/
structure TimeEvent where
  event : UInt32
  arg : UInt32
  tRemaining : UInt32
  tInterval : UInt32
  next : UInt32

/-- The active list, the events by their addresses, and all that callbacks know besides. -/
structure Timers (ω : Type) where
  head : UInt32
  events : UInt32 → TimeEvent
  world : ω

namespace Timers
variable {ω : Type}

def put (p : UInt32) (e : TimeEvent) (t : Timers ω) : Timers ω :=
  { t with events := fun x => if x = p then e else t.events x }

def setNext (p v : UInt32) (t : Timers ω) : Timers ω := t.put p { t.events p with next := v }

/-- The link behind an event; the null address stands for `head`. -/
def link (t : Timers ω) (p : UInt32) : UInt32 := if p = 0 then t.head else (t.events p).next

end Timers
open Timers

section
variable {ω : Type}

def timeEventRepeat : UInt32 := 1

/-- `for( j = NULL, p = head; p != NULL && p != e; j = p, p = p->next )`. -/
def findEvent (fuel : Nat) (e : UInt32) : Prog (Timers ω) (UInt32 × UInt32) := fun t =>
  match walk t.link 0 (fun p => p = e) fuel t.head 0 with
  | some found => .done found t
  | none => .timeout

def timeEventSet (fuel : Nat) (e interval repeats funct arg : UInt32) : Prog (Timers ω) Unit := do
  let (p, _) ← findEvent fuel e
  if p = e then return ()
  else Prog.modify (put e ⟨funct, arg, interval, if repeats = timeEventRepeat then interval else 0, 0⟩)

def timeEventDel (fuel : Nat) (e : UInt32) : Prog (Timers ω) Unit := do
  let (p, j) ← findEvent fuel e
  if p ≠ e then return ()
  else if j = 0 then Prog.modify fun t => { t with head := (t.events t.head).next }
  else Prog.modify fun t => t.setNext j (t.events p).next

/-- `head->next = NULL` goes to the null address. -/
def timeEventAdd (fuel : Nat) (e : UInt32) : Prog (Timers ω) Unit := do
  let (p, _) ← findEvent fuel e
  if p = e then return ()
  else
    Prog.modify fun t => if t.head = 0 then t.setNext t.head 0 else t
    Prog.modify fun t => { t.setNext e t.head with head := e }

/-- What a callback may ask for. -/
inductive TimerCall where
  | set (e interval repeats funct arg : UInt32)
  | add (e : UInt32)
  | del (e : UInt32)

def TimerCall.run (fuel : Nat) : TimerCall → Prog (Timers ω) Unit
  | .set e interval repeats funct arg => timeEventSet fuel e interval repeats funct arg
  | .add e => timeEventAdd fuel e
  | .del e => timeEventDel fuel e

def runCalls (fuel : Nat) : List TimerCall → Prog (Timers ω) Unit
  | [] => return ()
  | c :: calls => do
    c.run fuel
    runCalls fuel calls

/-- What a function called with this argument does: the calls it makes, and the rest of the
kernel afterwards. -/
abbrev Callback (ω : Type) := (event arg : UInt32) → Timers ω → List TimerCall × ω

variable (callback : Callback ω)

/-- `p->event( p->arg )`, with the calls made there. -/
def callEvent (fuel : Nat) (p : UInt32) : Prog (Timers ω) (List TimerCall) := do
  let (calls, world) ← Prog.get fun t => callback (t.events p).event (t.events p).arg t
  Prog.modify fun t => { t with world := world }
  runCalls fuel calls
  return calls

/-- The part of a round before the callback; whether the event is due. -/
def countDown (fuel : Nat) (p : UInt32) : Prog (Timers ω) Bool := do
  Prog.modify fun t => t.put p { t.events p with tRemaining := (t.events p).tRemaining - 1 }
  let e ← Prog.get fun t => t.events p
  if e.tRemaining = 0 then
    if e.tInterval = 0 then timeEventDel fuel p
    else Prog.modify (put p { e with tRemaining := e.tInterval })
    return true
  else return false

/-- An event counted down, and the calls of its callback where that ran. -/
structure Visit where
  event : UInt32
  calls : Option (List TimerCall)

def visit (fuel : Nat) (p : UInt32) : Prog (Timers ω) Visit := do
  if ← countDown fuel p then return ⟨p, some (← callEvent callback fuel p)⟩
  else return ⟨p, none⟩

/-- The rounds from `p` on, `left` of them at most. -/
def timerLoop (fuel : Nat) : Nat → UInt32 → Prog (Timers ω) (List Visit)
  | 0, _ => Prog.timeout
  | left + 1, p =>
    if p = 0 then return []
    else do
      let v ← visit callback fuel p
      let visits ← timerLoop fuel left (← Prog.get fun t => (t.events p).next)
      return v :: visits

/-- All that is counted down, in this order. -/
def timerInterrupt (fuel : Nat) : Prog (Timers ω) (List Visit) := do
  timerLoop callback fuel fuel (← Prog.get Timers.head)

end

end Sos.Kernel
