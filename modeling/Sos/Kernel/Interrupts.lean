import Mathlib.Algebra.BigOperators.Group.Finset.Basic
import Sos.Kernel.Controllers
import Sos.Kernel.Gates

/-! Interrupts on the processor: the wrappers in `trap.S`, which another interrupt can come before while
they have not turned interrupts off, and the tasks that a handler can switch between. -/

namespace Sos.Kernel
open Sos.Lib

/-- How far a wrapper is: before `cli`, before the commands to the controllers, before the call, and behind it. -/
inductive Stage where
  | entered
  | closed
  | ended
  | running
deriving DecidableEq

/-- A wrapper at work, with the line that was taken and the number it pushes. -/
inductive Activation where
  | irq (line num : ℕ) (stage : Stage)
  | syscall
deriving DecidableEq

/-- The controllers, the handlers in `irqs`, and of every task what its stack holds and whether it can be
interrupted. -/
structure Cpu where
  pics : Pics
  irqs : ℕ → Option ℕ
  cur : ℕ
  stackOf : ℕ → List Activation
  flags : ℕ → Bool

/-- What happens next: a device asks, the processor takes a request, the wrapper goes on, a handler turns
interrupts on or calls the kernel, a task ends or another one goes on. -/
inductive Event where
  | raise (line : ℕ)
  | accept
  | cli
  | eoi
  | call
  | iret
  | sti
  | syscall
  | irq (c : IrqCall)
  | bind (num : ℕ) (handler : Option ℕ)
  | switch (i : ℕ)
  | exit (i : ℕ)

/-- What there is to see of it. -/
inductive Report where
  | quiet
  | took (line : ℕ)
  | ran (line num : ℕ) (handler : Option ℕ)

namespace Cpu

def stack (s : Cpu) : List Activation := s.stackOf s.cur

def enabled (s : Cpu) : Bool := s.flags s.cur

def withStack (s : Cpu) (stack : List Activation) (enabled : Bool) : Cpu :=
  { s with stackOf := Function.update s.stackOf s.cur stack, flags := Function.update s.flags s.cur enabled }

end Cpu

/-- A task can be left and interrupts be turned on in a handler and in a system call. -/
def inKernel : List Activation → Bool
  | .irq _ _ .running :: _ => true
  | .syscall :: _ => true
  | _ => false

/-- The wrappers are at the addresses `addr`, and `code` is what is found at an address. -/
def step (addr : Trap → UInt32) (code : ℕ → Option Trap) : Event → Prog Cpu Report
  | .raise line => do
    Prog.modify fun s => { s with pics := s.pics.raise line }
    return .quiet
  | .accept => fun s =>
    if s.enabled then
      match s.pics.acknowledge with
      | some (line, v, pics) =>
        let gate := Gate.ofBytes (idt addr v)
        -- without a gate there is an exception, and its handler panics
        if gate.present = 0 then .exit { s with pics := pics }
        else match code gate.offset with
          | some (.irq num) => .done (.took line)
              ({ s with pics := pics }.withStack (.irq line num .entered :: s.stack) (gate.type ≠ 14))
          | _ => .fault
      | none => .fault
    else .fault
  | .cli => fun s => match s.stack with
    | .irq line num .entered :: rest => .done .quiet (s.withStack (.irq line num .closed :: rest) false)
    | _ => .fault
  | .eoi => fun s => match s.stack with
    | .irq line num .closed :: rest => match endIrq num s.pics with
      | .done _ pics => .done .quiet ({ s with pics := pics }.withStack (.irq line num .ended :: rest) s.enabled)
      | _ => .fault
    | _ => .fault
  | .call => fun s => match s.stack with
    | .irq line num .ended :: rest =>
      -- behind the end of `irqs` there is no telling what is called
      if num < maxIrqNum then
        .done (.ran line num (s.irqs num)) (s.withStack (.irq line num .running :: rest) s.enabled)
      else .fault
    | _ => .fault
  | .iret => fun s => match s.stack with
    | .irq _ _ .running :: rest => .done .quiet (s.withStack rest true)
    | .syscall :: rest => .done .quiet (s.withStack rest true)
    | _ => .fault
  | .sti => fun s => if inKernel s.stack then .done .quiet (s.withStack s.stack true) else .fault
  | .syscall => fun s => match s.stack with
    | [] =>
      let gate := Gate.ofBytes (idt addr 128)
      if gate.present = 1 ∧ gate.dpl = 3 ∧ code gate.offset = some .syscall then
        .done .quiet (s.withStack [.syscall] (gate.type ≠ 14))
      else .fault
    | _ => .fault
  | .irq c => fun s => match Pics.switched c s.pics with
    | .done _ pics => .done .quiet { s with pics := pics }
    | _ => .fault
  | .bind num handler => fun s =>
    if num < maxIrqNum then .done .quiet { s with irqs := Function.update s.irqs num handler } else .fault
  | .switch i => fun s => if inKernel s.stack then .done .quiet { s with cur := i } else .fault
  | .exit i => fun s => match s.stack with
    | [.syscall] => .done .quiet { s.withStack [] true with cur := i }
    | _ => .fault

/-- The lines of wrappers that have still to end their interrupt. -/
def pendingOf (stack : List Activation) : List ℕ := stack.filterMap fun
  | .irq line _ .entered => some line
  | .irq line _ .closed => some line
  | _ => none

/-- The lines of wrappers that have still to call. -/
def uncalledOf (stack : List Activation) : List ℕ := stack.filterMap fun
  | .irq _ _ .running => none
  | .irq line _ _ => some line
  | .syscall => none

/-- `SCHED_MAX_PROCS`. -/
def numTasks : ℕ := 4

/-- What all the tasks have of something. -/
def Cpu.total (f : List Activation → List ℕ) (s : Cpu) : Multiset ℕ :=
  ∑ i ∈ Finset.range numTasks, (f (s.stackOf i) : Multiset ℕ)

def Cpu.pending (s : Cpu) : Multiset ℕ := s.total pendingOf

def Cpu.uncalled (s : Cpu) : Multiset ℕ := s.total uncalledOf

/-- The line of the first controller that is in service for a line. -/
def level (line : ℕ) : ℕ := if line < 8 then line else Pics.wire

def tookLines : List (Event × Report) → Multiset ℕ
  | [] => 0
  | (_, .took line) :: log => line ::ₘ tookLines log
  | (_, .ran _ _ _) :: log => tookLines log
  | (_, .quiet) :: log => tookLines log

def ranLines : List (Event × Report) → Multiset ℕ
  | [] => 0
  | (_, .ran line _ _) :: log => line ::ₘ ranLines log
  | (_, .took _) :: log => ranLines log
  | (_, .quiet) :: log => ranLines log

end Sos.Kernel
