import Sos.Kernel.Gates
import Sos.Kernel.Resumed
import Sos.Lib.Stack

/-! Processes on the processor. Each has a task state segment, where a jump to another task leaves
the registers, and in its own pages the stack that the kernel uses when it is interrupted. -/

namespace Sos.Kernel
open Sos.Lib Sos.Lib.Stack Machine

/-- What a jump to another task saves, with the names in `tss_t`. -/
structure Registers where
  eip : UInt32
  eflags : UInt32
  eax : UInt32
  ecx : UInt32
  edx : UInt32
  ebx : UInt32
  esp : UInt32
  ebp : UInt32
  esi : UInt32
  edi : UInt32
  es : UInt32
  cs : UInt32
  ss : UInt32
  ds : UInt32
  fs : UInt32
  gs : UInt32
  deriving DecidableEq

namespace Registers

/-- The words of a `tss_t` that they go to. -/
def fields (r : Registers) : List (UInt32 × UInt32) :=
  [(8, r.eip), (9, r.eflags), (10, r.eax), (11, r.ecx), (12, r.edx), (13, r.ebx), (14, r.esp), (15, r.ebp),
    (16, r.esi), (17, r.edi), (18, r.es), (19, r.cs), (20, r.ss), (21, r.ds), (22, r.fs), (23, r.gs)]

def load (m : Mem) (tss : UInt32) : Registers where
  eip := m.load (tss + 4 * 8)
  eflags := m.load (tss + 4 * 9)
  eax := m.load (tss + 4 * 10)
  ecx := m.load (tss + 4 * 11)
  edx := m.load (tss + 4 * 12)
  ebx := m.load (tss + 4 * 13)
  esp := m.load (tss + 4 * 14)
  ebp := m.load (tss + 4 * 15)
  esi := m.load (tss + 4 * 16)
  edi := m.load (tss + 4 * 17)
  es := m.load (tss + 4 * 18)
  cs := m.load (tss + 4 * 19)
  ss := m.load (tss + 4 * 20)
  ds := m.load (tss + 4 * 21)
  fs := m.load (tss + 4 * 22)
  gs := m.load (tss + 4 * 23)

/-- In ring 3. -/
def InUser (r : Registers) : Prop := r.cs = ucodeSelector ||| 3 ∧ r.ss = udataSelector ||| 3

/-- In ring 0. -/
def InKernel (r : Registers) : Prop := r.cs = kcodeSelector ∧ r.ss = kdataSelector

/-- A selector that a data register can hold in this ring: a null one, or that of a segment which is open to it. -/
def DataOpen (ring sel : UInt32) : Prop :=
  sel / 4 = 0 ∨ sel / 4 = ucodeSelector / 4 ∨ sel / 4 = udataSelector / 4 ∨
    ring = 0 ∧ (sel = kcodeSelector ∨ sel = kdataSelector)

/-- The segments are ones that `init_cpu` made, and may be used together. With the flag VM they were none at all. -/
def Loadable (r : Registers) : Prop :=
  (r.InUser ∨ r.InKernel) ∧ r.eflags &&& 0x20000 = 0 ∧ DataOpen (r.cs &&& 3) r.es ∧ DataOpen (r.cs &&& 3) r.ds ∧
    DataOpen (r.cs &&& 3) r.fs ∧ DataOpen (r.cs &&& 3) r.gs

instance (r : Registers) : Decidable r.InUser := inferInstanceAs (Decidable (_ ∧ _))

instance (r : Registers) : Decidable r.InKernel := inferInstanceAs (Decidable (_ ∧ _))

instance (ring sel : UInt32) : Decidable (DataOpen ring sel) := inferInstanceAs (Decidable (_ ∨ _))

instance (r : Registers) : Decidable r.Loadable := inferInstanceAs (Decidable (_ ∧ _))

/-- The flag NT, with which `iret` goes back to another task. -/
def Nested (r : Registers) : Prop := r.eflags &&& 0x4000 ≠ 0

instance (r : Registers) : Decidable r.Nested := inferInstanceAs (Decidable (_ ≠ _))

/-- Without the flags TF, IF, NT, RF and VM. -/
def quiet (eflags : UInt32) : UInt32 := eflags &&& 0xFFFCBCFF

/-- What is pushed when a user is interrupted: five words by the processor, and seven by `PUSHA`. -/
def frame (r : Registers) : List UInt32 :=
  [r.ss, r.esp, r.eflags, r.cs, r.eip, r.eax, r.ecx, r.ebx, r.edx, r.ebp, r.esi, r.edi]

/-- Behind that, with the `cli` of the wrapper. -/
def entered (wrapper esp0 ss0 : UInt32) (r : Registers) : Registers :=
  { r with eip := wrapper, eflags := quiet r.eflags, esp := esp0 - 48, cs := kcodeSelector, ss := ss0 }

/-- What `POPA` and `iret` make of the words on the stack. -/
def pop (r : Registers) : List UInt32 → Option Registers
  | [edi, esi, ebp, edx, ebx, ecx, eax, eip, cs, eflags, esp, ss] =>
    some { r with edi := edi, esi := esi, ebp := ebp, edx := edx, ebx := ebx, ecx := ecx, eax := eax, eip := eip,
                  cs := cs, eflags := eflags, esp := esp, ss := ss }
  | _ => none

end Registers

/-- The words of a `tss_t` that are read and never saved: the kernel's stack, the page directory, the selector of
a local descriptor table, and the debug trap. -/
def esp0Field : UInt32 := 1

def ss0Field : UInt32 := 2

def cr3Field : UInt32 := 7

def ldtField : UInt32 := 24

def traceField : UInt32 := 25

def available : UInt32 := 0x9

def busy : UInt32 := 0xB

def Machine.setType (i : Nat) (type : UInt32) (s : Machine) : Machine :=
  setGdt i { s.gdt i with type := type } s

/-- The machine and what its processor holds: registers, page directory, and in the task register the
entry of the descriptor table with the address that was found there. -/
structure Tasks where
  machine : Machine
  regs : Registers
  cr3 : UInt32
  entry : Nat
  tss : UInt32

namespace Tasks

def onMachine {α : Type} (x : Prog Machine α) : Prog Tasks α :=
  Prog.zoom Tasks.machine (fun s m => { s with machine := m }) x

def cur (s : Tasks) : Nat := s.machine.curproc.toNat

/-- Where the process in entry `i` has its `tss_t`. -/
def tssOf (i : Nat) (s : Tasks) : UInt32 := s.machine.mem.load (s.machine.proctab i).archInfo

/-- The registers of a process, which are in its `tss_t` unless it is the current one. -/
def regsOf (i : Nat) (s : Tasks) : Registers :=
  if s.cur = i then s.regs else Registers.load s.machine.mem (s.tssOf i)

def cr3Of (i : Nat) (s : Tasks) : UInt32 :=
  if s.cur = i then s.cr3 else s.machine.mem.load (s.tssOf i + 4 * cr3Field)

/-- The byte that the process finds at an address, when there is one. -/
def byteOf (i : Nat) (s : Tasks) (va : UInt32) : Option UInt8 :=
  (pageWalk s.machine.mem (s.cr3Of i) va).map fun place => s.machine.mem (place.frame + (va &&& 0xFFF))

/-- Where the stack of the kernel begins for a process. -/
def stackOf (i : Nat) (s : Tasks) : UInt32 := s.machine.mem.load (s.tssOf i + 4 * esp0Field)

def stored (a : UInt32) (v : UInt8) (s : Tasks) : Tasks :=
  { s with machine := s.machine.withMem fun x => if x = a then v else s.machine.mem x }

end Tasks
open Tasks

/-- No descriptor is that of a local table, which a selector that is not null asks for; the bit T asks for a trap. -/
def Rejected (m : Mem) (tss : UInt32) : Prop :=
  m.load (tss + 4 * ldtField) &&& 0xFFFC ≠ 0 ∨ m.load (tss + 4 * traceField) &&& 1 ≠ 0

instance (m : Mem) (tss : UInt32) : Decidable (Rejected m tss) := inferInstanceAs (Decidable (_ ∨ _))

/-- `selector[1]`: the descriptor of a process, asked for with a user's rights. -/
def taskSelector (pid : UInt32) : UInt32 := (tssSelector + pid * 8) ||| 3

/-- `ljmp` to a task: the registers go to the `tss_t` of the task that is left, which can be entered again,
and those of the other one are loaded. It has to be one that is not busy, open to the selector's rights. Where
the processor does not accept what it has loaded, its exception ends in `panic`. -/
def ljmp (selector : UInt32) : Prog Tasks Unit := fun s =>
  let i := (selector >>> 3).toNat
  let d := s.machine.gdt i
  if d.type = available ∧ selector &&& 3 ≤ d.dpl then
    let m := s.machine.mem.storeAll (fieldWrites s.tss s.regs.fields)
    let t : Tasks := {
      machine := ((s.machine.setType s.entry available).setType i busy).withMem m
      regs := Registers.load m d.base
      cr3 := m.load (d.base + 4 * cr3Field)
      entry := i
      tss := d.base }
    if Rejected m d.base ∨ ¬t.regs.Loadable then .exit t
    else .done () t
  else .fault

/-- What comes of `schedule`, where `context_switch` ends with the jump. `kend` does not return. -/
def settle : SchedExit → Prog Tasks Unit
  | .switched => do
    let p ← Prog.get fun s => s.machine.proctab s.cur
    ljmp (taskSelector p.pid)
  | .same => return ()
  | .waited => return ()
  | .ended => Prog.exit

/-- What can happen next: a process is made; the current one is interrupted, with a wrapper for the interrupt; the
kernel stores a byte for it; the process asks to be killed; the timer calls the scheduler; the wrapper comes to its
end; the process, or the kernel for it, computes; and the process writes a byte. -/
inductive Turn where
  | spawn (p : Process) (text tLen : UInt32)
  | interrupt (wrapper : UInt32)
  | store (va : UInt32) (v : UInt8)
  | exit
  | tick
  | iret
  | work (regs : Registers)
  | write (va : UInt32) (v : UInt8)

/-- A process with its registers and its memory. -/
structure Seen where
  pid : Nat
  regs : Registers
  bytes : UInt32 → Option UInt8

def Tasks.seen (i : Nat) (s : Tasks) : Seen := ⟨i, s.regsOf i, s.byteOf i⟩

/-- `interrupt_syscall` for call 1. -/
def syscallExit (fuel : Nat) : Prog Tasks Unit := do
  let pid ← Prog.get fun s => s.machine.curproc
  settle (← onMachine (processKill schedMaxProcs goOn fuel pid))

/-- What `sched_event` calls. -/
def timeSlice : Prog Tasks Unit := do
  settle (← onMachine (schedule schedMaxProcs))

/-- A store through the page directory. Where the walk finds no page for it, `interrupt_page` halts the machine. -/
def storeAt (right : Translation → Bool) (va : UInt32) (v : UInt8) : Prog Tasks Unit := fun s =>
  match pageWalk s.machine.mem s.cr3 va with
  | some place => if right place then .done () (s.stored (place.frame + (va &&& 0xFFF)) v) else .exit s
  | none => .exit s

/-- A user's store. -/
def userStore (va : UInt32) (v : UInt8) : Prog Tasks Unit := storeAt (fun place => place.user && place.writable) va v

/-- The kernel may write to any page. -/
def kernelStore (va : UInt32) (v : UInt8) : Prog Tasks Unit := storeAt (fun _ => true) va v

def kernelStores : List (UInt32 × UInt8) → Prog Tasks Unit
  | [] => return ()
  | p :: l => do
    kernelStore p.1 p.2
    kernelStores l

/-- An interrupt in ring 3, or `int 0x80`: the processor goes to the stack in the `tss_t` and pushes there, and so
does the wrapper. -/
def enter (wrapper : UInt32) : Prog Tasks Unit := do
  let user ← Prog.get Tasks.regs
  let esp0 ← Prog.get fun s => s.machine.mem.load (s.tss + 4 * esp0Field)
  let ss0 ← Prog.get fun s => s.machine.mem.load (s.tss + 4 * ss0Field)
  kernelStores (pushes esp0 user.frame)
  Prog.modify fun s => { s with regs := user.entered wrapper esp0 ss0 }

/-- What the stack has for the user. -/
def Tasks.popped (s : Tasks) : Option Registers := do
  let regs ← s.regs.pop (← View.words (s.byteOf s.cur) 12 s.regs.esp)
  if ¬s.regs.Nested ∧ regs.InUser ∧ regs.Loadable then return regs else none

/-- The end of a wrapper. -/
def leave : Prog Tasks Unit := fun s =>
  match s.popped with
  | some regs => .done () { s with regs := regs }
  | none => .exit s

/-- The new process is seen, or the one that goes on. -/
def perform (fuel : Nat) : Turn → Prog Tasks Seen
  | .spawn p text tLen => do
    let (_, p) ← onMachine (createProcess goOn fuel p text tLen)
    let entry ← Prog.get fun s => nullEntry s.machine
    let _ ← onMachine (schedAdd p)
    Prog.get (Tasks.seen (entry.getD 0))
  | .interrupt wrapper => do
    enter wrapper
    Prog.get fun s => s.seen s.cur
  | .store va v => do
    kernelStore va v
    Prog.get fun s => s.seen s.cur
  | .exit => do
    syscallExit fuel
    Prog.get fun s => s.seen s.cur
  | .tick => do
    timeSlice
    Prog.get fun s => s.seen s.cur
  | .iret => do
    leave
    Prog.get fun s => s.seen s.cur
  | .work regs => do
    Prog.modify fun s => { s with regs := regs }
    Prog.get fun s => s.seen s.cur
  | .write va v => do
    userStore va v
    Prog.get fun s => s.seen s.cur

/-- The registers that the process had last, when it computed, was made, was interrupted or returned. -/
def lastRegs (i : Nat) : List (Turn × Seen) → Option Registers
  | [] => none
  | (.spawn _ _ _, r) :: log => if r.pid = i then some r.regs else lastRegs i log
  | (.interrupt _, r) :: log => if r.pid = i then some r.regs else lastRegs i log
  | (.store _ _, _) :: log => lastRegs i log
  | (.exit, _) :: log => lastRegs i log
  | (.tick, _) :: log => lastRegs i log
  | (.iret, r) :: log => if r.pid = i then some r.regs else lastRegs i log
  | (.work regs, r) :: log => if r.pid = i then some regs else lastRegs i log
  | (.write _ _, _) :: log => lastRegs i log

/-- The registers with which the process was interrupted last. -/
def interrupted (i : Nat) : List (Turn × Seen) → Option Registers
  | [] => none
  | (.interrupt _, r) :: log => if r.pid = i then lastRegs i log else interrupted i log
  | (.spawn _ _ _, _) :: log => interrupted i log
  | (.store _ _, _) :: log => interrupted i log
  | (.exit, _) :: log => interrupted i log
  | (.tick, _) :: log => interrupted i log
  | (.iret, _) :: log => interrupted i log
  | (.work _, _) :: log => interrupted i log
  | (.write _ _, _) :: log => interrupted i log

/-- The byte that the process wrote last at an address, or found there when it was made. -/
def lastByte (i : Nat) (va : UInt32) : List (Turn × Seen) → Option UInt8
  | [] => none
  | (.spawn _ _ _, r) :: log => if r.pid = i then r.bytes va else lastByte i va log
  | (.interrupt _, _) :: log => lastByte i va log
  | (.store _ _, _) :: log => lastByte i va log
  | (.exit, _) :: log => lastByte i va log
  | (.tick, _) :: log => lastByte i va log
  | (.iret, _) :: log => lastByte i va log
  | (.work _, _) :: log => lastByte i va log
  | (.write va' v, r) :: log => if r.pid = i ∧ va' = va then some v else lastByte i va log

/-- The same with what the kernel stored for the process, and pushed when it was interrupted. -/
def lastStored : List (Turn × Seen) → Nat → View
  | [] => fun _ _ => none
  | (.spawn _ _ _, r) :: log => Function.update (lastStored log) r.pid r.bytes
  | (.interrupt _, r) :: log => Function.update (lastStored log) r.pid
    ((lastStored log r.pid).after (pushes (r.regs.esp + 48) (((lastRegs r.pid log).map Registers.frame).getD [])))
  | (.store va v, r) :: log => Function.update (lastStored log) r.pid ((lastStored log r.pid).after [(va, v)])
  | (.exit, _) :: log => lastStored log
  | (.tick, _) :: log => lastStored log
  | (.iret, _) :: log => lastStored log
  | (.work _, _) :: log => lastStored log
  | (.write va v, r) :: log => Function.update (lastStored log) r.pid ((lastStored log r.pid).after [(va, v)])

end Sos.Kernel
