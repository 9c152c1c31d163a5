import Sos.Kernel.Memman

/-! Processes: `create_process`, `destroy_process` and the scheduler. -/

namespace Sos.Kernel
open Sos.Lib Machine

def dataLen : UInt32 := 0x10000

def kdataSelector : UInt32 := 0x10

def ucodeSelector : UInt32 := 0x18

def udataSelector : UInt32 := 0x20

def tssSelector : UInt32 := 0x28

def tssSize : UInt32 := 104

def dplUser : UInt32 := 3

def schedMaxProcs : UInt32 := 4

/-- `memcpy`: byte after byte, upwards. -/
def copyBytes : Nat → UInt32 → UInt32 → Mem → Mem
  | 0, _, _, m => m
  | n + 1, dest, src, m => copyBytes n (dest + 1) (src + 1) fun x => if x = dest then m src else m x

def memcpy (dest src n : UInt32) : Prog Machine Unit :=
  Prog.modify fun s => s.withMem (copyBytes n.toNat dest src s.mem)

/-- `memcpy( p->addr_space, &as, sizeof(addr_space_t) )`. -/
def putAddrSpace (p : UInt32) (as : AddrSpace) : Prog Machine Unit := do
  assign p 0 as.pd
  assign p 1 as.numFrames
  assign p 2 as.frames
  assign p 3 as.numPts
  assign p 4 as.pts

/-- The program copied to the frames from `i` on, `left` of them. `copyLeft` has no sign
and `text` does not advance. -/
def copyText (as : AddrSpace) (text : UInt32) : Nat → UInt32 → UInt32 → Prog Machine Unit
  | 0, _, _ => return ()
  | left + 1, i, copyLeft => do
    memcpy (← fetch as.frames i) text (if copyLeft > frameLen then frameLen else copyLeft)
    copyText as text left (i + 1) (copyLeft - frameLen)

/-- The words of the `tss_t` that `create_process` sets, in this order: `esp0`, `ss0`,
`esp`, `ss`, `es`, `ds`, `fs`, `gs`, `cs`, `eip`, `eflags`, `cr3`. -/
def tssFields (tLen eip pd : UInt32) : List (UInt32 × UInt32) :=
  [(1, memspaceUserMem + tLen + dataLen), (2, kdataSelector), (14, memspaceUserMem + tLen + dataLen / 2),
    (20, udataSelector ||| 3), (18, udataSelector ||| 3), (21, udataSelector ||| 3),
    (22, udataSelector ||| 3), (23, udataSelector ||| 3), (19, ucodeSelector ||| 3), (8, eip),
    (9, 0x200), (7, pd)]

/-- `((proc_info_t*)p->arch_info)->tss->field = value` for each of them. -/
def setFields (archInfo : UInt32) : List (UInt32 × UInt32) → Prog Machine Unit
  | [] => return ()
  | (field, value) :: rest => do
    assign (← fetch archInfo 0) field value
    setFields archInfo rest

/-- The part of `create_process` that allocates the `proc_info_t` and the `tss_t`. -/
def makeTss (fuel : Nat) (tLen pd : UInt32) : Prog Machine UInt32 := do
  let archInfo ← kalloc fuel 4
  let tss ← kalloc fuel tssSize
  assign archInfo 0 tss
  setFields archInfo (tssFields tLen (← Prog.get Machine.schedStartProc) pd)
  return archInfo

/-- The process behind the pointer is given and returned. -/
def createProcess (unheld : Prog Machine Unit) (fuel : Nat) (p : Process) (text tLen : UInt32) :
    Prog Machine (Int × Process) := do
  let (r, as) ← allocAddrSpace unheld fuel (tLen + dataLen)
  if r = retFailure then return (retFailure, p)
  let addrSpace ← kalloc fuel 20
  putAddrSpace addrSpace as
  copyText as text as.numFrames.toNat 0 tLen
  let archInfo ← makeTss fuel tLen as.pd
  return (retSuccess, { p with addrSpace := addrSpace, archInfo := archInfo })

def destroyProcess (unheld : Prog Machine Unit) (fuel : Nat) (p : Process) : Prog Machine Unit := do
  kfree unheld fuel (← fetch p.archInfo 0)
  kfree unheld fuel p.archInfo
  kfree unheld fuel p.addrSpace

def Machine.setGdt (i : Nat) (d : Descriptor) (s : Machine) : Machine :=
  { s with gdt := fun k => if k = i then d else s.gdt k }

/-- `__set_selector`. -/
def setSelector (i : Nat) (base limit type dpl : UInt32) : Prog Machine Unit :=
  Prog.modify (setGdt i ⟨base, limit, type, dpl, 1, 1⟩)

def tssEntry (pid : UInt32) : Nat := (tssSelector / 8 + pid).toNat

def archSchedAdd (p : Process) : Prog Machine Unit := do
  setSelector (tssEntry p.pid) (← fetch p.archInfo 0) tssSize 0x9 dplUser

/-- The first entry without a process, apart from entry 0. -/
def nullEntry (s : Machine) : Option Nat :=
  (List.range' 1 3).find? fun i => (s.proctab i).status = .null

def Machine.setProc (i : Nat) (p : Process) (s : Machine) : Machine :=
  { s with proctab := fun k => if k = i then p else s.proctab k }

def schedAdd (p : Process) : Prog Machine Int := do
  match ← Prog.get nullEntry with
  | some i =>
    let entry : Process := { p with status := .run, pid := UInt32.ofNat i }
    Prog.modify (setProc i entry)
    archSchedAdd entry
    return retSuccess
  | none => return retFailure

/-- The TSS is made available; the task switch itself is left to the processor. -/
def contextSwitch (p : Process) : Prog Machine Unit :=
  Prog.modify fun s => setGdt (tssEntry p.pid) { s.gdt (tssEntry p.pid) with type := 0x9 } s

/-- Around the table from the entry behind `curproc`; whether an entry on the way waits. -/
def nextProc (maxProcs lastproc : UInt32) : Nat → Bool → Prog Machine Bool
  | 0, _ => Prog.timeout
  | left + 1, waiting => do
    Prog.modify fun s => { s with curproc := (s.curproc + 1) % maxProcs }
    let cur ← Prog.get Machine.curproc
    let p ← Prog.get fun s => s.proctab cur.toNat
    let waiting := waiting || p.status = .wait
    if (p.status ≠ .run ∨ cur = 0) ∧ lastproc ≠ cur then nextProc maxProcs lastproc left waiting
    else return waiting

/-- How `schedule` ends: at a switch to another process, with a return to the same one, with
a return after an interrupt was waited for, or with `kend`, which does not return. -/
inductive SchedExit where
  | switched
  | same
  | waited
  | ended
  deriving DecidableEq

/-- In a table of `maxProcs` entries. All of them are seen after one time around. -/
def schedule (maxProcs : UInt32) : Prog Machine SchedExit := do
  let lastproc ← Prog.get Machine.curproc
  let waiting ← nextProc maxProcs lastproc maxProcs.toNat false
  let cur ← Prog.get Machine.curproc
  let p ← Prog.get fun s => s.proctab cur.toNat
  if p.status ≠ .run then
    if waiting then return .waited
    else return .ended
  else if lastproc = cur then return .same
  else
    contextSwitch p
    return .switched

def processKill (maxProcs : UInt32) (unheld : Prog Machine Unit) (fuel : Nat) (pid : UInt32) :
    Prog Machine SchedExit := do
  if pid < maxProcs then
    let _ ← freeAddrSpace unheld fuel (← Prog.get fun s => (s.proctab pid.toNat).addrSpace)
    let p ← Prog.get fun s => s.proctab pid.toNat
    Prog.modify (setProc pid.toNat { p with status := .null })
    destroyProcess unheld fuel p
    schedule maxProcs
  else Prog.fault

end Sos.Kernel
