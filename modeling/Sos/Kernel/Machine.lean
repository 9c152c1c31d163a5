import Sos.Kernel.Alloc

/-! The kernel's state, `kalloc` on it, and the frame map. -/

namespace Sos.Kernel
open Sos.Lib

/-- `frame_t` without its reserved bits. -/
@[ext] structure Frame where
  ns : Bool
  count : UInt8
  deriving DecidableEq

inductive ProcStatus where
  | null
  | run
  | wait
  | zombie
  deriving DecidableEq

/-- `process_t`, as far as the kernel looks at it. -/
structure Process where
  archInfo : UInt32
  status : ProcStatus
  addrSpace : UInt32
  pid : UInt32

/-- What `set_selector` is given for a segment. -/
structure Descriptor where
  base : UInt32
  limit : UInt32
  type : UInt32
  dpl : UInt32
  opsize : UInt32
  gran : UInt32

/-- Physical memory, which the kernel sees at the same addresses, and the kernel's
variables. The frame map is kept apart from the memory. -/
structure Machine where
  mem : Mem
  kallocBase : UInt32
  kallocInited : Bool
  memmanInited : Bool
  frameCount : UInt32
  frameMap : Nat → Frame
  kernPageDir : UInt32
  schedStartProc : UInt32
  proctab : Nat → Process
  curproc : UInt32
  gdt : Nat → Descriptor

namespace Machine

def withMem (s : Machine) (m : Mem) : Machine := { s with mem := m }

def onMem {α : Type} (x : Prog Mem α) : Prog Machine α := Prog.zoom Machine.mem withMem x

/-- `p[i]` for words; nothing lies behind a pointer that `kalloc` could not give. -/
def fetch (p i : UInt32) : Prog Machine UInt32 :=
  if p = 0 then Prog.fault else Prog.get fun s => s.mem.load (p + 4 * i)

def assign (p i v : UInt32) : Prog Machine Unit :=
  if p = 0 then Prog.fault else Prog.modify fun s => s.withMem (s.mem.store (p + 4 * i) v)

/-- `p[i]` where `p` is the address of a frame. -/
def frameWord (p i : UInt32) : Prog Machine UInt32 := Prog.get fun s => s.mem.load (p + 4 * i)

def setFrameWord (p i v : UInt32) : Prog Machine Unit :=
  Prog.modify fun s => s.withMem (s.mem.store (p + 4 * i) v)

end Machine
open Machine

/-- Before `kalloc_init` there is only a warning. -/
def kalloc (fuel : Nat) (size : UInt32) : Prog Machine UInt32 := fun s =>
  if s.kallocInited then onMem (alloc fuel s.kallocBase size) s else .done 0 s

/-- `unheld` is what happens when `free` finds no such block: a warning is printed. -/
def kfree (unheld : Prog Machine Unit) (fuel : Nat) (slot : UInt32) : Prog Machine Unit := fun s =>
  if s.kallocInited then
    ((do
      let r ← onMem (free fuel s.kallocBase slot)
      if r = -1 then unheld) : Prog Machine Unit) s
  else .done () s

def frameLen : UInt32 := 4096

def ptEntries : UInt32 := 1024

def pdEntries : UInt32 := 1024

def memspaceUserMem : UInt32 := 0x40000000

/-- Index of the first directory entry past the kernel's gigabyte. -/
def kernPdOffset : UInt32 := memspaceUserMem / (frameLen * ptEntries)

def frameNoSwap : UInt32 := 1

def frameUser : UInt32 := 0

/-- The first frame without references; `none` is the error. -/
def getFreeFrame (s : Machine) : Option Nat :=
  if s.memmanInited then
    (List.range s.frameCount.toNat).find? fun i => (s.frameMap i).count = 0
  else none

def memmanUseFrame (f : Nat) (flags : UInt32) : Prog Machine Int := fun s =>
  if f < s.frameCount.toNat then
    .done retSuccess { s with frameMap := fun i =>
      if i = f then ⟨flags &&& frameNoSwap ≠ 0, (s.frameMap f).count + 1⟩ else s.frameMap i }
  else .fault

/-- The error flag and the address. -/
def memmanAllocFrame (flags : UInt32) : Prog Machine (Bool × UInt32) := do
  match ← Prog.get getFreeFrame with
  | some frameNum =>
    let _ ← memmanUseFrame frameNum flags
    return (false, UInt32.ofNat frameNum * frameLen)
  | none => return (true, 0)

/-- `unheld` is what happens when the frame has no references: nothing. -/
def memmanFreeFrame (unheld : Prog Machine Unit) (f : UInt32) : Prog Machine Int := fun s =>
  if f.toNat < s.frameCount.toNat then
    if (s.frameMap f.toNat).count ≠ 0 then
      .done retSuccess { s with frameMap := fun i =>
        if i = f.toNat then { s.frameMap i with count := (s.frameMap i).count - 1 } else s.frameMap i }
    else (do unheld; return retSuccess : Prog Machine Int) s
  else .fault

end Sos.Kernel
