import Sos.Lib.Chain
import Sos.Lib.Memory
import Sos.Lib.Prog

/-! The allocator behind `kalloc`. Every list walk is given a number of steps it may
take; running out of them is an outcome of its own. -/

namespace Sos.Kernel
open Sos.Lib

def retSuccess : Int := 1
def retFailure : Int := -1

def load (a : UInt32) : Prog Mem UInt32 := Prog.get fun m => m.load a

def store (a v : UInt32) : Prog Mem Unit := Prog.modify fun m => m.store a v

/-- `p->len`; `p->next` is the word at `p` itself. -/
def slotLen (m : Mem) (p : UInt32) : UInt32 := m.load (p + 4)

def setLen (p v : UInt32) : Prog Mem Unit := store (p + 4) v

/-- `A_BLOCK_END`. -/
def blockEnd (m : Mem) (x : UInt32) : UInt32 := x + 8 + slotLen m x

/-- `A_USEDLIST` is the word behind `A_FREELIST`, which is at `base`. -/
def usedList (base : UInt32) : UInt32 := base + 4

def initAlloc (base length : UInt32) : Prog Mem Int := do
  if length < 8 then return retFailure
  store (usedList base) 0
  let elem := base + 8
  store elem 0
  setLen elem (length - 8 - 8)
  store base elem
  return retSuccess

/-- `for( p = list, j = NULL; p != NULL && !stop; j = p, p = p->next );` -/
def search (fuel : Nat) (stop : Mem → UInt32 → Bool) (list : UInt32) : Prog Mem (UInt32 × UInt32) :=
  fun m =>
    match walk m.load 0 (stop m) fuel (m.load list) 0 with
    | some found => .done found m
    | none => .timeout

/-- The node `p` behind `j` taken out of a list. -/
def unlink (list p j : UInt32) : Prog Mem Unit := do
  if j = 0 then store list (← load (← load list))
  else store j (← load p)

/-- `size` made divisible by the word size. -/
def roundUp (size : UInt32) : UInt32 := if size % 4 ≠ 0 then size + (4 - size % 4) else size

def alloc (fuel : Nat) (base size : UInt32) : Prog Mem UInt32 := do
  let size := roundUp size
  let (p, j) ← search fuel (fun m p => ¬slotLen m p < size + 8) base
  if p = 0 then return 0
  unlink base p j
  if (← load (p + 4)) ≥ size + 8 then
    let k := p + 8 + size
    store k (← load base)
    setLen k ((← load (p + 4)) - size - 8)
    store base k
    setLen p size
  store p (← load (usedList base))
  store (usedList base) p
  return p + 8

/-- The slots found next to the one that is freed. -/
structure Adjacent where
  before : UInt32
  after : UInt32
  afterPrev : UInt32

/-- The walk over the free list in `free`. -/
def findAdjacent (m : Mem) (f : UInt32) : Nat → UInt32 → UInt32 → Adjacent → Option Adjacent
  | 0, _, _, _ => none
  | fuel + 1, p, j, found =>
    if p = 0 then some found
    else if blockEnd m p = f then findAdjacent m f fuel (m.load p) p { found with before := p }
    else if blockEnd m f = p then
      findAdjacent m f fuel (m.load p) p { found with after := p, afterPrev := j }
    else findAdjacent m f fuel (m.load p) p found

def adjacent (fuel : Nat) (base f : UInt32) : Prog Mem Adjacent := fun m =>
  match findAdjacent m f fuel (m.load base) 0 ⟨0, 0, 0⟩ with
  | some found => .done found m
  | none => .timeout

def free (fuel : Nat) (base slot : UInt32) : Prog Mem Int := do
  let f := slot - 8
  let (p, j) ← search fuel (fun _ p => p = f) (usedList base)
  if p = 0 then return retFailure
  unlink (usedList base) p j
  let found ← adjacent fuel base f
  -- a slot before takes this one over, and is on the free list already
  if found.before ≠ 0 then
    setLen found.before ((← load (found.before + 4)) + (8 + (← load (f + 4))))
  let f := if found.before ≠ 0 then found.before else f
  if found.after ≠ 0 then
    setLen f ((← load (f + 4)) + (8 + (← load (found.after + 4))))
    unlink base found.after found.afterPrev
  if found.before = 0 then
    store f (← load base)
    store base f
  return retSuccess

end Sos.Kernel
