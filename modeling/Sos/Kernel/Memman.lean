import Sos.Kernel.Machine

/-! Address spaces: `alloc_addr_space` and `free_addr_space`. -/

namespace Sos.Kernel
open Sos.Lib Machine

/-- `addr_space_t`. -/
structure AddrSpace where
  pd : UInt32
  numFrames : UInt32
  frames : UInt32
  numPts : UInt32
  pts : UInt32

/-- Present, writable, user. -/
def frameToPteUser (f : UInt32) : UInt32 := f ||| 1 ||| 4 ||| 2

def frameToPdeUser (f : UInt32) : UInt32 := f ||| 1 ||| 4 ||| 2

/-- `memset`. -/
def fill (m : Mem) (a : UInt32) (v : UInt8) (n : Nat) : Mem := fun x =>
  if (x - a).toNat < n then v else m x

def bzero (a n : UInt32) : Prog Machine Unit :=
  Prog.modify fun s => s.withMem (fill s.mem a 0 n.toNat)

/-- What happens at a free of something that is not held: the kernel goes on. -/
def goOn : Prog Machine Unit := return ()

/-- `for( i -= 1; i >= 0; i-- )`, where `i` has no sign: the loop has no end. -/
def freeDown (unheld : Prog Machine Unit) (list : UInt32) : Nat → UInt32 → Prog Machine Unit
  | 0, _ => Prog.timeout
  | fuel + 1, i => do
    let _ ← memmanFreeFrame unheld ((← fetch list i) / frameLen)
    freeDown unheld list fuel (i - 1)

/-- The entries of page table `i` from `j` on, `left` of them: the frames still wanted
afterwards, or `none` when the routine fails. -/
def fillTable (unheld : Prog Machine Unit) (fuel : Nat) (as : AddrSpace) (i : UInt32) :
    Nat → UInt32 → UInt32 → Prog Machine (Option UInt32)
  | 0, _, procFrames => return some procFrames
  | left + 1, j, procFrames =>
    if procFrames = 0 then return some procFrames
    else do
      let (error, frame) ← memmanAllocFrame frameUser
      -- the list of frames is indexed by the entry, anew for each table
      assign as.frames j (frame + 1)
      if error then
        let _ ← memmanFreeFrame unheld (as.pd / frameLen)
        freeDown unheld as.frames fuel (j - 1)
        kfree unheld fuel as.frames
        freeDown unheld as.pts fuel (i - 1)
        kfree unheld fuel as.pts
        return none
      setFrameWord (← fetch as.pts i) j (frameToPteUser (← fetch as.frames j))
      fillTable unheld fuel as i left (j + 1) (procFrames - 1)

/-- The page tables from `i` on, `left` of them; `false` when the routine fails. -/
def fillTables (unheld : Prog Machine Unit) (fuel : Nat) (as : AddrSpace) :
    Nat → UInt32 → UInt32 → Prog Machine Bool
  | 0, _, _ => return true
  | left + 1, i, procFrames => do
    let (error, table) ← memmanAllocFrame frameUser
    assign as.pts i table
    if error then
      let _ ← memmanFreeFrame unheld (as.pd / frameLen)
      kfree unheld fuel as.frames
      freeDown unheld as.pts fuel (i - 1)
      kfree unheld fuel as.pts
      return false
    match ← fillTable unheld fuel as i ptEntries.toNat 0 procFrames with
    | none => return false
    | some procFrames =>
      setFrameWord as.pd (i + kernPdOffset) (frameToPdeUser (← fetch as.pts i))
      fillTables unheld fuel as left (i + 1) procFrames

/-- The kernel's entries of the directory from `i` on, `left` of them. -/
def mapKernel (pd : UInt32) : Nat → UInt32 → Prog Machine Unit
  | 0, _ => return ()
  | left + 1, i => do
    let kern ← Prog.get Machine.kernPageDir
    setFrameWord pd i (← frameWord kern i)
    mapKernel pd left (i + 1)

/-- The result and what is in the structure; it is not read after a failure. -/
def allocAddrSpace (unheld : Prog Machine Unit) (fuel : Nat) (size : UInt32) :
    Prog Machine (Int × AddrSpace) := do
  let numFrames := size / frameLen + 1
  let frames ← kalloc fuel (numFrames * 4)
  let numPts := numFrames / ptEntries + 1
  let pts ← kalloc fuel (numPts * 4)
  let (error, pd) ← memmanAllocFrame frameUser
  let as : AddrSpace := ⟨pd, numFrames, frames, numPts, pts⟩
  if error then
    kfree unheld fuel frames
    kfree unheld fuel pts
    return (retFailure, as)
  bzero pd frameLen
  if ← fillTables unheld fuel as numPts.toNat 0 numFrames then
    mapKernel pd kernPdOffset.toNat 0
    return (retSuccess, as)
  else return (retFailure, as)

/-- `list[i]`, `left` of them, each freed as a frame. -/
def freeFrames (unheld : Prog Machine Unit) (list : UInt32) : Nat → UInt32 → Prog Machine Unit
  | 0, _ => return ()
  | left + 1, i => do
    let _ ← memmanFreeFrame unheld ((← fetch list i) / frameLen)
    freeFrames unheld list left (i + 1)

/-- The structure is read at each use. -/
def freeAddrSpace (unheld : Prog Machine Unit) (fuel : Nat) (as : UInt32) : Prog Machine Int := do
  freeFrames unheld (← fetch as 2) (← fetch as 1).toNat 0
  freeFrames unheld (← fetch as 4) (← fetch as 3).toNat 0
  let _ ← memmanFreeFrame unheld ((← fetch as 0) / frameLen)
  kfree unheld fuel (← fetch as 2)
  kfree unheld fuel (← fetch as 4)
  return retSuccess

end Sos.Kernel
