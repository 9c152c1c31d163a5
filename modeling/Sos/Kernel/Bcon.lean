import Sos.Kernel.Process

/-! The basic console: characters in video memory and the cursor of the CRT controller. -/

namespace Sos.Kernel
open Sos.Lib

/-- What the driver works on. `index` is the register of the CRT controller that the data
port leads to. -/
structure Console where
  mem : Mem
  index : UInt8
  crt : UInt8 → UInt8
  bconAttrs : UInt16

inductive BusType where
  | io
  | mem

def termCols : UInt32 := 80

def termLines : UInt32 := 25

def curIoBase : UInt32 := 0x3D4

def curIndexOff : UInt32 := 0

def curDataOff : UInt32 := 1

def vidIoBase : UInt32 := 0xB8000

/-- `TERM_ATTR`, white on blue. -/
def termAttr : UInt16 := 0x1F

namespace Console

/-- Only the two ports of the CRT controller are used. -/
def outb (port : UInt32) (val : UInt8) (s : Console) : Console :=
  if port = curIoBase + curIndexOff then { s with index := val }
  else if port = curIoBase + curDataOff then { s with crt := Function.update s.crt s.index val }
  else s

def inb (port : UInt32) (s : Console) : UInt8 := if port = curIoBase + curDataOff then s.crt s.index else 0

end Console

def busSpaceRead8 (type : BusType) (base off : UInt32) : Prog Console UInt8 := Prog.get fun s =>
  match type with
  | .io => s.inb (base + off)
  | .mem => s.mem (base + off)

def busSpaceWrite8 (type : BusType) (base off : UInt32) (val : UInt8) : Prog Console Unit :=
  Prog.modify fun s =>
    match type with
    | .io => s.outb (base + off) val
    | .mem => { s with mem := fun x => if x = base + off then val else s.mem x }

def getCurOffset : Prog Console UInt32 := do
  busSpaceWrite8 .io curIoBase curIndexOff 14
  let offsetH ← busSpaceRead8 .io curIoBase curDataOff
  busSpaceWrite8 .io curIoBase curIndexOff 15
  let offsetL ← busSpaceRead8 .io curIoBase curDataOff
  return offsetH.toUInt32 <<< 8 ||| offsetL.toUInt32

/-- The stores to the two registers that hold the offset of the cursor. -/
def putCurOffset (offset : UInt32) : Prog Console Unit := do
  busSpaceWrite8 .io curIoBase curIndexOff 15
  busSpaceWrite8 .io curIoBase curDataOff (offset &&& 0x00FF).toUInt8
  busSpaceWrite8 .io curIoBase curIndexOff 14
  busSpaceWrite8 .io curIoBase curDataOff (offset >>> 8).toUInt8

def bconSetCursorPos (x y : UInt32) : Prog Console Unit := putCurOffset (x + y * termCols)

def bconGetCursorPos : Prog Console (UInt32 × UInt32) := do
  let offset ← getCurOffset
  return (offset % termCols, offset / termCols)

/-- The cells of a line from `i` on, `left` of them. -/
def clearCells (y : UInt32) : Nat → UInt32 → Prog Console Unit
  | 0, _ => return ()
  | left + 1, i => do
    busSpaceWrite8 .mem vidIoBase (y * termCols * 2 + i) 0x20
    busSpaceWrite8 .mem vidIoBase (y * termCols * 2 + i + 1) (← Prog.get Console.bconAttrs).toUInt8
    clearCells y left (i + 2)

def bconClearLine (y : UInt32) : Prog Console Unit := clearCells y termCols.toNat 0

def bconWriteChar (c : Int32) (attributes : UInt16) : Prog Console Unit := do
  let offset ← getCurOffset
  busSpaceWrite8 .mem vidIoBase (offset * 2) (c &&& 0xFF).toUInt32.toUInt8
  busSpaceWrite8 .mem vidIoBase (offset * 2 + 1) attributes.toUInt8
  putCurOffset (offset + 1)

def bconCursorUp : Prog Console Unit := do
  let (x, y) ← bconGetCursorPos
  bconSetCursorPos x (y - 1)

def bconCursorDown : Prog Console Unit := do
  let (x, y) ← bconGetCursorPos
  bconSetCursorPos x (y + 1)

def bconCursorLeft : Prog Console Unit := do
  let (x, y) ← bconGetCursorPos
  bconSetCursorPos (x - 1) y

def bconCursorHomeLine : Prog Console Unit := do
  let (_, y) ← bconGetCursorPos
  bconSetCursorPos 0 y

def bconCursorOffEnd : Prog Console UInt8 := do
  let (x, y) ← bconGetCursorPos
  if x ≥ termCols ∨ y ≥ termLines then return 1
  return 0

/-- `memcpy( VIDEO_MEMORY, VIDEO_MEMORY+(TERM_COLS*2), TERM_COLS*TERM_LINES*2 )`. -/
def copyLines : Prog Console Unit := Prog.modify fun s => { s with
  mem := copyBytes (termCols * termLines * 2).toNat vidIoBase (vidIoBase + termCols * 2) s.mem }

def bconScrollScreenUp : Prog Console Unit := do
  bconCursorUp
  bconCursorHomeLine
  bconClearLine termLines
  copyLines
  bconClearLine (termLines - 1)

/-- The lines from `i` on, `left` of them. -/
def clearLines : Nat → UInt32 → Prog Console Unit
  | 0, _ => return ()
  | left + 1, i => do
    bconClearLine i
    clearLines left (i + 1)

def bconClearScreen : Prog Console Unit := do
  clearLines termLines.toNat 0
  bconSetCursorPos 0 0

/-- `if( bcon_cursor_off_end() == 1 ) bcon_scroll_screen_up();` -/
def scrollOffEnd : Prog Console Unit := do
  if (← bconCursorOffEnd) = 1 then bconScrollScreenUp

/-- The default case of `bcon_putchar`. -/
def putPlain (c : Int32) : Prog Console Unit := do
  bconWriteChar c (← Prog.get Console.bconAttrs)
  scrollOffEnd

def bconPutchar (c : Int32) : Prog Console Unit :=
  if c = 0x0D then bconCursorHomeLine
  else if c = 0x0A then do
    bconCursorDown
    bconCursorHomeLine
    scrollOffEnd
  else if c = 0x09 then do
    putPlain 0x20
    putPlain 0x20
    putPlain 0x20
    putPlain 0x20
  else if c = 0x08 then do
    bconCursorLeft
    putPlain 0x20
    bconCursorLeft
  else putPlain c

/-- One `bcon_putchar` after the other. -/
def putAll : List Int32 → Prog Console Unit
  | [] => return ()
  | c :: text => do
    bconPutchar c
    putAll text

/-! Every routine of the driver returns. -/

open Prog

theorem busSpaceWrite8_returns (type : BusType) (base off : UInt32) (val : UInt8) :
    Returns (busSpaceWrite8 type base off val) := Returns.modify _

theorem getCurOffset_returns : Returns getCurOffset :=
  (busSpaceWrite8_returns _ _ _ _).bind fun _ => (Returns.get _).bind fun _ =>
    (busSpaceWrite8_returns _ _ _ _).bind fun _ => (Returns.get _).bind fun _ => Returns.pure _

theorem putCurOffset_returns (offset : UInt32) : Returns (putCurOffset offset) :=
  (busSpaceWrite8_returns _ _ _ _).bind fun _ => (busSpaceWrite8_returns _ _ _ _).bind fun _ =>
    (busSpaceWrite8_returns _ _ _ _).bind fun _ => busSpaceWrite8_returns _ _ _ _

/-- The cursor is set from where it is. -/
theorem cursorMove_returns (f : UInt32 × UInt32 → UInt32 × UInt32) :
    Returns (do
      let p ← bconGetCursorPos
      bconSetCursorPos (f p).1 (f p).2) :=
  (getCurOffset_returns.bind fun _ => Returns.pure _).bind fun _ => putCurOffset_returns _

theorem clearCells_returns (y : UInt32) (left : Nat) (i : UInt32) : Returns (clearCells y left i) := by
  induction left generalizing i with
  | zero => exact Returns.pure ()
  | succ left ih =>
    exact (busSpaceWrite8_returns _ _ _ _).bind fun _ => (Returns.get _).bind fun _ =>
      (busSpaceWrite8_returns _ _ _ _).bind fun _ => ih (i + 2)

theorem bconScrollScreenUp_returns : Returns bconScrollScreenUp :=
  (cursorMove_returns fun p => (p.1, p.2 - 1)).bind fun _ => (cursorMove_returns fun p => (0, p.2)).bind fun _ =>
    (clearCells_returns _ _ _).bind fun _ => (Returns.modify _).bind fun _ => clearCells_returns _ _ _

theorem scrollOffEnd_returns : Returns scrollOffEnd := by
  refine Returns.bind ?_ fun _ => Returns.ite bconScrollScreenUp_returns (Returns.pure ())
  exact (getCurOffset_returns.bind fun _ => Returns.pure _).bind fun _ =>
    Returns.ite (Returns.pure _) (Returns.pure _)

theorem putPlain_returns (c : Int32) : Returns (putPlain c) := by
  refine (Returns.get _).bind fun _ => Returns.bind ?_ fun _ => scrollOffEnd_returns
  exact getCurOffset_returns.bind fun _ => (busSpaceWrite8_returns _ _ _ _).bind fun _ =>
    (busSpaceWrite8_returns _ _ _ _).bind fun _ => putCurOffset_returns _

theorem bconPutchar_returns (c : Int32) : Returns (bconPutchar c) := by
  have home : Returns bconCursorHomeLine := cursorMove_returns fun p => (0, p.2)
  have left : Returns bconCursorLeft := cursorMove_returns fun p => (p.1 - 1, p.2)
  have down : Returns bconCursorDown := cursorMove_returns fun p => (p.1, p.2 + 1)
  refine home.ite (Returns.ite ?_ (Returns.ite ?_ (Returns.ite ?_ (putPlain_returns c))))
  · exact down.bind fun _ => home.bind fun _ => scrollOffEnd_returns
  · exact (putPlain_returns _).bind fun _ => (putPlain_returns _).bind fun _ =>
      (putPlain_returns _).bind fun _ => putPlain_returns _
  · exact left.bind fun _ => (putPlain_returns _).bind fun _ => left

theorem putAll_returns (text : List Int32) : Returns (putAll text) := by
  induction text with
  | nil => exact Returns.pure ()
  | cons c text ih => exact (bconPutchar_returns c).bind fun _ => ih

end Sos.Kernel
