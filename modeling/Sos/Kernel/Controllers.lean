import Mathlib.Data.Finset.Card
import Mathlib.Data.Multiset.Filter
import Sos.Kernel.Pic

/-! The two interrupt controllers as devices: what they are set to by `init_pic`, which request they
pass on and which one is ended. -/

namespace Sos.Kernel
open Sos.Lib

/-- The registers of one controller: lines held back, requests, and those the processor has taken and not yet
ended. `icw` counts the words of the initialization that are still to come. -/
structure Chip where
  imr : UInt8
  irr : Finset ℕ
  isr : Finset ℕ
  vector : UInt8
  cascade : UInt8
  icw : ℕ

namespace Chip

def masked (c : Chip) (k : ℕ) : Bool := c.imr.toBitVec.getLsbD k

/-- The line with the highest priority among those in service and those that ask and are not held back. -/
def foremost (c : Chip) (lines : Finset ℕ) : Option ℕ :=
  (List.range 8).find? fun k => k ∈ c.isr ∨ (k ∈ lines ∧ c.masked k = false)

/-- The request that is passed on: one in service holds back all of its own and of lower priority. -/
def request (c : Chip) (lines : Finset ℕ) : Option ℕ := (c.foremost lines).filter fun k => k ∉ c.isr

/-- The end of an interrupt that is not named. -/
def endOfInterrupt (c : Chip) : Chip :=
  match (List.range 8).find? fun k => k ∈ c.isr with
  | some k => { c with isr := c.isr.erase k }
  | none => c

/-- The port for the first word of the initialization and for the end of an interrupt. -/
def command (v : UInt8) (c : Chip) : Chip :=
  if v &&& 0x10 ≠ 0 then { c with imr := 0, irr := ∅, icw := 3 }
  else if v &&& 0xF8 = 0x20 then c.endOfInterrupt
  else c

/-- The port for the other words, and then for the mask. -/
def data (v : UInt8) (c : Chip) : Chip :=
  match c.icw with
  | 0 => { c with imr := v }
  | 3 => { c with vector := v &&& 0xF8, icw := 2 }
  | 2 => { c with cascade := v, icw := 1 }
  | n + 1 => { c with icw := n }

end Chip

structure Pics where
  master : Chip
  slave : Chip

def pic0CmdPort : UInt16 := 0x20

def pic1CmdPort : UInt16 := 0xA0

namespace Pics

/-- The low byte of an `int`. -/
def outb (port : UInt16) (v : UInt32) : Prog Pics Unit := Prog.modify fun p =>
  if port = pic0CmdPort then { p with master := p.master.command v.toUInt8 }
  else if port = pic0Port then { p with master := p.master.data v.toUInt8 }
  else if port = pic1CmdPort then { p with slave := p.slave.command v.toUInt8 }
  else if port = pic1Port then { p with slave := p.slave.data v.toUInt8 }
  else p

/-- The mask registers on their own. -/
def masks (p : Pics) : Pic := ⟨p.master.imr, p.slave.imr⟩

def withMasks (p : Pics) (s : Pic) : Pics :=
  { master := { p.master with imr := s.mask0 }, slave := { p.slave with imr := s.mask1 } }

/-- A call of `enable_irq` or `disable_irq`. -/
def switched (c : IrqCall) : Prog Pics Int := Prog.zoom masks withMasks c.run

/-- The second controller is on this line of the first. -/
def wire : ℕ := 2

/-- What asks at the first controller. -/
def lines (p : Pics) : Finset ℕ :=
  if (p.slave.request p.slave.irr).isSome then insert wire (p.master.irr.erase wire) else p.master.irr.erase wire

/-- A device asks for an interrupt. -/
def raise (line : ℕ) (p : Pics) : Pics :=
  if line < 8 then { p with master := { p.master with irr := insert line p.master.irr } }
  else { p with slave := { p.slave with irr := insert (line - 8) p.slave.irr } }

/-- The first controller takes its request, and gives the vector unless the line is one of the second. With the
vector comes the line that it is for. -/
def acknowledge (p : Pics) : Option (ℕ × ℕ × Pics) :=
  (p.master.request p.lines).bind fun k =>
    let master := { p.master with isr := insert k p.master.isr, irr := p.master.irr.erase k }
    if p.master.cascade.toBitVec.getLsbD k then
      (p.slave.request p.slave.irr).bind fun j =>
        if (p.slave.cascade &&& 7).toNat = k then
          let slave := { p.slave with isr := insert j p.slave.isr, irr := p.slave.irr.erase j }
          some (8 + j, p.slave.vector.toNat + j, ⟨master, slave⟩)
        else none
    else some (k, p.master.vector.toNat + k, { p with master := master })

end Pics
open Pics

def initPic : Prog Pics Int := do
  outb 0x20 0x11
  outb 0xA0 0x11
  outb 0x21 0x28
  outb 0xA1 0x30
  outb 0x21 0x04
  outb 0xA1 0x02
  outb 0x21 0x01
  outb 0xA1 0x01
  outb pic0Port (~~~((1 : UInt32) <<< (2 : UInt32)))
  outb pic1Port (~~~(0 : UInt32))
  return retSuccess

/-- The commands of `__i386_interrupt_irq_short`. -/
def endIrq (num : ℕ) : Prog Pics Unit := do
  if num > 7 then
    outb pic1CmdPort 0x20
    outb pic0CmdPort 0x20
  else outb pic0CmdPort 0x20

/-- The controllers after `init_pic`, up to masks and requests. -/
structure Pics.Ready (p : Pics) : Prop where
  master : p.master.vector = 0x28 ∧ p.master.cascade = 0x04 ∧ p.master.icw = 0
  slave : p.slave.vector = 0x30 ∧ p.slave.cascade = 0x02 ∧ p.slave.icw = 0

theorem initPic_done (p : Pics) : initPic p = .done retSuccess {
    master := ⟨0xFB, ∅, p.master.isr, 0x28, 0x04, 0⟩
    slave := ⟨0xFF, ∅, p.slave.isr, 0x30, 0x02, 0⟩ } := rfl

theorem endIrq_done (num : ℕ) (p : Pics) : endIrq num p = .done () {
    master := p.master.endOfInterrupt
    slave := if num > 7 then p.slave.endOfInterrupt else p.slave } := by
  unfold endIrq
  split
  · rfl
  · rfl

namespace Chip
variable {c : Chip} {k : ℕ}

/-- What is passed on asks, is not held back, and goes before all that is in service. -/
theorem of_request {lines : Finset ℕ} (found : c.request lines = some k) : k < 8 ∧ k ∈ lines ∧ c.masked k = false ∧
    k ∉ c.isr ∧ ∀ j, j < 8 → j ∈ c.isr → k < j := by
  obtain ⟨first, fresh⟩ := Option.filter_eq_some_iff.mp found
  have fresh : k ∉ c.isr := by simpa using fresh
  obtain ⟨asks, inside, before⟩ := List.find?_range_eq_some.mp first
  have asks : k ∈ c.isr ∨ (k ∈ lines ∧ c.masked k = false) := by simpa using asks
  obtain ⟨member, unmasked⟩ := asks.resolve_left fresh
  refine ⟨List.mem_range.mp inside, member, unmasked, fresh, fun j bound serviced => ?_⟩
  by_contra late
  have differ : j ≠ k := by
    rintro rfl
    exact fresh serviced
  have absent := before j (by omega)
  simp [serviced] at absent

/-- The least of those in service is ended. -/
theorem endOfInterrupt_isr (small : k < 8) (member : k ∈ c.isr) (least : ∀ j, j ∈ c.isr → k ≤ j) :
    c.endOfInterrupt = { c with isr := c.isr.erase k } := by
  unfold endOfInterrupt
  cases found : (List.range 8).find? fun j => j ∈ c.isr with
  | none =>
    have absent := List.find?_eq_none.mp found k (List.mem_range.mpr small)
    simp [member] at absent
  | some j =>
    obtain ⟨serviced, -, before⟩ := List.find?_range_eq_some.mp found
    have serviced : j ∈ c.isr := by simpa using serviced
    have same : k = j := by
      by_contra differ
      have absent := before k (Nat.lt_of_le_of_ne (least j serviced) differ)
      simp [member] at absent
    rw [same]

end Chip

end Sos.Kernel
