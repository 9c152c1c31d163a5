import Mathlib.Data.List.Induction
import Sos.Kernel.Descriptor
import Sos.Kernel.Process

/-! The interrupt descriptor table, as `init_cpu` makes it and as the processor reads it. -/

namespace Sos.Kernel
open Sos.Lib Sos.Lib.Bytes Sos.Lib.Packed

/-- `interrupt_descriptor`. -/
structure InterruptDescriptor where
  offsetLow : UInt32
  selector : UInt32
  dwordCount : UInt32
  zero0 : UInt32
  type : UInt32
  zero1 : UInt32
  dpl : UInt32
  p : UInt32
  offsetHigh : UInt32

namespace InterruptDescriptor

/-- The bit-fields with their widths. -/
def fields (id : InterruptDescriptor) : List (ℕ × ℕ) :=
  [(16, id.offsetLow.toNat), (16, id.selector.toNat), (5, id.dwordCount.toNat), (3, id.zero0.toNat),
    (4, id.type.toNat), (1, id.zero1.toNat), (2, id.dpl.toNat), (1, id.p.toNat), (16, id.offsetHigh.toNat)]

def toBytes (id : InterruptDescriptor) : Buf 8 := Buf.tabulate fun i => UInt8.ofNat (pack id.fields / 256 ^ i)

end InterruptDescriptor

def InterruptDescriptor.setInterrupt (funct selector type dpl : UInt32) : InterruptDescriptor where
  offsetLow := funct
  selector := selector.toUInt16.toUInt32
  dwordCount := 0
  zero0 := 0
  type := type
  zero1 := 0
  dpl := dpl
  p := 1
  offsetHigh := funct >>> 16

/-- What the processor reads in a gate. -/
structure Gate where
  offset : ℕ
  selector : ℕ
  type : ℕ
  segment : ℕ
  dpl : ℕ
  present : ℕ
deriving DecidableEq

def Gate.ofBytes (b : Buf 8) : Gate :=
  let n := number b.byte 8
  { offset := bits n 0 16 + 2 ^ 16 * bits n 48 16
    selector := bits n 16 16
    type := bits n 40 4
    segment := bits n 44 1
    dpl := bits n 45 2
    present := bits n 47 1 }

/-- The processor goes where it was told, for any address. -/
theorem ofBytes_setInterrupt (funct selector type dpl : UInt32) :
    Gate.ofBytes (InterruptDescriptor.setInterrupt funct selector type dpl).toBytes =
      { offset := funct.toNat
        selector := selector.toNat % 2 ^ 16
        type := type.toNat % 2 ^ 4
        segment := 0
        dpl := dpl.toNat % 2 ^ 2
        present := 1 } := by
  have bytes : number (InterruptDescriptor.setInterrupt funct selector type dpl).toBytes.byte 8 =
      pack (InterruptDescriptor.setInterrupt funct selector type dpl).fields := by
    have each : ∀ i, i < 8 → (InterruptDescriptor.setInterrupt funct selector type dpl).toBytes.byte i =
        UInt8.ofNat (pack (InterruptDescriptor.setInterrupt funct selector type dpl).fields / 256 ^ i) :=
      fun i small => Buf.byte_tabulate _ small
    have fits := pack_lt (InterruptDescriptor.setInterrupt funct selector type dpl).fields
    rw [show width (InterruptDescriptor.setInterrupt funct selector type dpl).fields = 64 from rfl] at fits
    rw [number_mod each, show 256 ^ 8 = 2 ^ 64 by norm_num, Nat.mod_eq_of_lt fits]
  have top : (funct >>> 16).toNat = funct.toNat / 2 ^ 16 := by
    rw [UInt32.toNat_shiftRight, Nat.shiftRight_eq_div_pow]
    rfl
  have short : selector.toUInt16.toUInt32.toNat = selector.toNat % 2 ^ 16 := by simp
  obtain ⟨packed, list⟩ : ∃ packed, packed = (InterruptDescriptor.setInterrupt funct selector type dpl).fields :=
    ⟨_, rfl⟩
  have field (front : List (ℕ × ℕ)) (lo w v : ℕ) (rest : List (ℕ × ℕ)) (place : width front = lo)
      (split : packed = front ++ (w, v) :: rest) : bits (pack packed) lo w = v % 2 ^ w := by
    rw [← place, split]
    exact bits_pack front w v rest
  have offset_low : bits (pack packed) 0 16 = funct.toNat % 2 ^ 16 := field [] _ _ _ _ rfl list
  have selector_bits : bits (pack packed) 16 16 = selector.toUInt16.toUInt32.toNat % 2 ^ 16 :=
    field [_] _ _ _ _ rfl list
  have type_bits : bits (pack packed) 40 4 = type.toNat % 2 ^ 4 := field [_, _, _, _] _ _ _ _ rfl list
  have segment_bits : bits (pack packed) 44 1 = 0 % 2 ^ 1 := field [_, _, _, _, _] _ _ _ _ rfl list
  have dpl_bits : bits (pack packed) 45 2 = dpl.toNat % 2 ^ 2 := field [_, _, _, _, _, _] _ _ _ _ rfl list
  have p_bits : bits (pack packed) 47 1 = 1 % 2 ^ 1 := field [_, _, _, _, _, _, _] _ _ _ _ rfl list
  have offset_high : bits (pack packed) 48 16 = (funct >>> 16).toNat % 2 ^ 16 :=
    field [_, _, _, _, _, _, _, _] _ _ _ _ rfl list
  have bound := funct.toNat_lt
  unfold Gate.ofBytes
  dsimp only
  rw [bytes, ← list, offset_low, selector_bits, type_bits, segment_bits, dpl_bits, p_bits, offset_high, top, short]
  rw [Gate.mk.injEq]
  refine ⟨by omega, by omega, rfl, rfl, rfl, rfl⟩

/-- The wrappers in `trap.S`. -/
inductive Trap where
  | divide
  | debug
  | nmi
  | break
  | overflow
  | bound
  | illegal
  | fpu
  | doublefault
  | cso
  | invalidtts
  | segnotpres
  | stack
  | genpro
  | page
  | reserved
  | floatpt
  | align
  | machine
  | irq (num : ℕ)
  | syscall
deriving DecidableEq

/-- There are sixteen for the lines. -/
def Trap.Defined : Trap → Prop
  | .irq num => num < 16
  | _ => True

def kcodeSelector : UInt32 := 0x8

def descTypeIntrGate : UInt32 := 14

def descTypeTrapGate : UInt32 := 15

def dplKernel : UInt32 := 0

/-- `MAX_IRQ_NUM`. -/
def maxIrqNum : ℕ := 15

/-- The calls of `set_interrupt` in `init_cpu`, in order: entry, wrapper, type and level. -/
def setInterrupts : List (ℕ × Trap × UInt32 × UInt32) :=
  [(0, .divide), (1, .debug), (2, .nmi), (3, .break), (4, .overflow), (5, .bound), (6, .illegal), (7, .fpu),
    (8, .doublefault), (9, .cso), (10, .invalidtts), (11, .segnotpres), (12, .stack), (13, .genpro), (14, .page),
    (15, .reserved), (16, .floatpt), (17, .align), (18, .machine)].map (fun e =>
      (e.1, e.2, descTypeTrapGate, dplKernel)) ++
  (List.range' 19 13).map (fun i => (i, .reserved, descTypeTrapGate, dplKernel)) ++
  (List.range' 32 8).map (fun i => (i, .reserved, descTypeTrapGate, dplKernel)) ++
  [(40, 0), (41, 1), (42, 2), (43, 3), (44, 4), (45, 5), (46, 6), (47, 7), (48, 8), (48, 9), (50, 10), (51, 11),
    (52, 12), (53, 13), (54, 14), (55, 15)].map (fun e => (e.1, .irq e.2, descTypeTrapGate, dplKernel)) ++
  (List.range' (40 + maxIrqNum + 1) (128 - (40 + maxIrqNum + 1))).map (fun i =>
    (i, .reserved, descTypeTrapGate, dplKernel)) ++
  [(128, .syscall, descTypeIntrGate, dplUser)]

/-- The table after `bzero` and some of the calls, with the wrappers at these addresses. -/
def idtAfter (addr : Trap → UInt32) (calls : List (ℕ × Trap × UInt32 × UInt32)) : ℕ → Buf 8 :=
  calls.foldl (fun idt c => Function.update idt c.1
    (InterruptDescriptor.setInterrupt (addr c.2.1) kcodeSelector c.2.2.1 c.2.2.2).toBytes) fun _ => Buf.tabulate fun _ => 0

def idt (addr : Trap → UInt32) : ℕ → Buf 8 := idtAfter addr setInterrupts

/-- The last call for an entry, when there is one. -/
def lastSet (calls : List (ℕ × Trap × UInt32 × UInt32)) (v : ℕ) : Option (Trap × UInt32 × UInt32) :=
  (calls.reverse.find? fun c => c.1 = v).map Prod.snd

theorem idtAfter_eq (addr : Trap → UInt32) (calls : List (ℕ × Trap × UInt32 × UInt32)) (v : ℕ) :
    idtAfter addr calls v = match lastSet calls v with
      | some c => (InterruptDescriptor.setInterrupt (addr c.1) kcodeSelector c.2.1 c.2.2).toBytes
      | none => Buf.tabulate fun _ => 0 := by
  induction calls using List.reverseRecOn with
  | nil => rfl
  | append_singleton calls c ih =>
    rw [idtAfter, List.foldl_append, List.foldl_cons, List.foldl_nil, lastSet, List.reverse_append,
      List.reverse_singleton, List.singleton_append, List.find?_cons]
    by_cases here : c.1 = v
    · subst here
      rw [Function.update_self]
      simp
    · rw [Function.update_of_ne (Ne.symm here)]
      simp only [here, decide_false]
      exact ih

theorem idtAfter_some (addr : Trap → UInt32) {calls : List (ℕ × Trap × UInt32 × UInt32)} {v : ℕ} {trap : Trap}
    {type dpl : UInt32} (last : lastSet calls v = some (trap, type, dpl)) :
    Gate.ofBytes (idtAfter addr calls v) = ⟨(addr trap).toNat, 8, type.toNat % 2 ^ 4, 0, dpl.toNat % 2 ^ 2, 1⟩ := by
  rw [idtAfter_eq, last, ofBytes_setInterrupt]
  rfl

/-- The wrapper behind the vector of an interrupt line: entry 48 is set twice. -/
def wired (line : ℕ) : ℕ := if line = 8 then 9 else line

theorem wired_lt {line : ℕ} (known : line < 16) : wired line < 16 := by
  unfold wired
  split
  · decide
  · exact known

theorem lastSet_line {line : ℕ} (known : line < 16) (other : line ≠ 9) :
    lastSet setInterrupts (40 + line) = some (.irq (wired line), descTypeTrapGate, dplKernel) := by
  have all : ∀ line, line < 16 → line ≠ 9 →
      lastSet setInterrupts (40 + line) = some (.irq (wired line), descTypeTrapGate, dplKernel) := by
    decide
  exact all line known other

/-- Every line but the ninth has a gate that leaves interrupts on; for lines 8 and 9 there is one wrapper and one
gate. -/
theorem idt_line (addr : Trap → UInt32) {line : ℕ} (known : line < 16) :
    Gate.ofBytes (idt addr (40 + line)) =
      if line = 9 then ⟨0, 0, 0, 0, 0, 0⟩ else ⟨(addr (.irq (wired line))).toNat, 8, 15, 0, 0, 1⟩ := by
  by_cases ninth : line = 9
  · subst ninth
    have absent : lastSet setInterrupts (40 + 9) = none := by decide
    have zero : Gate.ofBytes (Buf.tabulate fun _ => 0) = ⟨0, 0, 0, 0, 0, 0⟩ := by decide
    rw [if_pos rfl, idt, idtAfter_eq, absent]
    exact zero
  · rw [if_neg ninth, idt, idtAfter_some addr (lastSet_line known ninth)]
    rfl

end Sos.Kernel
