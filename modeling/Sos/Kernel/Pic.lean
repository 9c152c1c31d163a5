import Sos.Kernel.Alloc
import Sos.Lib.Runs

/-! The mask registers of the two interrupt controllers, over any sequence of calls that switch
interrupts on and off. -/

namespace Sos.Kernel
open Sos.Lib

/-- What is read and written at `PIC_0_PORT` and `PIC_1_PORT`. -/
structure Pic where
  mask0 : UInt8
  mask1 : UInt8

def pic0Port : UInt16 := 0x21

def pic1Port : UInt16 := 0xA1

def pic0MaxIrq : UInt16 := 7

namespace Pic

/-- A byte as an `int`. -/
def inb (port : UInt16) : Prog Pic UInt32 :=
  Prog.get fun s => if port = pic0Port then s.mask0.toUInt32 else if port = pic1Port then s.mask1.toUInt32 else 0

/-- The low byte of an `int`. -/
def outb (port : UInt16) (v : UInt32) : Prog Pic Unit := Prog.modify fun s =>
  if port = pic0Port then { s with mask0 := v.toUInt8 }
  else if port = pic1Port then { s with mask1 := v.toUInt8 }
  else s

/-- Interrupt `k` is held back. -/
def masked (k : ℕ) (s : Pic) : Bool :=
  if k < 8 then s.mask0.toBitVec.getLsbD k else s.mask1.toBitVec.getLsbD (k - 8)

end Pic
open Pic

/-- The mask register of interrupt `num` is combined with all bits but that of `num`, which is counted
from `PIC_0_MAX_IRQ` less one on in the second one. -/
def switchIrq (op : UInt32 → UInt32 → UInt32) (num : UInt16) : Prog Pic Int := do
  if num < pic0MaxIrq then outb pic0Port (op (← inb pic0Port) (~~~(1 <<< num.toUInt32)))
  else outb pic1Port (op (← inb pic1Port) (~~~(1 <<< (num.toUInt32 - pic0MaxIrq.toUInt32 + 1))))
  return retSuccess

def enableIrq (num : UInt16) : Prog Pic Int := switchIrq (fun mask bits => mask &&& bits) num

def disableIrq (num : UInt16) : Prog Pic Int := switchIrq (fun mask bits => mask ||| bits) num

/-- The interrupt whose bit a call computes; from 16 on it is none. -/
def reachedIrq (n : ℕ) : ℕ := if n < 7 then n else n + 2

section
variable {num : UInt16} {k : ℕ}

/-- One bit of an `int` and all the others, in the low byte. -/
theorem bit_not (j : UInt32) (inside : j.toNat < 32) :
    (decide (k < j.toNat % 32) || !decide (k - j.toNat % 32 = 0)) = !decide (k = j.toNat) := by
  rw [Nat.mod_eq_of_lt inside, Bool.eq_iff_iff]
  simp
  omega

theorem bit_clear (m : UInt8) (j : UInt32) (small : k < 8) (inside : j.toNat < 32) :
    (m.toUInt32 &&& ~~~(1 <<< j)).toUInt8.toBitVec.getLsbD k = (m.toBitVec.getLsbD k && !decide (k = j.toNat)) := by
  rw [← bit_not j inside]
  simp [small]

theorem bit_fill (m : UInt8) (j : UInt32) (small : k < 8) (inside : j.toNat < 32) :
    (m.toUInt32 ||| ~~~(1 <<< j)).toUInt8.toBitVec.getLsbD k = (m.toBitVec.getLsbD k || !decide (k = j.toNat)) := by
  rw [← bit_not j inside]
  simp [small]

theorem second_bit (upper : ¬num < pic0MaxIrq) (known : num.toNat < 16) :
    (num.toUInt32 - pic0MaxIrq.toUInt32 + 1).toNat = num.toNat - 6 := by
  have seven : 7 ≤ num.toNat := Nat.not_lt.mp fun less => upper (UInt16.lt_iff_toNat_lt.mpr less)
  have max : pic0MaxIrq.toUInt32.toNat = 7 := rfl
  have wide : num.toUInt32.toNat = num.toNat := UInt16.toNat_toUInt32 num
  rw [UInt32.toNat_add, UInt32.toNat_sub, max, wide]
  simp
  omega

/-- The operation on an `int` is one on its bits. -/
def Bitwise (op : UInt32 → UInt32 → UInt32) (f : Bool → Bool → Bool) : Prop :=
  ∀ (m : UInt8) (j : UInt32) (k : ℕ), k < 8 → j.toNat < 32 →
    (op m.toUInt32 (~~~(1 <<< j))).toUInt8.toBitVec.getLsbD k = f (m.toBitVec.getLsbD k) (!decide (k = j.toNat))

/-- The bits of one register change, with the bit of another interrupt left out from 7 on. -/
theorem switchIrq_done {op : UInt32 → UInt32 → UInt32} {f : Bool → Bool → Bool} (bitwise : Bitwise op f)
    (known : num.toNat < 16) (s : Pic) : ∃ t, switchIrq op num s = .done retSuccess t ∧
    ∀ k, k < 16 → t.masked k =
      if k < 8 ↔ num.toNat < 7 then f (s.masked k) (!decide (k = reachedIrq num.toNat)) else s.masked k := by
  have wide : num.toUInt32.toNat = num.toNat := UInt16.toNat_toUInt32 num
  by_cases lower : num < pic0MaxIrq
  · have small : num.toNat < 7 := UInt16.lt_iff_toNat_lt.mp lower
    refine ⟨{ s with mask0 := (op s.mask0.toUInt32 (~~~(1 <<< num.toUInt32))).toUInt8 }, ?_, ?_⟩
    · rw [switchIrq, if_pos lower]
      rfl
    · intro k bound
      unfold masked reachedIrq
      rw [if_pos small]
      by_cases first : k < 8
      · rw [if_pos first, if_pos first, if_pos (iff_of_true first small), bitwise _ _ _ first (by omega), wide]
      · rw [if_neg first, if_neg first, if_neg fun same => first (same.mpr small)]
  · have large : ¬num.toNat < 7 := fun less => lower (UInt16.lt_iff_toNat_lt.mpr less)
    have bit := second_bit lower known
    refine ⟨{ s with mask1 := (op s.mask1.toUInt32 (~~~(1 <<< (num.toUInt32 - pic0MaxIrq.toUInt32 + 1)))).toUInt8 },
      ?_, ?_⟩
    · rw [switchIrq, if_neg lower]
      rfl
    · intro k bound
      unfold masked reachedIrq
      rw [if_neg large]
      by_cases first : k < 8
      · rw [if_pos first, if_pos first, if_neg fun same => large (same.mp first)]
      · have same : k - 8 = num.toNat - 6 ↔ k = num.toNat + 2 := by omega
        rw [if_neg first, if_neg first, if_pos (iff_of_false first large), bitwise _ _ _ (by omega) (by omega), bit]
        simp only [same]

end

inductive IrqCall where
  | enable (num : UInt16)
  | disable (num : UInt16)

namespace IrqCall

def num : IrqCall → UInt16
  | enable num => num
  | disable num => num

/-- The interrupt is held back from now on. -/
def masks : IrqCall → Bool
  | enable _ => false
  | disable _ => true

def run : IrqCall → Prog Pic Int
  | enable num => enableIrq num
  | disable num => disableIrq num

/-- The two controllers have sixteen interrupts. -/
def Known (c : IrqCall) : Prop := c.num.toNat < 16

/-- All that the call changes besides, or leaves as it is where it should not, is so already. -/
def Meets : IrqCall → Pic → Prop
  | enable num, s => 7 ≤ num.toNat →
    s.masked num.toNat = false ∧ (num.toNat + 2 < 16 → s.masked (num.toNat + 2) = false)
  | disable num, s =>
    if num.toNat < 7 then ∀ k, k < 8 → s.masked k = true
    else (num.toNat = 7 → s.masked 7 = true) ∧
      ∀ k, 8 ≤ k → k < 16 → k ≠ num.toNat → k ≠ num.toNat + 2 → s.masked k = true

end IrqCall

/-- Interrupt `k` is as the last call for it left it, and as it was when there was none. -/
def expectedMask (s₀ : Pic) (k : ℕ) : List (IrqCall × Int) → Bool
  | [] => s₀.masked k
  | (c, _) :: log => if c.num.toNat = k then c.masks else expectedMask s₀ k log

def MasksTrack (s₀ : Pic) (log : List (IrqCall × Int)) (s : Pic) : Prop :=
  ∀ k, k < 16 → s.masked k = expectedMask s₀ k log

theorem enableIrq_meets {num : UInt16} (known : num.toNat < 16) (s : Pic) :
    ∃ t, enableIrq num s = .done retSuccess t ∧
      ((∀ k, k < 16 → t.masked k = if num.toNat = k then false else s.masked k) ↔ (IrqCall.enable num).Meets s) := by
  have bitwise : Bitwise (fun mask bits => mask &&& bits) (fun b c => b && c) :=
    fun m j k small inside => bit_clear m j small inside
  obtain ⟨t, run, bits⟩ := switchIrq_done bitwise known s
  refine ⟨t, run, ?_⟩
  change _ ↔ (7 ≤ num.toNat → s.masked num.toNat = false ∧ (num.toNat + 2 < 16 → s.masked (num.toNat + 2) = false))
  constructor
  · intro all upper
    refine ⟨?_, fun inside => ?_⟩
    · have here := all num.toNat known
      rw [bits _ known, if_pos rfl] at here
      grind [reachedIrq]
    · have there := all (num.toNat + 2) inside
      rw [bits _ inside] at there
      grind [reachedIrq]
  · intro meets k bound
    rw [bits k bound]
    by_cases small : num.toNat < 7
    · rw [reachedIrq, if_pos small]
      by_cases first : k < 8
      · rw [if_pos (iff_of_true first small)]
        by_cases here : num.toNat = k
        · simp [here]
        · simp [here, Ne.symm here]
      · have other : num.toNat ≠ k := by omega
        rw [if_neg fun same => first (same.mpr small), if_neg other]
    · obtain ⟨own, next⟩ := meets (Nat.not_lt.mp small)
      rw [reachedIrq, if_neg small]
      by_cases here : num.toNat = k
      · subst here
        rw [own]
        simp
      · rw [if_neg here]
        by_cases there : k = num.toNat + 2
        · subst there
          rw [next bound]
          simp
        · simp [there]

theorem disableIrq_meets {num : UInt16} (known : num.toNat < 16) (s : Pic) :
    ∃ t, disableIrq num s = .done retSuccess t ∧
      ((∀ k, k < 16 → t.masked k = if num.toNat = k then true else s.masked k) ↔ (IrqCall.disable num).Meets s) := by
  have bitwise : Bitwise (fun mask bits => mask ||| bits) (fun b c => b || c) :=
    fun m j k small inside => bit_fill m j small inside
  obtain ⟨t, run, bits⟩ := switchIrq_done bitwise known s
  refine ⟨t, run, ?_⟩
  change _ ↔ if num.toNat < 7 then ∀ k, k < 8 → s.masked k = true
    else (num.toNat = 7 → s.masked 7 = true) ∧
      ∀ k, 8 ≤ k → k < 16 → k ≠ num.toNat → k ≠ num.toNat + 2 → s.masked k = true
  constructor
  · intro all
    split
    · intro k first
      have here := all k (by omega)
      rw [bits k (by omega)] at here
      grind [reachedIrq]
    · refine ⟨fun seven => ?_, fun k second bound other other' => ?_⟩
      · have here := all 7 (by decide)
        rw [bits 7 (by decide)] at here
        grind [reachedIrq]
      · have here := all k bound
        rw [bits k bound] at here
        grind [reachedIrq]
  · intro meets k bound
    rw [bits k bound]
    split at meets
    · grind [reachedIrq]
    · grind [reachedIrq]

/-- A call does what it should if and only if the other bits that it writes are so already. -/
theorem IrqCall.run_meets (c : IrqCall) (known : c.Known) (s : Pic) : ∃ t, c.run s = .done retSuccess t ∧
    ((∀ k, k < 16 → t.masked k = if c.num.toNat = k then c.masks else s.masked k) ↔ c.Meets s) := by
  cases c with
  | enable num => exact enableIrq_meets known s
  | disable num => exact disableIrq_meets known s

/-- After calls that meet the condition the masks are as the calls say, and after one more they are so if and
only if it meets the condition too. -/
theorem tracks_iff (s₀ : Pic) {log : List (IrqCall × Int)} {s : Pic}
    (runs : Runs IrqCall.run (fun c s => c.Known ∧ c.Meets s) s₀ log s) : MasksTrack s₀ log s ∧
    ∀ c : IrqCall, c.Known → ∃ t, c.run s = .done retSuccess t ∧
      (MasksTrack s₀ ((c, retSuccess) :: log) t ↔ c.Meets s) := by
  have further {log : List (IrqCall × Int)} {s : Pic} (tracks : MasksTrack s₀ log s) (c : IrqCall)
      (known : c.Known) (r : Int) :
      ∃ t, c.run s = .done retSuccess t ∧ (MasksTrack s₀ ((c, r) :: log) t ↔ c.Meets s) := by
    obtain ⟨t, run, meets⟩ := c.run_meets known s
    refine ⟨t, run, ?_⟩
    rw [← meets]
    unfold MasksTrack
    refine forall_congr' fun k => forall_congr' fun bound => ?_
    rw [expectedMask, tracks k bound]
  have tracks : MasksTrack s₀ log s := by
    apply runs.invariant (MasksTrack s₀)
    · intro k _
      rfl
    · intro log s c r t tracks allowed run
      obtain ⟨t', run', meets⟩ := further tracks c allowed.1 r
      rw [run', Outcome.done.injEq] at run
      rw [← run.2]
      exact meets.mpr allowed.2
  exact ⟨tracks, fun c known => further tracks c known retSuccess⟩

/-- Where nothing is let through, line 9 is held back once more, and the keyboard is switched off and on and then the
timer on. -/
theorem tracks_keyboard : ∃ s t,
    Runs IrqCall.run (fun c s => c.Known ∧ c.Meets s) ⟨0xFF, 0xFF⟩
      [(.enable 1, retSuccess), (.disable 1, retSuccess), (.disable 9, retSuccess)] s ∧
    enableIrq 0 s = .done retSuccess t ∧
    MasksTrack ⟨0xFF, 0xFF⟩
      [(.enable 0, retSuccess), (.enable 1, retSuccess), (.disable 1, retSuccess), (.disable 9, retSuccess)] t := by
  have all : ∀ k, k < 16 → Pic.masked k ⟨0xFF, 0xFF⟩ = true := by decide
  have ninth : (IrqCall.disable 9).Meets ⟨0xFF, 0xFF⟩ :=
    ⟨fun seven => absurd seven (by decide), fun k _ bound _ _ => all k bound⟩
  have off : (IrqCall.disable 1).Meets ⟨0xFF, 0xFF⟩ := fun k small => all k (by omega)
  have low : ∀ num : UInt16, ¬7 ≤ num.toNat → ∀ s, (IrqCall.enable num).Meets s := fun _ small _ high =>
    absurd high small
  have known : ∀ c : IrqCall, c.num.toNat < 10 → c.Known := fun c small => Nat.lt_of_lt_of_le small (by decide)
  have run₁ : (IrqCall.disable 9).run ⟨0xFF, 0xFF⟩ = .done retSuccess ⟨0xFF, 0xFF⟩ := rfl
  have run₂ : (IrqCall.disable 1).run ⟨0xFF, 0xFF⟩ = .done retSuccess ⟨0xFF, 0xFF⟩ := rfl
  have run₃ : (IrqCall.enable 1).run ⟨0xFF, 0xFF⟩ = .done retSuccess ⟨0xFD, 0xFF⟩ := rfl
  have none : Runs IrqCall.run (fun c s => c.Known ∧ c.Meets s) ⟨0xFF, 0xFF⟩ [] ⟨0xFF, 0xFF⟩ := Runs.nil
  have held := (none.call ⟨known _ (by decide), ninth⟩ run₁).call ⟨known _ (by decide), off⟩ run₂
  have runs := held.call ⟨known _ (by decide), low 1 (by decide) _⟩ run₃
  obtain ⟨t, run, tracks⟩ := (tracks_iff ⟨0xFF, 0xFF⟩ runs).2 (.enable 0) (known _ (by decide))
  exact ⟨_, t, runs, run, tracks.mpr (low 0 (by decide) _)⟩

/-- The timer's interrupt is not held back, and all others of its controller are. -/
theorem not_tracks_timer : ∃ t, disableIrq 0 ⟨0, 0⟩ = .done retSuccess t ∧
    ¬MasksTrack ⟨0, 0⟩ [(.disable 0, retSuccess)] t := by
  refine ⟨⟨0xFE, 0⟩, rfl, ?_⟩
  intro tracks
  exact absurd (tracks 0 (by decide)) (by decide)

end Sos.Kernel
