import Sos.Kernel.Newborn
import Sos.Kernel.Turns

/-! The stacks of the kernel, each in the pages of its process. A process that was interrupted has on its stack what
it needs to go on. -/

namespace Sos.Kernel
open Sos.Lib Sos.Lib.Stack Machine Tasks

/-- A byte of one of its pages. -/
def Owned.Byte (r : Owned) (va : UInt32) : Prop := ∃ k f o, r.pages[k]? = some f ∧ o < 4096 ∧ va = pageByte k o

/-- The part of a process's data that is the kernel's stack; a process starts with its own right below. -/
def kernelStack : Nat := dataLen.toNat / 2

theorem kernelStack_eq : kernelStack = 32768 := by decide

theorem Owned.byte_of {r : Owned} (few : r.pages.length < 1024) {va : UInt32}
    (lower : memspaceUserMem.toNat ≤ va.toNat) (upper : va.toNat < memspaceUserMem.toNat + 4096 * r.pages.length) :
    r.Byte va := by
  have base : memspaceUserMem.toNat = 1073741824 := by decide
  have short : (va.toNat - 1073741824) % 4096 < 4096 := Nat.mod_lt _ (by decide)
  have inside : (va.toNat - 1073741824) / 4096 < r.pages.length := by omega
  have listed : r.pages[(va.toNat - 1073741824) / 4096]? = some r.pages[(va.toNat - 1073741824) / 4096] :=
    List.getElem?_eq_getElem inside
  refine ⟨_, _, _, listed, short, UInt32.toNat_inj.mp ?_⟩
  rw [pageByte, user_address (by omega) short]
  omega

namespace Seated
variable {m : Mem} {r : Owned} {top : UInt32} (seated : Seated m r)
  (stack : m.load (r.tss.addr + 8 + 4 * esp0Field) = top)
include seated stack

theorem room : memspaceUserMem.toNat + dataLen.toNat ≤ top.toNat ∧
    top.toNat < memspaceUserMem.toNat + 4096 * r.pages.length := by
  obtain ⟨tLen, short, pages, place⟩ := seated.top
  have base : memspaceUserMem.toNat = 1073741824 := by decide
  have first : (memspaceUserMem + tLen).toNat = memspaceUserMem.toNat + tLen.toNat := upward_toNat (by omega)
  have second : top.toNat = memspaceUserMem.toNat + tLen.toNat + dataLen.toNat := by
    rw [← stack, place, upward_toNat (by omega), first]
  rw [pages, numFrames, upward_toNat (by omega)]
  omega

/-- The kernel's stack is in the pages of the process. -/
theorem byte (few : r.pages.length < 1024) {va : UInt32} (below : Beneath top kernelStack va) : r.Byte va := by
  have room := seated.room stack
  have data : dataLen.toNat = 65536 := by decide
  have half := kernelStack_eq
  unfold Beneath at below
  exact Owned.byte_of few (by omega) (by omega)

end Seated

/-- What a turn says of the process that was seen it says of no other. -/
theorem log_other (turn : Turn) {o : Seen} {i : Nat} (other : o.pid ≠ i) (log : List (Turn × Seen)) :
    lastRegs i ((turn, o) :: log) = lastRegs i log ∧ interrupted i ((turn, o) :: log) = interrupted i log ∧
      lastStored ((turn, o) :: log) i = lastStored log i ∧
      ∀ va, lastByte i va ((turn, o) :: log) = lastByte i va log := by
  have stored (f : View) : Function.update (lastStored log) o.pid f i = lastStored log i :=
    Function.update_of_ne (Ne.symm other) _ _
  cases turn with
  | spawn p text tLen => exact ⟨if_neg other, rfl, stored _, fun _ => if_neg other⟩
  | interrupt wrapper => exact ⟨if_neg other, if_neg other, stored _, fun _ => rfl⟩
  | store va v => exact ⟨rfl, rfl, stored _, fun _ => rfl⟩
  | exit => exact ⟨rfl, rfl, rfl, fun _ => rfl⟩
  | tick => exact ⟨rfl, rfl, rfl, fun _ => rfl⟩
  | iret => exact ⟨if_neg other, rfl, rfl, fun _ => rfl⟩
  | work regs => exact ⟨if_neg other, rfl, rfl, fun _ => rfl⟩
  | write va v => exact ⟨rfl, rfl, stored _, fun _ => if_neg fun same => other same.1⟩

/-- What is stored when a process is interrupted. -/
theorem lastStored_interrupt {o : Seen} {log : List (Turn × Seen)} {user : Registers} {wrapper top : UInt32}
    (last : lastRegs o.pid log = some user) (esp : o.regs.esp = top - 48) :
    lastStored ((.interrupt wrapper, o) :: log) =
      Function.update (lastStored log) o.pid ((lastStored log o.pid).after (pushes top user.frame)) := by
  have start : o.regs.esp + 48 = top := by
    rw [esp]
    exact UInt32.sub_add_cancel top 48
  rw [lastStored, last, start]
  rfl

theorem Registers.not_inKernel {r q : Registers} (user : r.InUser) (ring : q.cs = r.cs) : ¬q.InKernel := by
  intro kernel
  have same : kcodeSelector = ucodeSelector ||| 3 := kernel.1.symm.trans (ring.trans user.1)
  exact absurd same (by decide)

theorem Registers.pop_frame (r : Registers) (wrapper esp0 ss0 : UInt32) :
    (r.entered wrapper esp0 ss0).pop r.frame.reverse = some r := rfl

theorem Registers.entered_not_nested (r : Registers) (wrapper esp0 ss0 : UInt32) :
    ¬(r.entered wrapper esp0 ss0).Nested := by
  intro nested
  apply nested
  change quiet r.eflags &&& 0x4000 = 0
  unfold quiet
  rw [UInt32.and_assoc]
  exact UInt32.and_zero

/-- When process `i` is in the kernel, which has its stack below `top`, there is a frame for its return. What the
process has elsewhere is its own. -/
structure Framed (top : UInt32) (log : List (Turn × Seen)) (i : Nat) : Prop where
  frame : ∀ regs, lastRegs i log = some regs → regs.InKernel → ¬regs.Nested ∧ ∃ user, interrupted i log = some user ∧
    user.InUser ∧ user.Loadable ∧ regs.pop user.frame.reverse = some user ∧
    (lastStored log i).words 12 (top - 48) = some user.frame.reverse
  aside : ∀ va, ¬Beneath top kernelStack va → lastStored log i va = lastByte i va log

namespace Framed
variable {top : UInt32} {log : List (Turn × Seen)} {i : Nat} {o : Seen}

theorem other (framed : Framed top log i) {turn : Turn} (other : o.pid ≠ i) : Framed top ((turn, o) :: log) i := by
  obtain ⟨regs, user, stored, byte⟩ := log_other turn other log
  refine ⟨?_, ?_⟩
  · rw [regs, user, stored]
    exact framed.frame
  · intro va outside
    rw [stored, byte, framed.aside va outside]

theorem born (pid : o.pid = i) (user : o.regs.InUser) {p : Process} {text tLen : UInt32} :
    Framed top ((.spawn p text tLen, o) :: log) i := by
  subst pid
  refine ⟨fun regs last kernel => ?_, fun va _ => ?_⟩
  · have same : some o.regs = some regs := (if_pos rfl).symm.trans last
    cases same
    exact absurd kernel (Registers.not_inKernel user rfl)
  · calc
      _ = o.bytes va := congrFun (Function.update_self o.pid o.bytes (lastStored log)) va
      _ = _ := (if_pos rfl).symm

variable (framed : Framed top log i) (pid : o.pid = i)
include framed pid

/-- The frame is pushed. -/
theorem interrupt {user : Registers} {wrapper ss0 : UInt32} (last : lastRegs i log = some user)
    (inUser : user.InUser) (loadable : user.Loadable) (room : kernelStack ≤ top.toNat)
    (regs : o.regs = user.entered wrapper top ss0) :
    Framed top ((.interrupt wrapper, o) :: log) i := by
  subst pid
  have half := kernelStack_eq
  have long : user.frame.length = 12 := rfl
  have esp : o.regs.esp = top - 48 := congrArg Registers.esp regs
  have stored : lastStored ((.interrupt wrapper, o) :: log) o.pid =
      (lastStored log o.pid).after (pushes top user.frame) := by
    rw [lastStored_interrupt last esp, Function.update_self]
  refine ⟨fun regs' now kernel => ?_, fun va outside => ?_⟩
  · have same : some o.regs = some regs' := (if_pos rfl).symm.trans now
    cases same
    refine ⟨?_, user, (if_pos rfl).trans last, inUser, loadable, ?_, ?_⟩
    · rw [regs]
      exact user.entered_not_nested wrapper top ss0
    · rw [regs]
      exact user.pop_frame wrapper top ss0
    · rw [stored]
      exact View.words_pushes (by omega)
  · rw [stored, View.after_pushes (by omega)]
    · exact framed.aside va outside
    · unfold Beneath at outside ⊢
      omega

/-- What the kernel stores lies below the frame. -/
theorem store {va : UInt32} {v : UInt8} (room : kernelStack ≤ top.toNat)
    (below : Beneath (top - 48) (kernelStack - 48) va) :
    Framed top ((.store va v, o) :: log) i := by
  subst pid
  have half := kernelStack_eq
  have base : (top - 48).toNat = top.toNat - 48 :=
    UInt32.toNat_sub_of_le _ _ (UInt32.le_iff_toNat_le.mpr (show 48 ≤ top.toNat by omega))
  have bound := top.toNat_lt
  unfold Beneath at below
  have stored : ∀ x, x ≠ va → lastStored ((.store va v, o) :: log) o.pid x = lastStored log o.pid x := by
    intro x differ
    rw [lastStored, Function.update_self]
    exact Function.update_of_ne differ _ _
  refine ⟨fun regs now kernel => ?_, fun x outside => ?_⟩
  · obtain ⟨single, user, was, inUser, loadable, pop, words⟩ := framed.frame regs now kernel
    refine ⟨single, user, was, inUser, loadable, pop, ?_⟩
    rw [← words]
    apply View.words_congr (by omega)
    intro x lower upper
    apply stored
    rintro rfl
    omega
  · rw [stored]
    · exact framed.aside x outside
    · rintro rfl
      unfold Beneath at outside
      omega

theorem iret (user : o.regs.InUser) : Framed top ((.iret, o) :: log) i := by
  subst pid
  refine ⟨fun regs last kernel => ?_, framed.aside⟩
  have same : some o.regs = some regs := (if_pos rfl).symm.trans last
  cases same
  exact absurd kernel (Registers.not_inKernel user rfl)

/-- The kernel keeps the data segments as it has found them, and so the frame is one for them. -/
theorem work {old regs : Registers} (last : lastRegs i log = some old)
    (kept : regs.InKernel → old.InKernel ∧ regs.es = old.es ∧ regs.ds = old.ds ∧ regs.fs = old.fs ∧
      regs.gs = old.gs ∧ (regs.Nested → old.Nested)) :
    Framed top ((.work regs, o) :: log) i := by
  subst pid
  refine ⟨fun regs' now kernel => ?_, framed.aside⟩
  have same : some regs = some regs' := (if_pos rfl).symm.trans now
  cases same
  obtain ⟨inside, es, ds, fs, gs, nested⟩ := kept kernel
  obtain ⟨single, user, was, inUser, loadable, pop, words⟩ := framed.frame old last inside
  refine ⟨fun flag => single (nested flag), user, was, inUser, loadable, ?_, words⟩
  rw [← pop]
  unfold Registers.frame Registers.pop
  rw [es, ds, fs, gs]

theorem write {old : Registers} (last : lastRegs i log = some old) (user : old.InUser) {va : UInt32} {v : UInt8} :
    Framed top ((.write va v, o) :: log) i := by
  subst pid
  refine ⟨fun regs now kernel => ?_, fun x outside => ?_⟩
  · have same : some old = some regs := last.symm.trans now
    cases same
    exact absurd kernel (Registers.not_inKernel user rfl)
  · rw [lastStored, Function.update_self, lastByte]
    by_cases here : va = x
    · rw [if_pos ⟨rfl, here⟩, ← here]
      exact Function.update_self va _ _
    · rw [if_neg fun same => here same.2, ← framed.aside x outside]
      exact Function.update_of_ne (Ne.symm here) _ _

end Framed

end Sos.Kernel
