import Mathlib.Data.Multiset.MapFold
import Sos.Kernel.Interrupts

/-! Interrupts that come before one another: which are in service, and which one a wrapper ends. -/

namespace Sos.Kernel
open Sos.Lib

/-- What one step does. -/
inductive Moves (addr : Trap → UInt32) (code : ℕ → Option Trap) (s : Cpu) : Event → Report → Cpu → Prop where
  | raise (line : ℕ) : Moves addr code s (.raise line) .quiet { s with pics := s.pics.raise line }
  | accept {line v num : ℕ} {pics : Pics} {enabled : Bool} (taken : s.pics.acknowledge = some (line, v, pics))
      (present : (Gate.ofBytes (idt addr v)).present ≠ 0)
      (wrapper : code (Gate.ofBytes (idt addr v)).offset = some (.irq num)) :
      Moves addr code s .accept (.took line) ({ s with pics := pics }.withStack (.irq line num .entered :: s.stack) enabled)
  | cli {line num : ℕ} {rest : List Activation} (top : s.stack = .irq line num .entered :: rest) :
      Moves addr code s .cli .quiet (s.withStack (.irq line num .closed :: rest) false)
  | eoi {line num : ℕ} {rest : List Activation} {pics : Pics} (top : s.stack = .irq line num .closed :: rest)
      (ended : endIrq num s.pics = .done () pics) :
      Moves addr code s .eoi .quiet ({ s with pics := pics }.withStack (.irq line num .ended :: rest) s.enabled)
  | call {line num : ℕ} {rest : List Activation} (top : s.stack = .irq line num .ended :: rest)
      (inside : num < maxIrqNum) :
      Moves addr code s .call (.ran line num (s.irqs num)) (s.withStack (.irq line num .running :: rest) s.enabled)
  | iret {rest : List Activation}
      (top : (∃ line num, s.stack = .irq line num .running :: rest) ∨ s.stack = .syscall :: rest) :
      Moves addr code s .iret .quiet (s.withStack rest true)
  | sti (inside : inKernel s.stack = true) : Moves addr code s .sti .quiet (s.withStack s.stack true)
  | syscall {enabled : Bool} (top : s.stack = []) : Moves addr code s .syscall .quiet (s.withStack [.syscall] enabled)
  | irq {c : IrqCall} {pics : Pics} {r : Int} (masks : Pics.switched c s.pics = .done r pics) :
      Moves addr code s (.irq c) .quiet { s with pics := pics }
  | bind {num : ℕ} {handler : Option ℕ} (inside : num < maxIrqNum) :
      Moves addr code s (.bind num handler) .quiet { s with irqs := Function.update s.irqs num handler }
  | switch {i : ℕ} (inside : inKernel s.stack = true) : Moves addr code s (.switch i) .quiet { s with cur := i }
  | exit {i : ℕ} (top : s.stack = [.syscall]) : Moves addr code s (.exit i) .quiet { s.withStack [] true with cur := i }

theorem step_moves {addr : Trap → UInt32} {code : ℕ → Option Trap} {e : Event} {s t : Cpu} {r : Report}
    (run : step addr code e s = .done r t) : Moves addr code s e r t := by
  cases e with
  | raise line =>
    cases run
    exact .raise line
  | accept =>
    simp only [step] at run
    split at run
    next on =>
      split at run
      next line v pics taken =>
        split at run
        next => cases run
        next present =>
          split at run
          next num wrapper =>
            cases run
            exact .accept taken present wrapper
          next => cases run
      next => cases run
    next => cases run
  | cli =>
    simp only [step] at run
    split at run
    next line num rest top =>
      cases run
      exact .cli top
    next => cases run
  | eoi =>
    simp only [step] at run
    split at run
    next line num rest top =>
      split at run
      next pics ended =>
        cases run
        exact .eoi top ended
      next => cases run
    next => cases run
  | call =>
    simp only [step] at run
    split at run
    next line num rest top =>
      split at run
      next inside =>
        cases run
        exact .call top inside
      next => cases run
    next => cases run
  | iret =>
    simp only [step] at run
    split at run
    next line num rest top =>
      cases run
      exact .iret (Or.inl ⟨line, num, top⟩)
    next rest top =>
      cases run
      exact .iret (Or.inr top)
    next => cases run
  | sti =>
    simp only [step] at run
    split at run
    next inside =>
      cases run
      exact .sti inside
    next => cases run
  | syscall =>
    simp only [step] at run
    split at run
    next top =>
      split at run
      · cases run
        exact .syscall top
      · cases run
    next => cases run
  | irq c =>
    simp only [step] at run
    split at run
    next r' pics masks =>
      cases run
      exact .irq masks
    next => cases run
  | bind num handler =>
    simp only [step] at run
    split at run
    next inside =>
      cases run
      exact .bind inside
    next => cases run
  | switch i =>
    simp only [step] at run
    split at run
    next inside =>
      cases run
      exact .switch inside
    next => cases run
  | exit i =>
    simp only [step] at run
    split at run
    next top =>
      cases run
      exact .exit top
    next => cases run

namespace Cpu
variable {s : Cpu} {f : List Activation → List ℕ}

theorem stack_withStack (stack : List Activation) (enabled : Bool) : (s.withStack stack enabled).stack = stack :=
  Function.update_self _ _ _

/-- What the tasks have that do not run. -/
def totalElse (f : List Activation → List ℕ) (s : Cpu) : Multiset ℕ :=
  ∑ i ∈ (Finset.range numTasks).erase s.cur, (f (s.stackOf i) : Multiset ℕ)

theorem total_eq (small : s.cur < numTasks) : s.total f = (f s.stack : Multiset ℕ) + s.totalElse f :=
  (Finset.add_sum_erase _ _ (Finset.mem_range.mpr small)).symm

/-- Of a change of its stack the others see nothing. -/
theorem totalElse_withStack (stack : List Activation) (enabled : Bool) :
    (s.withStack stack enabled).totalElse f = s.totalElse f := by
  refine Finset.sum_congr rfl fun i member => ?_
  have other : i ≠ s.cur := (Finset.mem_erase.mp member).1
  exact congrArg (fun l => (f l : Multiset ℕ)) (Function.update_of_ne other _ _)

theorem total_withStack (small : s.cur < numTasks) (stack : List Activation) (enabled : Bool) :
    (s.withStack stack enabled).total f = (f stack : Multiset ℕ) + s.totalElse f := by
  have total := (s.withStack stack enabled).total_eq (f := f) small
  rwa [stack_withStack, totalElse_withStack] at total

theorem mem_totalElse {l : ℕ} : l ∈ s.totalElse f ↔ ∃ i, i < numTasks ∧ i ≠ s.cur ∧ l ∈ f (s.stackOf i) := by
  rw [totalElse, Multiset.mem_sum]
  simp only [Finset.mem_erase, Finset.mem_range, Multiset.mem_coe]
  constructor
  · rintro ⟨i, ⟨other, small⟩, member⟩
    exact ⟨i, small, other, member⟩
  · rintro ⟨i, small, other, member⟩
    exact ⟨i, ⟨other, small⟩, member⟩

end Cpu

/-- What the processor takes: the line goes before all in service, and is from now on. -/
structure Taken (p : Pics) (line v : ℕ) (q : Pics) : Prop where
  known : line < 16
  other : line ≠ Pics.wire
  vector : v = 40 + line
  ready : q.Ready
  masks : q.masks = p.masks
  fresh : level line ∉ p.master.isr
  first : ∀ j, j < 8 → j ∈ p.master.isr → level line < j
  master : q.master.isr = insert (level line) p.master.isr
  lower : line < 8 → p.master.masked line = false ∧ q.slave.isr = p.slave.isr
  upper : 8 ≤ line → p.slave.masked (line - 8) = false ∧ line - 8 ∉ p.slave.isr ∧
    q.slave.isr = insert (line - 8) p.slave.isr

theorem Pics.Ready.taken {p q : Pics} {line v : ℕ} (ready : p.Ready)
    (found : p.acknowledge = some (line, v, q)) : Taken p line v q := by
  obtain ⟨vector, cascade, icw⟩ := ready.master
  obtain ⟨vector', cascade', icw'⟩ := ready.slave
  obtain ⟨k, asked, found⟩ := Option.bind_eq_some_iff.mp found
  obtain ⟨small, -, unmasked, fresh, first⟩ := Chip.of_request asked
  have wired : p.master.cascade.toBitVec.getLsbD k = decide (k = 2) := by
    have all : ∀ k, k < 8 → (0x04 : UInt8).toBitVec.getLsbD k = decide (k = 2) := by decide
    rw [cascade]
    exact all k small
  simp only [wired] at found
  by_cases second : k = 2
  · subst second
    simp only [decide_true, if_true] at found
    obtain ⟨j, asked', found⟩ := Option.bind_eq_some_iff.mp found
    obtain ⟨small', -, unmasked', fresh', -⟩ := Chip.of_request asked'
    have answers : (p.slave.cascade &&& 7).toNat = 2 := by
      rw [cascade']
      decide
    rw [if_pos answers, Option.some.injEq] at found
    cases found
    have here : level (8 + j) = 2 := if_neg (by omega)
    have back : 8 + j - 8 = j := by omega
    refine ⟨by omega, by unfold Pics.wire; omega, ?_, ⟨⟨vector, cascade, icw⟩, ⟨vector', cascade', icw'⟩⟩, rfl, ?_, ?_,
      ?_, ?_, ?_⟩
    · rw [vector', show (0x30 : UInt8).toNat = 48 by decide]
      omega
    · rw [here]
      exact fresh
    · rw [here]
      exact first
    · rw [here]
    · intro low
      omega
    · intro _
      rw [back]
      exact ⟨unmasked', fresh', rfl⟩
  · simp only [second, decide_false, Bool.false_eq_true, if_false, Option.some.injEq] at found
    cases found
    have here : level line = line := if_pos small
    refine ⟨by omega, second, ?_, ⟨⟨vector, cascade, icw⟩, ⟨vector', cascade', icw'⟩⟩, rfl, ?_, ?_, ?_, ?_, ?_⟩
    · rw [vector]
      rfl
    · rw [here]
      exact fresh
    · rw [here]
      exact first
    · rw [here]
    · exact fun _ => ⟨unmasked, rfl⟩
    · intro high
      omega

/-- Whoever is at an address that the table has is the wrapper for the line. -/
theorem Taken.wrapper {p q : Pics} {line v num : ℕ} (taken : Taken p line v q) {addr : Trap → UInt32}
    {code : ℕ → Option Trap} (linked : ∀ trap, trap.Defined → code (addr trap).toNat = some trap)
    (present : (Gate.ofBytes (idt addr v)).present ≠ 0)
    (wrapper : code (Gate.ofBytes (idt addr v)).offset = some (.irq num)) : line ≠ 9 ∧ num = wired line := by
  rw [taken.vector, idt_line addr taken.known] at present wrapper
  by_cases ninth : line = 9
  · rw [if_pos ninth] at present
    exact absurd rfl present
  · rw [if_neg ninth, linked (.irq (wired line)) (wired_lt taken.known), Option.some.injEq, Trap.irq.injEq] at wrapper
    exact ⟨ninth, wrapper.symm⟩

theorem level_lt {line : ℕ} : level line < 8 := by
  unfold level
  split
  · assumption
  · decide

/-- The lines in service are those of the wrappers that have still to end them. The one that runs has the
highest priority. -/
structure Exact (s : Cpu) : Prop where
  ready : s.pics.Ready
  cur : s.cur < numTasks
  master : s.pics.master.isr.val = s.pending.map level
  slave : s.pics.slave.isr.val = (s.pending.filter fun l => 8 ≤ l).map fun l => l - 8
  known : ∀ i line num stage, .irq line num stage ∈ s.stackOf i → line < 16 ∧ line ≠ 9 ∧ num = wired line
  inner : (pendingOf s.stack).Pairwise fun l k => level l < level k
  outer : ∀ l, l ∈ pendingOf s.stack → ∀ k, k ∈ s.totalElse pendingOf → level l < level k

/-- A task is left for another one when at most one interrupt has still to be ended. -/
def Steady : Event → Cpu → Prop
  | .switch i, s => i < numTasks ∧ s.pending.card ≤ 1
  | .exit i, s => i < numTasks ∧ s.pending.card ≤ 1
  | _, _ => True

namespace Exact
variable {s : Cpu} (exact : Exact s)
include exact

theorem pending_eq : s.pending = (pendingOf s.stack : Multiset ℕ) + s.totalElse pendingOf := Cpu.total_eq exact.cur

theorem level_mem {l : ℕ} (member : l ∈ s.pending) : level l ∈ s.pics.master.isr := by
  rw [← Finset.mem_val, exact.master]
  exact Multiset.mem_map_of_mem level member

theorem known_withStack {stack : List Activation}
    (mine : ∀ line num stage, .irq line num stage ∈ stack → line < 16 ∧ line ≠ 9 ∧ num = wired line) (i : ℕ)
    {line num : ℕ} {stage : Stage} (member : .irq line num stage ∈ Function.update s.stackOf s.cur stack i) :
    line < 16 ∧ line ≠ 9 ∧ num = wired line := by
  by_cases here : i = s.cur
  · subst here
    rw [Function.update_self] at member
    exact mine line num stage member
  · rw [Function.update_of_ne here] at member
    exact exact.known i line num stage member

/-- A wrapper goes on, and its interrupt is as it was. -/
theorem same {stack : List Activation} (enabled : Bool) (pending : pendingOf stack = pendingOf s.stack)
    (mine : ∀ line num stage, .irq line num stage ∈ stack → line < 16 ∧ line ≠ 9 ∧ num = wired line) :
    Exact (s.withStack stack enabled) := by
  have total : (s.withStack stack enabled).pending = s.pending := by
    rw [exact.pending_eq, ← pending]
    exact Cpu.total_withStack exact.cur stack enabled
  refine ⟨exact.ready, exact.cur, ?_, ?_, fun i line num stage => exact.known_withStack mine i, ?_, ?_⟩
  · rw [total]
    exact exact.master
  · rw [total]
    exact exact.slave
  · rw [Cpu.stack_withStack, pending]
    exact exact.inner
  · rw [Cpu.stack_withStack, pending, Cpu.totalElse_withStack]
    exact exact.outer

theorem top_known {a : Activation} {rest : List Activation} (top : s.stack = a :: rest) :
    (∀ line num stage, a = .irq line num stage → line < 16 ∧ line ≠ 9 ∧ num = wired line) ∧
    ∀ line num stage, .irq line num stage ∈ rest → line < 16 ∧ line ≠ 9 ∧ num = wired line := by
  have all : ∀ line num stage, .irq line num stage ∈ s.stack → line < 16 ∧ line ≠ 9 ∧ num = wired line :=
    exact.known s.cur
  rw [top] at all
  refine ⟨fun line num stage same => ?_, fun line num stage member => ?_⟩
  · subst same
    exact all line num stage List.mem_cons_self
  · exact all line num stage (List.mem_cons_of_mem _ member)

theorem moved_known {line num line' num' : ℕ} {stage stage' stage'' : Stage} {rest : List Activation}
    (top : s.stack = .irq line num stage :: rest)
    (member : .irq line' num' stage'' ∈ Activation.irq line num stage' :: rest) :
    line' < 16 ∧ line' ≠ 9 ∧ num' = wired line' := by
  obtain ⟨first, others⟩ := exact.top_known top
  rcases List.mem_cons.mp member with same | later
  · obtain ⟨rfl, rfl, -⟩ := Activation.irq.inj same
    exact first _ _ _ rfl
  · exact others _ _ _ later

/-- The line that is taken goes before all that have still to be ended. -/
theorem accept {line v num : ℕ} {pics : Pics} {enabled : Bool} (taken : Taken s.pics line v pics)
    (mine : line ≠ 9 ∧ num = wired line) :
    Exact ({ s with pics := pics }.withStack (.irq line num .entered :: s.stack) enabled) := by
  have before : ∀ l, l ∈ s.pending → level line < level l := fun l member =>
    taken.first (level l) level_lt (exact.level_mem member)
  have total : ({ s with pics := pics }.withStack (.irq line num .entered :: s.stack) enabled).pending =
      line ::ₘ s.pending := by
    rw [exact.pending_eq, ← Multiset.cons_add]
    exact Cpu.total_withStack (s := { s with pics := pics }) exact.cur _ enabled
  refine ⟨taken.ready, exact.cur, ?_, ?_, fun i l n stage => exact.known_withStack ?_ i, ?_, ?_⟩
  · rw [total, Multiset.map_cons, ← exact.master]
    change pics.master.isr.val = _
    rw [taken.master, Finset.insert_val_of_notMem taken.fresh]
  · rw [total]
    change pics.slave.isr.val = _
    by_cases low : line < 8
    · rw [(taken.lower low).2, Multiset.filter_cons_of_neg _ (by omega), exact.slave]
    · obtain ⟨-, fresh, slave⟩ := taken.upper (by omega)
      rw [slave, Finset.insert_val_of_notMem fresh, Multiset.filter_cons_of_pos _ (by omega), Multiset.map_cons,
        exact.slave]
  · intro l n stage member
    rcases List.mem_cons.mp member with new | old
    · obtain ⟨rfl, rfl, -⟩ := Activation.irq.inj new
      exact ⟨taken.known, mine⟩
    · exact exact.known s.cur l n stage old
  · rw [Cpu.stack_withStack]
    refine List.pairwise_cons.mpr ⟨fun l member => before l ?_, exact.inner⟩
    rw [exact.pending_eq]
    exact Multiset.mem_add.mpr (Or.inl member)
  · rw [Cpu.stack_withStack, Cpu.totalElse_withStack]
    intro l member k other
    rcases List.mem_cons.mp member with rfl | old
    · refine before k ?_
      rw [exact.pending_eq]
      exact Multiset.mem_add.mpr (Or.inr other)
    · exact exact.outer l old k other

/-- The commands end the interrupt of the wrapper that gives them. -/
theorem ends {line num : ℕ} {rest : List Activation} {pics : Pics} (top : s.stack = .irq line num .closed :: rest)
    (ended : endIrq num s.pics = .done () pics) :
    pics = { master := { s.pics.master with isr := s.pics.master.isr.erase (level line) }
             slave := { s.pics.slave with isr := if 8 ≤ line then ∅ else s.pics.slave.isr } } := by
  have mine : pendingOf s.stack = line :: pendingOf rest := by
    rw [top]
    rfl
  have inner := exact.inner
  have outer := exact.outer
  rw [mine] at inner outer
  obtain ⟨-, -, num_eq⟩ := (exact.top_known top).1 line num .closed rfl
  have pending : s.pending = line ::ₘ ((pendingOf rest : Multiset ℕ) + s.totalElse pendingOf) := by
    rw [exact.pending_eq, mine, ← Multiset.cons_coe, Multiset.cons_add]
  have before : ∀ l, l ∈ (pendingOf rest : Multiset ℕ) + s.totalElse pendingOf → level line < level l := by
    intro l member
    rcases Multiset.mem_add.mp member with inside | other
    · exact (List.pairwise_cons.mp inner).1 l inside
    · exact outer line List.mem_cons_self l other
  have least : ∀ j, j ∈ s.pics.master.isr → level line ≤ j := by
    intro j member
    rw [← Finset.mem_val, exact.master, pending, Multiset.map_cons, Multiset.mem_cons] at member
    rcases member with rfl | later
    · exact le_refl _
    · obtain ⟨l, member, rfl⟩ := Multiset.mem_map.mp later
      exact (before l member).le
  have master := Chip.endOfInterrupt_isr level_lt (exact.level_mem (pending ▸ Multiset.mem_cons_self _ _)) least
  rw [endIrq_done, Outcome.done.injEq] at ended
  rw [← ended.2, master]
  congr 1
  have large : num > 7 ↔ 8 ≤ line := by
    rw [num_eq, wired]
    split
    · omega
    · omega
  by_cases upper : 8 ≤ line
  · rw [if_pos (large.mpr upper), if_pos upper]
    have none : ((pendingOf rest : Multiset ℕ) + s.totalElse pendingOf).filter (fun l => 8 ≤ l) = 0 := by
      refine Multiset.filter_eq_nil.mpr fun l member late => ?_
      have less := before l member
      rw [level, level, if_neg (by omega), if_neg (by omega)] at less
      exact absurd less (lt_irrefl _)
    have slave := exact.slave
    rw [pending, Multiset.filter_cons_of_pos _ upper, none] at slave
    have single : s.pics.slave.isr = {line - 8} := Finset.val_injective slave
    have bound := ((exact.top_known top).1 line num .closed rfl).1
    rw [Chip.endOfInterrupt_isr (k := line - 8) (by omega) (by rw [single]; exact Finset.mem_singleton_self _)
      (fun j member => by rw [single, Finset.mem_singleton] at member; omega), single]
    simp
  · rw [if_neg fun more => upper (large.mp more), if_neg upper]

theorem eoi {line num : ℕ} {rest : List Activation} {pics : Pics} (top : s.stack = .irq line num .closed :: rest)
    (ended : endIrq num s.pics = .done () pics) (enabled : Bool) :
    Exact ({ s with pics := pics }.withStack (.irq line num .ended :: rest) enabled) := by
  have mine : pendingOf s.stack = line :: pendingOf rest := by
    rw [top]
    rfl
  have left : pendingOf (.irq line num .ended :: rest) = pendingOf rest := rfl
  have inner := exact.inner
  have outer := exact.outer
  rw [mine] at inner outer
  have pending : s.pending = line ::ₘ ((pendingOf rest : Multiset ℕ) + s.totalElse pendingOf) := by
    rw [exact.pending_eq, mine, ← Multiset.cons_coe, Multiset.cons_add]
  have total : ({ s with pics := pics }.withStack (.irq line num .ended :: rest) enabled).pending =
      (pendingOf rest : Multiset ℕ) + s.totalElse pendingOf :=
    Cpu.total_withStack (s := { s with pics := pics }) exact.cur _ enabled
  have result := exact.ends top ended
  have master := exact.master
  have slave := exact.slave
  rw [pending, Multiset.map_cons] at master
  rw [pending] at slave
  refine ⟨?_, exact.cur, ?_, ?_, fun i l n stage => exact.known_withStack ?_ i, ?_, ?_⟩
  · change pics.Ready
    rw [result]
    exact ⟨exact.ready.master, exact.ready.slave⟩
  · rw [total]
    change pics.master.isr.val = _
    rw [result, Finset.erase_val, master, Multiset.erase_cons_head]
  · rw [total]
    change pics.slave.isr.val = _
    rw [result]
    by_cases upper : 8 ≤ line
    · have none : ((pendingOf rest : Multiset ℕ) + s.totalElse pendingOf).filter (fun l => 8 ≤ l) = 0 := by
        refine Multiset.filter_eq_nil.mpr fun l member late => ?_
        have less : level line < level l := by
          rcases Multiset.mem_add.mp member with inside | other
          · exact (List.pairwise_cons.mp inner).1 l inside
          · exact outer line List.mem_cons_self l other
        rw [level, level, if_neg (by omega), if_neg (by omega)] at less
        exact absurd less (lt_irrefl _)
      rw [none]
      simp only [if_pos upper]
      rfl
    · simp only [if_neg upper]
      rw [slave, Multiset.filter_cons_of_neg _ upper]
  · intro l n stage member
    exact exact.moved_known top member
  · rw [Cpu.stack_withStack, left]
    exact (List.pairwise_cons.mp inner).2
  · rw [Cpu.stack_withStack, left, Cpu.totalElse_withStack]
    exact fun l member => outer l (List.mem_cons_of_mem _ member)

/-- With one interrupt to be ended at most, there is no order among them. -/
theorem switch {i : ℕ} (small : i < numTasks) (few : s.pending.card ≤ 1) : Exact { s with cur := i } := by
  have total : s.pending = (pendingOf (s.stackOf i) : Multiset ℕ) + ({ s with cur := i } : Cpu).totalElse pendingOf :=
    Cpu.total_eq (s := { s with cur := i }) small
  have count := congrArg Multiset.card total
  rw [Multiset.card_add, Multiset.coe_card] at count
  refine ⟨exact.ready, small, exact.master, exact.slave, exact.known, ?_, ?_⟩
  · change (pendingOf (s.stackOf i)).Pairwise _
    cases mine : pendingOf (s.stackOf i) with
    | nil => exact List.Pairwise.nil
    | cons l rest =>
      rw [mine, List.length_cons] at count
      have none : rest = [] := List.length_eq_zero_iff.mp (by omega)
      rw [none]
      exact List.pairwise_singleton _ _
  · intro l member k other
    have first : 0 < (pendingOf (s.stackOf i)).length := List.length_pos_of_mem member
    have second : 0 < (({ s with cur := i } : Cpu).totalElse pendingOf).card := Multiset.card_pos_iff_exists_mem.mpr ⟨k, other⟩
    omega

/-- Requests and masks do not matter. -/
theorem aside {pics : Pics} (ready : pics.Ready) (master : pics.master.isr = s.pics.master.isr)
    (slave : pics.slave.isr = s.pics.slave.isr) : Exact { s with pics := pics } :=
  ⟨ready, exact.cur, (congrArg Finset.val master).trans exact.master, (congrArg Finset.val slave).trans exact.slave,
    exact.known, exact.inner, exact.outer⟩

theorem moves {addr : Trap → UInt32} {code : ℕ → Option Trap}
    (linked : ∀ trap, trap.Defined → code (addr trap).toNat = some trap) {e : Event} {r : Report} {t : Cpu} (orderly : Steady e s) (moves : Moves addr code s e r t) : Exact t := by
  cases moves with
  | raise line =>
    unfold Pics.raise
    split
    · exact exact.aside ⟨exact.ready.master, exact.ready.slave⟩ rfl rfl
    · exact exact.aside ⟨exact.ready.master, exact.ready.slave⟩ rfl rfl
  | accept found present wrapper =>
    have taken := exact.ready.taken found
    exact exact.accept taken (taken.wrapper linked present wrapper)
  | cli top =>
    refine exact.same false ?_ fun line num stage member => exact.moved_known top member
    rw [top]
    rfl
  | eoi top ended => exact exact.eoi top ended s.enabled
  | call top inside =>
    refine exact.same s.enabled ?_ fun line num stage member => exact.moved_known top member
    rw [top]
    rfl
  | iret top =>
    rcases top with ⟨line, num, top⟩ | top
    · refine exact.same true ?_ (exact.top_known top).2
      rw [top]
      rfl
    · refine exact.same true ?_ (exact.top_known top).2
      rw [top]
      rfl
  | sti inside => exact exact.same true rfl (exact.known s.cur)
  | syscall top =>
    refine exact.same _ ?_ fun line num stage member => ?_
    · rw [top]
      rfl
    · cases List.mem_singleton.mp member
  | irq masks =>
    obtain ⟨u, -, rfl⟩ := Prog.of_zoom_done masks
    exact exact.aside ⟨exact.ready.master, exact.ready.slave⟩ rfl rfl
  | bind inside => exact ⟨exact.ready, exact.cur, exact.master, exact.slave, exact.known, exact.inner, exact.outer⟩
  | switch inside => exact exact.switch orderly.1 orderly.2
  | exit top =>
    have left : Exact (s.withStack [] true) := by
      refine exact.same true ?_ fun line num stage member => absurd member List.not_mem_nil
      rw [top]
      rfl
    refine left.switch orderly.1 ?_
    have total : (s.withStack [] true).pending = s.pending := by
      rw [exact.pending_eq, top]
      exact Cpu.total_withStack exact.cur [] true
    rw [total]
    exact orderly.2

end Exact

/-- Every interrupt that was taken has called, or has still to call. -/
def Called (log : List (Event × Report)) (s : Cpu) : Prop :=
  tookLines log = ranLines log + s.uncalled ∧
    ∀ e line num handler, (e, .ran line num handler) ∈ log → num = wired line

theorem Called.moves {log : List (Event × Report)} {s t : Cpu} (called : Called log s) (exact : Exact s)
    {addr : Trap → UInt32} {code : ℕ → Option Trap} {e : Event} {r : Report} (moves : Moves addr code s e r t) :
    Called ((e, r) :: log) t := by
  obtain ⟨balance, numbers⟩ := called
  have total : s.uncalled = (uncalledOf s.stack : Multiset ℕ) + s.totalElse uncalledOf := Cpu.total_eq exact.cur
  have after : ∀ (stack : List Activation) (enabled : Bool),
      (s.withStack stack enabled).uncalled = (uncalledOf stack : Multiset ℕ) + s.totalElse uncalledOf :=
    fun stack enabled => Cpu.total_withStack exact.cur stack enabled
  have older : ∀ {e r}, (∀ line num handler, r ≠ .ran line num handler) →
      ∀ e' line num handler, (e', .ran line num handler) ∈ (e, r) :: log → num = wired line := by
    intro e r none e' line num handler member
    rcases List.mem_cons.mp member with new | old
    · exact absurd (Prod.mk.inj new).2.symm (none line num handler)
    · exact numbers e' line num handler old
  have quiet : ∀ {e u}, u.uncalled = s.uncalled → Called ((e, .quiet) :: log) u := by
    intro e u same
    refine ⟨?_, older fun _ _ _ => Report.noConfusion⟩
    rw [same]
    exact balance
  have goesOn : ∀ {e stack enabled}, uncalledOf stack = uncalledOf s.stack →
      Called ((e, .quiet) :: log) (s.withStack stack enabled) := by
    intro e stack enabled same
    refine quiet ?_
    rw [after, same, total]
  cases moves with
  | raise line => exact quiet rfl
  | @accept line v num pics enabled found present wrapper =>
    refine ⟨?_, older fun _ _ _ => Report.noConfusion⟩
    have more : ({ s with pics := pics }.withStack (.irq line num .entered :: s.stack) enabled).uncalled =
        line ::ₘ s.uncalled := by
      rw [total, ← Multiset.cons_add]
      exact Cpu.total_withStack (s := { s with pics := pics }) exact.cur _ enabled
    change line ::ₘ tookLines log = ranLines log + _
    rw [more, balance, Multiset.add_cons]
  | cli top =>
    refine goesOn ?_
    rw [top]
    rfl
  | @eoi line num rest pics top ended =>
    refine quiet ?_
    rw [total, top]
    exact Cpu.total_withStack (s := { s with pics := pics }) exact.cur _ s.enabled
  | @call line num rest top inside =>
    refine ⟨?_, fun e' l n handler member => ?_⟩
    · change tookLines log = (line ::ₘ ranLines log) + _
      have mine : uncalledOf s.stack = line :: uncalledOf rest := by
        rw [top]
        rfl
      rw [after, balance, total, mine, ← Multiset.cons_coe, Multiset.cons_add, Multiset.add_cons, Multiset.cons_add]
      rfl
    · rcases List.mem_cons.mp member with new | old
      · obtain ⟨-, same⟩ := Prod.mk.inj new
        obtain ⟨rfl, rfl, -⟩ := Report.ran.inj same
        exact ((exact.top_known top).1 _ _ _ rfl).2.2
      · exact numbers e' l n handler old
  | iret top =>
    refine goesOn ?_
    rcases top with ⟨line, num, top⟩ | top
    all_goals
      rw [top]
      rfl
  | sti inside => exact goesOn rfl
  | syscall top =>
    refine goesOn ?_
    rw [top]
    rfl
  | irq masks => exact quiet rfl
  | bind inside => exact quiet rfl
  | switch inside => exact quiet rfl
  | exit top =>
    refine quiet ?_
    have left := after [] true
    rw [total, top]
    exact left

end Sos.Kernel
