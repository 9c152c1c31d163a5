import Sos.Lib.Runs
import Sos.Kernel.Nesting

/-! Every interrupt is ended and calls its handler once, whatever else happens meanwhile. -/

namespace Sos.Kernel
open Sos.Lib

/-- The machine after `init_pic`, when no interrupt has been taken. -/
structure Booted (s : Cpu) : Prop where
  pics : ∃ p : Pics, p.master.isr = ∅ ∧ p.slave.isr = ∅ ∧ initPic p = .done retSuccess s.pics
  cur : s.cur = 0
  idle : ∀ i, s.stackOf i = []

theorem Booted.total {s : Cpu} (booted : Booted s) {f : List Activation → List ℕ} (none : f [] = []) : s.total f = 0 := by
  refine Finset.sum_eq_zero fun i _ => ?_
  rw [booted.idle i, none]
  rfl

theorem Booted.exact {s : Cpu} (booted : Booted s) : Exact s := by
  obtain ⟨p, master, slave, init⟩ := booted.pics
  rw [initPic_done, Outcome.done.injEq] at init
  have pics := init.2
  have pending : s.pending = 0 := booted.total rfl
  refine ⟨?_, ?_, ?_, ?_, fun i line num stage member => ?_, ?_, ?_⟩
  · rw [← pics]
    exact ⟨⟨rfl, rfl, rfl⟩, ⟨rfl, rfl, rfl⟩⟩
  · rw [booted.cur]
    decide
  · rw [pending, ← pics]
    exact congrArg Finset.val master
  · rw [pending, ← pics]
    exact congrArg Finset.val slave
  · rw [booted.idle i] at member
    exact absurd member List.not_mem_nil
  · rw [Cpu.stack, booted.idle]
    exact List.Pairwise.nil
  · intro l member
    rw [Cpu.stack, booted.idle] at member
    exact absurd member List.not_mem_nil

theorem Booted.called {s : Cpu} (booted : Booted s) : Called [] s := by
  have uncalled : s.uncalled = 0 := booted.total rfl
  refine ⟨?_, fun _ _ _ _ member => absurd member List.not_mem_nil⟩
  rw [uncalled]
  rfl

/-- The wrapper's next step. -/
def Stage.next : Stage → Event
  | .entered => .cli
  | .closed => .eoi
  | .ended => .call
  | .running => .iret

section
variable {addr : Trap → UInt32} {code : ℕ → Option Trap} {s : Cpu}

theorem Exact.eoi_done (exact : Exact s) {line num : ℕ} {rest : List Activation}
    (top : s.stack = .irq line num .closed :: rest) : ∃ t, step addr code .eoi s = .done .quiet t ∧
      t.pics.master.isr = s.pics.master.isr.erase (level line) ∧
      t.pics.slave.isr = if 8 ≤ line then ∅ else s.pics.slave.isr := by
  have ended := endIrq_done num s.pics
  have result := exact.ends top ended
  simp only [step, top, ended]
  refine ⟨_, rfl, ?_, ?_⟩
  · exact congrArg (fun p : Pics => p.master.isr) result
  · exact congrArg (fun p : Pics => p.slave.isr) result

/-- A wrapper goes on to its end, but for the one of the last line: `irqs` has no place for it. -/
theorem next_done {line num : ℕ} {stage : Stage} {rest : List Activation} (top : s.stack = .irq line num stage :: rest)
    (inside : stage = .ended → num < maxIrqNum) : ∃ r t, step addr code stage.next s = .done r t := by
  cases stage with
  | entered =>
    simp only [Stage.next, step, top]
    exact ⟨_, _, rfl⟩
  | closed =>
    simp only [Stage.next, step, top, endIrq_done]
    exact ⟨_, _, rfl⟩
  | ended =>
    simp only [Stage.next, step, top, if_pos (inside rfl)]
    exact ⟨_, _, rfl⟩
  | running =>
    simp only [Stage.next, step, top]
    exact ⟨_, _, rfl⟩

/-- What the ninth line brings about. -/
theorem Exact.ninth (exact : Exact s) (enabled : s.enabled = true) {v : ℕ} {pics : Pics}
    (found : s.pics.acknowledge = some (9, v, pics)) : step addr code .accept s = .exit { s with pics := pics } := by
  have vector := (exact.ready.taken found).vector
  subst vector
  simp only [step, enabled, found, if_true]
  rw [idt_line addr (by decide), if_pos rfl]
  rfl

/-- Without a gate there is no going on; with one the wrapper is entered. -/
theorem Exact.accept_done (exact : Exact s) (linked : ∀ trap, trap.Defined → code (addr trap).toNat = some trap)
    (enabled : s.enabled = true) {line v : ℕ} {pics : Pics} (found : s.pics.acknowledge = some (line, v, pics))
    (other : line ≠ 9) : ∃ t, step addr code .accept s = .done (.took line) t := by
  have taken := exact.ready.taken found
  have wrapped := wired_lt taken.known
  simp only [step, enabled, found, if_true]
  rw [taken.vector, idt_line addr taken.known, if_neg other]
  simp only [linked (.irq (wired line)) wrapped]
  exact ⟨_, rfl⟩

/-- One task, and any calls that switch lines on and off. -/
def Alone : Event → Cpu → Prop
  | .irq c, _ => c.Known
  | .switch _, _ => False
  | .exit _, _ => False
  | _, _ => True

/-- The wrappers in the order of the file. -/
def traps : List Trap :=
  [.divide, .debug, .nmi, .break, .overflow, .bound, .illegal, .fpu, .doublefault, .cso, .invalidtts, .segnotpres, .stack,
    .genpro, .page, .reserved, .floatpt, .align, .machine, .syscall] ++ (List.range 16).map .irq

def wrapperAt (trap : Trap) : UInt32 := UInt32.ofNat (traps.idxOf trap)

theorem traps_linked (trap : Trap) (known : trap.Defined) : traps[(wrapperAt trap).toNat]? = some trap := by
  have member : trap ∈ traps := by
    cases trap with
    | irq num => exact List.mem_append_right _ (List.mem_map_of_mem (List.mem_range.mpr known))
    | _ => decide
  have place := List.idxOf_lt_length_of_mem member
  have short : traps.length < 2 ^ 32 := by decide
  rw [wrapperAt, UInt32.toNat_ofNat', Nat.mod_eq_of_lt (by omega)]
  exact List.getElem?_idxOf member

/-- After `init_pic`, with these masks: timer and keyboard have handlers, and the first task is in these wrappers. -/
def wiredCpu (imr : UInt8) (irr isr : Finset ℕ) (stack : List Activation) (enabled : Bool) : Cpu where
  pics := ⟨⟨imr, irr, isr, 0x28, 0x04, 0⟩, ⟨0xFF, ∅, ∅, 0x30, 0x02, 0⟩⟩
  irqs := fun num => if num < 2 then some num else none
  cur := 0
  stackOf := Function.update (fun _ => []) 0 stack
  flags := Function.update (fun _ => true) 0 enabled

/-- No line is let through, and nothing asks. -/
def quietCpu : Cpu := wiredCpu 0xFB ∅ ∅ [] true

theorem booted_quietCpu : Booted quietCpu := by
  refine ⟨⟨quietCpu.pics, rfl, rfl, rfl⟩, rfl, fun i => ?_⟩
  change Function.update (fun _ => []) 0 [] i = []
  rw [Function.update_eq_self]

section
variable {imr : UInt8} {irr isr irr' isr' : Finset ℕ} {stack stack' : List Activation} {enabled enabled' : Bool}
  {e : Event} {r : Report}

theorem wiredCpu_step (run : step wrapperAt (fun a => traps[a]?) e (wiredCpu imr irr isr stack enabled) =
    .done r ({ wiredCpu imr irr isr stack enabled with
      pics := ⟨⟨imr, irr', isr', 0x28, 0x04, 0⟩, ⟨0xFF, ∅, ∅, 0x30, 0x02, 0⟩⟩ }.withStack stack' enabled')) :
    step wrapperAt (fun a => traps[a]?) e (wiredCpu imr irr isr stack enabled) =
      .done r (wiredCpu imr irr' isr' stack' enabled') := by
  rw [run]
  simp only [Cpu.withStack, wiredCpu, Function.update_idem]

/-- The second task takes over, and ends. -/
theorem wiredCpu_exit : step wrapperAt (fun a => traps[a]?) (.exit 0)
    ({ wiredCpu imr irr isr stack enabled with cur := 1 }.withStack [.syscall] false) =
      .done .quiet (wiredCpu imr irr isr stack enabled) := by
  have run : step wrapperAt (fun a => traps[a]?) (.exit 0)
      ({ wiredCpu imr irr isr stack enabled with cur := 1 }.withStack [.syscall] false) =
      .done .quiet { ({ wiredCpu imr irr isr stack enabled with cur := 1 }.withStack [.syscall] false).withStack [] true
        with cur := 0 } := rfl
  rw [run]
  simp only [Cpu.withStack, wiredCpu, Function.update_idem]
  congr 2
  · exact Function.update_eq_self_iff.mpr rfl
  · exact Function.update_eq_self_iff.mpr rfl

end

/-- Both lines are switched on, a key is pressed, and its wrapper is interrupted by the timer, whose handler is called. -/
def overtaken : List (Event × Report) :=
  [(.call, .ran 0 0 (some 0)), (.eoi, .quiet), (.cli, .quiet), (.accept, .took 0), (.raise 0, .quiet),
    (.accept, .took 1), (.raise 1, .quiet), (.irq (.enable 1), .quiet), (.irq (.enable 0), .quiet)]

/-- The timer's wrapper returns, and then that of the keyboard does its work. -/
def resumed : List (Event × Report) :=
  [(.iret, .quiet), (.call, .ran 1 1 (some 1)), (.eoi, .quiet), (.cli, .quiet), (.iret, .quiet)]

section
variable {allowed : Event → Cpu → Prop} (events : ∀ e s, Alone e s → (∀ num, e = .irq (.enable num) → num.toNat < 2) →
  allowed e s)
include events

theorem goes_on {log : List (Event × Report)} {s t : Cpu} {e : Event} {r : Report}
    (run : step wrapperAt (fun a => traps[a]?) e s = .done r t)
    (before : Runs (step wrapperAt fun a => traps[a]?) allowed quietCpu log s) (alone : Alone e s)
    (other : ∀ c, e ≠ .irq c) : Runs (step wrapperAt fun a => traps[a]?) allowed quietCpu ((e, r) :: log) t :=
  before.call (events e s alone fun num same => absurd same (other (.enable num))) run

theorem overtaken_runs : Runs (step wrapperAt fun a => traps[a]?) allowed quietCpu overtaken
    (wiredCpu 0xF8 ∅ {1} [.irq 0 0 .running, .irq 1 1 .entered] false) := by
  have timer : step wrapperAt (fun a => traps[a]?) (.irq (.enable 0)) quietCpu =
      .done .quiet (wiredCpu 0xFA ∅ ∅ [] true) := rfl
  have keyboard : step wrapperAt (fun a => traps[a]?) (.irq (.enable 1)) (wiredCpu 0xFA ∅ ∅ [] true) =
      .done .quiet (wiredCpu 0xF8 ∅ ∅ [] true) := rfl
  have pressed : step wrapperAt (fun a => traps[a]?) (.raise 1) (wiredCpu 0xF8 ∅ ∅ [] true) =
      .done .quiet (wiredCpu 0xF8 {1} ∅ [] true) := rfl
  have key : step wrapperAt (fun a => traps[a]?) .accept (wiredCpu 0xF8 {1} ∅ [] true) =
      .done (.took 1) (wiredCpu 0xF8 ∅ {1} [.irq 1 1 .entered] true) := wiredCpu_step rfl
  have ticked : step wrapperAt (fun a => traps[a]?) (.raise 0) (wiredCpu 0xF8 ∅ {1} [.irq 1 1 .entered] true) =
      .done .quiet (wiredCpu 0xF8 {0} {1} [.irq 1 1 .entered] true) := rfl
  have tick : step wrapperAt (fun a => traps[a]?) .accept (wiredCpu 0xF8 {0} {1} [.irq 1 1 .entered] true) =
      .done (.took 0) (wiredCpu 0xF8 ∅ {0, 1} [.irq 0 0 .entered, .irq 1 1 .entered] true) := wiredCpu_step rfl
  have closed : step wrapperAt (fun a => traps[a]?) .cli
      (wiredCpu 0xF8 ∅ {0, 1} [.irq 0 0 .entered, .irq 1 1 .entered] true) =
      .done .quiet (wiredCpu 0xF8 ∅ {0, 1} [.irq 0 0 .closed, .irq 1 1 .entered] false) := wiredCpu_step rfl
  have ended : step wrapperAt (fun a => traps[a]?) .eoi
      (wiredCpu 0xF8 ∅ {0, 1} [.irq 0 0 .closed, .irq 1 1 .entered] false) =
      .done .quiet (wiredCpu 0xF8 ∅ {1} [.irq 0 0 .ended, .irq 1 1 .entered] false) := wiredCpu_step rfl
  have called : step wrapperAt (fun a => traps[a]?) .call
      (wiredCpu 0xF8 ∅ {1} [.irq 0 0 .ended, .irq 1 1 .entered] false) =
      .done (.ran 0 0 (some 0)) (wiredCpu 0xF8 ∅ {1} [.irq 0 0 .running, .irq 1 1 .entered] false) := wiredCpu_step rfl
  have switched : ∀ num s, UInt16.toNat num < 2 → allowed (.irq (.enable num)) s := by
    intro num s small
    refine events _ s (show UInt16.toNat num < 16 by omega) fun num' same => ?_
    cases same
    exact small
  have enabled := (Runs.nil.call (switched 0 _ (by decide)) timer).call (switched 1 _ (by decide)) keyboard
  have asked := goes_on events pressed enabled trivial (by simp)
  have entered := goes_on events key asked trivial (by simp)
  have overtaking := goes_on events ticked entered trivial (by simp)
  have nested := goes_on events tick overtaking trivial (by simp)
  have guarded := goes_on events closed nested trivial (by simp)
  exact goes_on events called (goes_on events ended guarded trivial (by simp)) trivial (by simp)

theorem resumed_runs {log : List (Event × Report)} (runs : Runs (step wrapperAt fun a => traps[a]?) allowed quietCpu log
    (wiredCpu 0xF8 ∅ {1} [.irq 0 0 .running, .irq 1 1 .entered] false)) :
    Runs (step wrapperAt fun a => traps[a]?) allowed quietCpu (resumed ++ log) (wiredCpu 0xF8 ∅ ∅ [] true) := by
  have back : step wrapperAt (fun a => traps[a]?) .iret
      (wiredCpu 0xF8 ∅ {1} [.irq 0 0 .running, .irq 1 1 .entered] false) =
      .done .quiet (wiredCpu 0xF8 ∅ {1} [.irq 1 1 .entered] true) := wiredCpu_step rfl
  have closed : step wrapperAt (fun a => traps[a]?) .cli (wiredCpu 0xF8 ∅ {1} [.irq 1 1 .entered] true) =
      .done .quiet (wiredCpu 0xF8 ∅ {1} [.irq 1 1 .closed] false) := wiredCpu_step rfl
  have ended : step wrapperAt (fun a => traps[a]?) .eoi (wiredCpu 0xF8 ∅ {1} [.irq 1 1 .closed] false) =
      .done .quiet (wiredCpu 0xF8 ∅ ∅ [.irq 1 1 .ended] false) := wiredCpu_step rfl
  have called : step wrapperAt (fun a => traps[a]?) .call (wiredCpu 0xF8 ∅ ∅ [.irq 1 1 .ended] false) =
      .done (.ran 1 1 (some 1)) (wiredCpu 0xF8 ∅ ∅ [.irq 1 1 .running] false) := wiredCpu_step rfl
  have left : step wrapperAt (fun a => traps[a]?) .iret (wiredCpu 0xF8 ∅ ∅ [.irq 1 1 .running] false) =
      .done .quiet (wiredCpu 0xF8 ∅ ∅ [] true) := wiredCpu_step rfl
  have entered := goes_on events closed (goes_on events back runs trivial (by simp)) trivial (by simp)
  have working := goes_on events called (goes_on events ended entered trivial (by simp)) trivial (by simp)
  exact goes_on events left working trivial (by simp)

end

/-- In one task the lines in service are at any time those of the wrappers that have still to end them; each
wrapper ends its own line, and calls the handler once; a request on the ninth line is the end. -/
theorem interrupts_nested (linked : ∀ trap, trap.Defined → code (addr trap).toNat = some trap) {s₀ : Cpu}
    (booted : Booted s₀) {log : List (Event × Report)} (runs : Runs (step addr code) Alone s₀ log s) :
    (s.pics.master.isr.val = s.pending.map level ∧
      s.pics.slave.isr.val = (s.pending.filter fun l => 8 ≤ l).map fun l => l - 8) ∧
    (tookLines log = ranLines log + s.uncalled ∧
      ∀ e line num handler, (e, .ran line num handler) ∈ log → num = wired line) ∧
    (∀ line num rest, s.stack = .irq line num .closed :: rest → ∃ t, step addr code .eoi s = .done .quiet t ∧
      t.pics.master.isr = s.pics.master.isr.erase (level line) ∧
      t.pics.slave.isr = if 8 ≤ line then ∅ else s.pics.slave.isr) ∧
    (∀ line num stage rest, s.stack = .irq line num stage :: rest → line ≠ 15 →
      ∃ r t, step addr code stage.next s = .done r t) ∧
    ∀ v pics, s.enabled = true → s.pics.acknowledge = some (9, v, pics) →
      step addr code .accept s = .exit { s with pics := pics } := by
  have kept : Exact s ∧ Called log s := by
    refine runs.invariant (fun log s => Exact s ∧ Called log s) ⟨booted.exact, booted.called⟩ ?_
    rintro log s e r t ⟨exact, called⟩ alone run
    have moves := step_moves run
    have orderly : Steady e s := by
      cases e with
      | switch i => exact alone.elim
      | exit i => exact alone.elim
      | _ => trivial
    exact ⟨exact.moves linked orderly moves, called.moves exact moves⟩
  obtain ⟨exact, called⟩ := kept
  refine ⟨⟨exact.master, exact.slave⟩, called, fun line num rest top => exact.eoi_done top, ?_, ?_⟩
  · intro line num stage rest top last
    obtain ⟨known, -, num_eq⟩ := (exact.top_known top).1 line num stage rfl
    refine next_done top fun _ => ?_
    rw [num_eq, wired]
    unfold maxIrqNum
    split
    · decide
    · omega
  · exact fun v pics enabled found => exact.ninth enabled found

/-- The keyboard's wrapper is interrupted by the timer's. -/
theorem interrupts_nested_key : ∃ s, Runs (step wrapperAt fun a => traps[a]?) Alone quietCpu (resumed ++ overtaken) s ∧
    s.pics.master.isr.val = s.pending.map level ∧
      tookLines (resumed ++ overtaken) = ranLines (resumed ++ overtaken) + s.uncalled := by
  have events : ∀ e s, Alone e s → (∀ num, e = .irq (.enable num) → num.toNat < 2) → Alone e s := fun _ _ alone _ => alone
  have runs := resumed_runs events (overtaken_runs events)
  obtain ⟨⟨service, -⟩, ⟨balance, -⟩, -⟩ := interrupts_nested traps_linked booted_quietCpu runs
  exact ⟨_, runs, service, balance⟩

theorem pendingOf_tail {stack : List Activation} {l : ℕ} (member : l ∈ pendingOf stack.tail) : l ∈ pendingOf stack := by
  cases stack with
  | nil => exact member
  | cons a rest =>
    obtain ⟨b, listed, same⟩ := List.mem_filterMap.mp member
    exact List.mem_filterMap.mpr ⟨b, List.mem_cons_of_mem _ listed, same⟩

theorem pendingOf_inKernel {stack : List Activation} (inside : inKernel stack = true) :
    pendingOf stack = pendingOf stack.tail := by
  unfold inKernel at inside
  split at inside
  · rfl
  · rfl
  · cases inside

/-- What of the stack of a task is not in the hands of the wrapper at work. -/
def Cpu.lower (i : ℕ) (s : Cpu) : List Activation := if i = s.cur then s.stack.tail else s.stackOf i

theorem Cpu.lower_withStack (s : Cpu) (stack : List Activation) (enabled : Bool) (i : ℕ) :
    (s.withStack stack enabled).lower i = if i = s.cur then stack.tail else s.stackOf i := by
  unfold lower
  by_cases here : i = s.cur
  · rw [if_pos here, stack_withStack]
    exact if_pos here
  · rw [if_neg here]
    exact (if_neg here).trans (Function.update_of_ne here _ _)

/-- Only timer and keyboard are let through. An interrupt that has still to be ended, and not by the wrapper at
work, is one of the keyboard: the timer's came before it. -/
structure Sparse (s : Cpu) : Prop where
  masks : ∀ k, k < 16 → 3 ≤ k → s.pics.masks.masked k = true
  lines : ∀ l, l ∈ s.pending → l < 2
  deep : ∀ i, i < numTasks → ∀ l, l ∈ pendingOf (s.lower i) → 0 < l

/-- Calls for the timer and for the keyboard. -/
def KernelCalls : Event → Cpu → Prop
  | .irq c, _ => c.Known ∧ ∀ num, c = .enable num → num.toNat < 2
  | .switch i, _ => i < numTasks
  | .exit i, _ => i < numTasks
  | _, _ => True

theorem level_eq {l : ℕ} (small : l < 8) : level l = l := if_pos small

namespace Sparse
variable (sparse : Sparse s) (exact : Exact s)
include sparse exact

/-- Behind a wrapper that calls the kernel there is one interrupt of the keyboard at most. -/
theorem few (inside : inKernel s.stack = true) : s.pending.card ≤ 1 := by
  have positive : ∀ l, l ∈ s.pending → l = 1 := by
    intro l member
    have small := sparse.lines l member
    have deep : 0 < l := by
      rw [exact.pending_eq] at member
      rcases Multiset.mem_add.mp member with mine | other
      · refine sparse.deep s.cur exact.cur l ?_
        rw [Cpu.lower, if_pos rfl, ← pendingOf_inKernel inside]
        exact mine
      · obtain ⟨i, bound, differ, listed⟩ := Cpu.mem_totalElse.mp other
        refine sparse.deep i bound l ?_
        rw [Cpu.lower, if_neg differ]
        exact listed
    omega
  have once : s.pending.Nodup := by
    have all := s.pics.master.isr.nodup
    rw [exact.master] at all
    exact Multiset.Nodup.of_map _ all
  have single : s.pending ≤ {1} := Multiset.le_iff_subset once |>.mpr fun l member =>
    Multiset.mem_singleton.mpr (positive l member)
  exact Multiset.card_le_card single

theorem orderly {e : Event} {r : Report} {t : Cpu} (allowed : KernelCalls e s) (moves : Moves addr code s e r t) :
    Steady e s := by
  cases moves with
  | switch inside => exact ⟨allowed, sparse.few exact inside⟩
  | exit top =>
    refine ⟨allowed, sparse.few exact ?_⟩
    rw [top]
    rfl
  | _ => trivial

omit exact in
/-- Whatever is taken is not held back. -/
theorem early {line v : ℕ} {pics : Pics} (taken : Taken s.pics line v pics) : line < 2 := by
  by_contra late
  have other := taken.other
  unfold Pics.wire at other
  have held := sparse.masks line taken.known (by omega)
  unfold Pic.masked at held
  by_cases low : line < 8
  · rw [if_pos low] at held
    have free := (taken.lower low).1
    unfold Chip.masked at free
    exact absurd (held.symm.trans free) (by decide)
  · rw [if_neg low] at held
    have free := (taken.upper (by omega)).1
    unfold Chip.masked at free
    exact absurd (held.symm.trans free) (by decide)

/-- The stack changes above what lies below. -/
theorem withStack {pics : Pics} {stack : List Activation} (enabled : Bool) (masks : pics.masks = s.pics.masks)
    (lines : ∀ l, l ∈ pendingOf stack → l < 2) (deep : ∀ l, l ∈ pendingOf stack.tail → 0 < l) :
    Sparse ({ s with pics := pics }.withStack stack enabled) := by
  refine ⟨?_, ?_, ?_⟩
  · intro k bound late
    change pics.masks.masked k = true
    rw [masks]
    exact sparse.masks k bound late
  · intro l member
    have total : ({ s with pics := pics }.withStack stack enabled).pending =
        (pendingOf stack : Multiset ℕ) + s.totalElse pendingOf :=
      Cpu.total_withStack (s := { s with pics := pics }) exact.cur stack enabled
    rw [total] at member
    rcases Multiset.mem_add.mp member with mine | other
    · exact lines l mine
    · refine sparse.lines l ?_
      rw [exact.pending_eq]
      exact Multiset.mem_add.mpr (Or.inr other)
  · intro i bound l member
    rw [Cpu.lower_withStack] at member
    change l ∈ pendingOf (if i = s.cur then stack.tail else s.stackOf i) at member
    by_cases here : i = s.cur
    · rw [if_pos here] at member
      exact deep l member
    · rw [if_neg here] at member
      refine sparse.deep i bound l ?_
      rw [Cpu.lower, if_neg here]
      exact member

/-- The wrapper at work goes on. -/
theorem goesOn {pics : Pics} {a b : Activation} {rest : List Activation} (top : s.stack = a :: rest) (enabled : Bool)
    (masks : pics.masks = s.pics.masks) (pending : ∀ l, l ∈ pendingOf [b] → l ∈ pendingOf [a]) :
    Sparse ({ s with pics := pics }.withStack (b :: rest) enabled) := by
  have split : ∀ c, pendingOf (c :: rest) = pendingOf [c] ++ pendingOf rest := fun c =>
    List.filterMap_append (l := [c])
  have mine : ∀ l, l ∈ pendingOf s.stack → l < 2 := fun l member => by
    refine sparse.lines l ?_
    rw [exact.pending_eq]
    exact Multiset.mem_add.mpr (Or.inl member)
  rw [top, split] at mine
  refine sparse.withStack exact enabled masks ?_ ?_
  · intro l member
    rw [split] at member
    rcases List.mem_append.mp member with first | later
    · exact mine l (List.mem_append_left _ (pending l first))
    · exact mine l (List.mem_append_right _ later)
  · intro l member
    refine sparse.deep s.cur exact.cur l ?_
    rw [Cpu.lower, if_pos rfl, top]
    exact member

omit exact in
/-- Another task goes on. -/
theorem switch (inside : inKernel s.stack = true) (i : ℕ) : Sparse { s with cur := i } := by
  refine ⟨sparse.masks, sparse.lines, fun j bound l member => ?_⟩
  have whole : l ∈ pendingOf (s.stackOf j) := by
    unfold Cpu.lower at member
    by_cases new : j = i
    · subst new
      rw [if_pos rfl] at member
      exact pendingOf_tail member
    · rwa [if_neg new] at member
  refine sparse.deep j bound l ?_
  unfold Cpu.lower
  by_cases old : j = s.cur
  · subst old
    rw [if_pos rfl, ← pendingOf_inKernel inside]
    exact whole
  · rw [if_neg old]
    exact whole

omit exact in
/-- Calls that switch lines leave all but timer and keyboard held back. -/
theorem irq {c : IrqCall} (allowed : c.Known ∧ ∀ num, c = .enable num → num.toNat < 2) {pics : Pics} {r : Int}
    (masks : Pics.switched c s.pics = .done r pics) : Sparse { s with pics := pics } := by
  obtain ⟨known, low⟩ := allowed
  obtain ⟨u, run, rfl⟩ := Prog.of_zoom_done masks
  refine ⟨fun k bound late => ?_, sparse.lines, sparse.deep⟩
  change u.masked k = true
  have old := sparse.masks k bound late
  cases c with
  | enable num =>
    have small := low num rfl
    have bitwise : Bitwise (fun mask bits => mask &&& bits) (fun b c => b && c) :=
      fun m j k small inside => bit_clear m j small inside
    obtain ⟨t, run', bits⟩ := switchIrq_done bitwise known s.pics.masks
    have same := run.symm.trans run'
    rw [Outcome.done.injEq] at same
    have other : k ≠ reachedIrq num.toNat := by
      rw [reachedIrq, if_pos (by omega)]
      omega
    rw [same.2, bits k bound, old]
    split
    · change (true && !decide (k = reachedIrq num.toNat)) = true
      rw [decide_eq_false other]
      rfl
    · rfl
  | disable num =>
    have bitwise : Bitwise (fun mask bits => mask ||| bits) (fun b c => b || c) :=
      fun m j k small inside => bit_fill m j small inside
    obtain ⟨t, run', bits⟩ := switchIrq_done bitwise known s.pics.masks
    have same := run.symm.trans run'
    rw [Outcome.done.injEq] at same
    rw [same.2, bits k bound, old]
    simp

theorem moves {e : Event} {r : Report} {t : Cpu} (allowed : KernelCalls e s) (moves : Moves addr code s e r t) :
    Sparse t := by
  have mine : ∀ l, l ∈ pendingOf s.stack → l < 2 := fun l member => by
    refine sparse.lines l ?_
    rw [exact.pending_eq]
    exact Multiset.mem_add.mpr (Or.inl member)
  cases moves with
  | raise line =>
    refine ⟨?_, sparse.lines, sparse.deep⟩
    intro k bound late
    have same : (s.pics.raise line).masks = s.pics.masks := by
      unfold Pics.raise
      split
      · rfl
      · rfl
    change (s.pics.raise line).masks.masked k = true
    rw [same]
    exact sparse.masks k bound late
  | @accept line v num pics enabled found present wrapper =>
    have taken := exact.ready.taken found
    have early := sparse.early taken
    refine sparse.withStack exact enabled taken.masks ?_ ?_
    · intro l member
      rcases List.mem_cons.mp member with rfl | old
      · exact early
      · exact mine l old
    · intro l member
      have pending : l ∈ s.pending := by
        rw [exact.pending_eq]
        exact Multiset.mem_add.mpr (Or.inl member)
      have before := taken.first (level l) level_lt (exact.level_mem pending)
      have small := sparse.lines l pending
      rw [level_eq (by omega), level_eq (by omega)] at before
      omega
  | cli top => exact sparse.goesOn exact top false rfl fun l member => member
  | eoi top ended =>
    refine sparse.goesOn exact top s.enabled ?_ fun l member => absurd member List.not_mem_nil
    rw [exact.ends top ended]
    rfl
  | call top inside => exact sparse.goesOn exact top s.enabled rfl fun l member => member
  | @iret rest top =>
    have lower : ∀ l, l ∈ pendingOf rest → l ∈ pendingOf s.stack ∧ 0 < l := by
      intro l member
      have tail : s.stack.tail = rest := by
        rcases top with ⟨line, num, top⟩ | top
        all_goals
          rw [top]
          rfl
      refine ⟨pendingOf_tail (tail ▸ member), sparse.deep s.cur exact.cur l ?_⟩
      rw [Cpu.lower, if_pos rfl, tail]
      exact member
    refine sparse.withStack exact true rfl (fun l member => mine l (lower l member).1) fun l member => ?_
    exact (lower l (pendingOf_tail member)).2
  | sti inside =>
    refine sparse.withStack exact true rfl mine fun l member => ?_
    refine sparse.deep s.cur exact.cur l ?_
    rw [Cpu.lower, if_pos rfl]
    exact member
  | syscall top =>
    exact sparse.withStack exact _ rfl (fun l member => absurd member List.not_mem_nil)
      fun l member => absurd member List.not_mem_nil
  | irq masks => exact sparse.irq allowed masks
  | bind inside => exact ⟨sparse.masks, sparse.lines, sparse.deep⟩
  | switch inside => exact sparse.switch inside _
  | exit top =>
    have left : Sparse (s.withStack [] true) := sparse.withStack exact true rfl
      (fun l member => absurd member List.not_mem_nil) fun l member => absurd member List.not_mem_nil
    refine ⟨left.masks, left.lines, fun j bound l member => ?_⟩
    have whole : l ∈ pendingOf ((s.withStack [] true).stackOf j) := by
      unfold Cpu.lower at member
      split at member
      next here =>
        rw [here]
        exact pendingOf_tail member
      next => exact member
    by_cases old : j = s.cur
    · subst old
      change l ∈ pendingOf (Function.update s.stackOf s.cur [] s.cur) at whole
      rw [Function.update_self] at whole
      exact absurd whole List.not_mem_nil
    · refine left.deep j bound l ?_
      unfold Cpu.lower
      rw [if_neg (show j ≠ (s.withStack [] true).cur from old)]
      exact whole

end Sparse

theorem Booted.sparse (booted : Booted s) : Sparse s := by
  have pending : s.pending = 0 := booted.total rfl
  refine ⟨fun k bound late => ?_, fun l member => ?_, fun i bound l member => ?_⟩
  · obtain ⟨p, -, -, init⟩ := booted.pics
    rw [initPic_done, Outcome.done.injEq] at init
    rw [← init.2]
    have all : ∀ k, k < 16 → 3 ≤ k → Pic.masked k ⟨0xFB, 0xFF⟩ = true := by decide
    exact all k bound late
  · rw [pending] at member
    exact absurd member (Multiset.notMem_zero l)
  · unfold Cpu.lower Cpu.stack at member
    rw [booted.idle, booted.idle, List.tail_nil, ite_self] at member
    exact absurd member List.not_mem_nil

theorem mem_ranLines {log : List (Event × Report)} {e : Event} {line num : ℕ} {handler : Option ℕ}
    (member : (e, .ran line num handler) ∈ log) : line ∈ ranLines log := by
  induction log with
  | nil => exact absurd member List.not_mem_nil
  | cons entry log ih =>
    obtain ⟨e', r⟩ := entry
    rcases List.mem_cons.mp member with new | old
    · obtain ⟨-, rfl⟩ := Prod.mk.inj new
      exact Multiset.mem_cons_self line _
    · cases r with
      | quiet => exact ih old
      | took l => exact ih old
      | ran l n h => exact Multiset.mem_cons_of_mem (ih old)

/-- With timer and keyboard alone the tasks may change at any time: what is in service is what has still to be
ended, every interrupt is taken, ended by its own wrapper and handled once by what is bound to its line, and nothing
stands in the way of a wrapper. -/
theorem interrupts_served (linked : ∀ trap, trap.Defined → code (addr trap).toNat = some trap) {s₀ : Cpu}
    (booted : Booted s₀) {log : List (Event × Report)} (runs : Runs (step addr code) KernelCalls s₀ log s) :
    (s.pics.master.isr.val = s.pending ∧ s.pics.slave.isr = ∅ ∧ ∀ line, line ∈ s.pending → line < 2) ∧
    (tookLines log = ranLines log + s.uncalled ∧
      ∀ e line num handler, (e, .ran line num handler) ∈ log → num = line ∧ line < 2) ∧
    (inKernel s.stack = true → s.pending.card ≤ 1) ∧
    (∀ line v pics, s.enabled = true → s.pics.acknowledge = some (line, v, pics) →
      ∃ t, step addr code .accept s = .done (.took line) t) ∧
    (∀ line num stage rest, s.stack = .irq line num stage :: rest → ∃ r t, step addr code stage.next s = .done r t) ∧
    ∀ line num rest, s.stack = .irq line num .closed :: rest → ∃ t, step addr code .eoi s = .done .quiet t ∧
      t.pics.master.isr = s.pics.master.isr.erase line ∧ t.pics.slave.isr = ∅ := by
  have kept : Exact s ∧ Called log s ∧ Sparse s ∧ ∀ l, l ∈ tookLines log → l < 2 := by
    refine runs.invariant (fun log s => Exact s ∧ Called log s ∧ Sparse s ∧ ∀ l, l ∈ tookLines log → l < 2)
      ⟨booted.exact, booted.called, booted.sparse, fun l member => absurd member (Multiset.notMem_zero l)⟩ ?_
    rintro log s e r t ⟨exact, called, sparse, took⟩ allowed run
    have moves := step_moves run
    refine ⟨exact.moves linked (sparse.orderly exact allowed moves) moves, called.moves exact moves,
      sparse.moves exact allowed moves, ?_⟩
    cases moves with
    | accept found present wrapper =>
      intro l member
      rcases Multiset.mem_cons.mp member with rfl | old
      · exact sparse.early (exact.ready.taken found)
      · exact took l old
    | _ => exact took
  obtain ⟨exact, called, sparse, took⟩ := kept
  have small : ∀ l, l ∈ s.uncalled → l < 2 := fun l member => by
    refine took l ?_
    rw [called.1]
    exact Multiset.mem_add.mpr (Or.inr member)
  have master : s.pics.master.isr.val = s.pending := by
    rw [exact.master]
    refine (Multiset.map_congr rfl fun l member => level_eq ?_).trans (Multiset.map_id _)
    have low := sparse.lines l member
    omega
  have slave : s.pics.slave.isr = ∅ := by
    refine Finset.val_injective ?_
    have none : s.pending.filter (fun l => 8 ≤ l) = 0 := by
      refine Multiset.filter_eq_nil.mpr fun l member => ?_
      have low := sparse.lines l member
      omega
    rw [exact.slave, none]
    rfl
  refine ⟨⟨master, slave, sparse.lines⟩, ⟨called.1, ?_⟩, fun inside => sparse.few exact inside, ?_, ?_, ?_⟩
  · intro e line num handler member
    have early : line < 2 := by
      refine took line ?_
      rw [called.1]
      exact Multiset.mem_add.mpr (Or.inl (mem_ranLines member))
    refine ⟨?_, early⟩
    rw [called.2 e line num handler member]
    exact if_neg (by omega)
  · intro line v pics enabled found
    have early := sparse.early (exact.ready.taken found)
    exact exact.accept_done linked enabled found (by omega)
  · intro line num stage rest top
    obtain ⟨-, -, num_eq⟩ := (exact.top_known top).1 line num stage rfl
    refine next_done top fun ended => ?_
    subst ended
    have early : line < 2 := by
      refine small line ?_
      rw [Cpu.uncalled, Cpu.total_eq exact.cur, top]
      exact Multiset.mem_add.mpr (Or.inl List.mem_cons_self)
    rw [num_eq, wired, if_neg (by omega), maxIrqNum]
    omega
  · intro line num rest top
    have ended : ∃ t, step addr code .eoi s = .done .quiet t ∧
        t.pics.master.isr = s.pics.master.isr.erase (level line) ∧
        t.pics.slave.isr = if 8 ≤ line then ∅ else s.pics.slave.isr := exact.eoi_done top
    obtain ⟨t, run, first, second⟩ := ended
    have early : line < 2 := by
      refine sparse.lines line ?_
      rw [exact.pending_eq, top]
      exact Multiset.mem_add.mpr (Or.inl List.mem_cons_self)
    refine ⟨t, run, ?_, ?_⟩
    · rw [first, level_eq (by omega)]
    · rw [second, slave, ite_self]

/-- The timer, which came before the keyboard, switches to another task, and that one ends. -/
theorem interrupts_served_key : ∃ log s, Runs (step wrapperAt fun a => traps[a]?) KernelCalls quietCpu log s ∧
    log = resumed ++ ((.exit 0, .quiet) :: (.syscall, .quiet) :: (.switch 1, .quiet) :: overtaken) ∧
    s.pics.master.isr.val = s.pending ∧ tookLines log = ranLines log + s.uncalled := by
  have events : ∀ e s, Alone e s → (∀ num, e = .irq (.enable num) → num.toNat < 2) → KernelCalls e s := by
    intro e s alone low
    cases e with
    | irq c =>
      refine ⟨alone, ?_⟩
      rintro num rfl
      exact low num rfl
    | switch i => exact alone.elim
    | exit i => exact alone.elim
    | _ => trivial
  have switch : step wrapperAt (fun a => traps[a]?) (.switch 1)
      (wiredCpu 0xF8 ∅ {1} [.irq 0 0 .running, .irq 1 1 .entered] false) =
      .done .quiet { wiredCpu 0xF8 ∅ {1} [.irq 0 0 .running, .irq 1 1 .entered] false with cur := 1 } := rfl
  have call : step wrapperAt (fun a => traps[a]?) .syscall
      { wiredCpu 0xF8 ∅ {1} [.irq 0 0 .running, .irq 1 1 .entered] false with cur := 1 } =
      .done .quiet ({ wiredCpu 0xF8 ∅ {1} [.irq 0 0 .running, .irq 1 1 .entered] false with cur := 1 }.withStack
        [.syscall] false) := rfl
  have small : ∀ i, i < 2 → i < numTasks := fun i low => by
    unfold numTasks
    omega
  have taken : Runs (step wrapperAt fun a => traps[a]?) KernelCalls quietCpu ((.switch 1, .quiet) :: overtaken) _ :=
    (overtaken_runs events).call (small 1 (by decide)) switch
  have called : Runs (step wrapperAt fun a => traps[a]?) KernelCalls quietCpu
      ((.syscall, .quiet) :: (.switch 1, .quiet) :: overtaken) _ := taken.call trivial call
  have other : Runs (step wrapperAt fun a => traps[a]?) KernelCalls quietCpu
      ((.exit 0, .quiet) :: (.syscall, .quiet) :: (.switch 1, .quiet) :: overtaken) _ :=
    called.call (small 0 (by decide)) wiredCpu_exit
  have runs := resumed_runs events other
  obtain ⟨⟨service, -⟩, ⟨balance, -⟩, -⟩ := interrupts_served traps_linked booted_quietCpu runs
  exact ⟨_, _, runs, rfl, service, balance⟩

end

end Sos.Kernel
