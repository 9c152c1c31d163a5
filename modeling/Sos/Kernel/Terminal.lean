import Sos.Kernel.Cursor
import Sos.Kernel.InputLine
import Sos.Kernel.Kstring
import Sos.Lib.Sheet

/-! Keyboard and console together: what is typed is shown, and no more than what was typed is taken back. -/

namespace Sos.Kernel
open Sos.Lib

/-- The text on the console. -/
abbrev Paper : Type := Sheet Glyph 80 25

section
variable (attrs : UInt16)

def blankGlyph : Glyph := (0x20, attrs.toUInt8)

/-- What a character other than carriage return does. -/
def sendPaper (p : Paper) (c : Int32) : Paper :=
  if c = 0x0A then p.newline (blankGlyph attrs)
  else if c = 0x09 then
    (((p.write (blankGlyph attrs)).write (blankGlyph attrs)).write (blankGlyph attrs)).write (blankGlyph attrs)
  else if c = 0x08 then p.back
  else p.write (c.toUInt32.toUInt8, attrs.toUInt8)

/-- What these characters make of a cleared screen. -/
def paperOf (sent : List Int32) : Paper :=
  sent.foldl (sendPaper attrs) (Sheet.blankSheet (Nat.succ_pos 79) (Nat.succ_pos 24))

theorem paperOf_append (sent more : List Int32) :
    paperOf attrs (sent ++ more) = more.foldl (sendPaper attrs) (paperOf attrs sent) := List.foldl_append

/-- The paper is on the screen. -/
structure Console.Holds (s : Console) (p : Paper) : Prop where
  same : s.bconAttrs = attrs
  depicts : Screen.Depicts (blankGlyph attrs) s.screen p

end

section
variable {attrs : UInt16} {s : Console} {p : Paper}

theorem Draws.holds {f : Prog Console Unit} {w : Screen Glyph 80 25} (draws : Draws f s w)
    (same : s.bconAttrs = attrs) (depicts : Screen.Depicts (blankGlyph attrs) w p) :
    ∃ t, f s = .done () t ∧ t.Holds attrs p := by
  obtain ⟨t, run, kept, screen⟩ := draws
  refine ⟨t, run, kept.trans same, ?_⟩
  rw [screen]
  exact depicts

/-- The cell before the cursor becomes blank. -/
theorem backspace_draws (shown : s.screen.cursor < 25 * 80) (some : 0 < s.screen.cursor) :
    Draws (do
      bconCursorLeft
      putPlain 0x20
      bconCursorLeft) s
      ⟨fun k => if k.val = s.screen.cursor - 1 then s.blank else s.screen.cell k, s.screen.cursor - 1⟩ := by
  have before : (s.screen.cursor + 65535) % 65536 = s.screen.cursor - 1 := by omega
  have left := cursorLeft_draws s
  rw [before] at left
  refine left.bind fun t attrs screen => ?_
  have place : t.screen.cursor = s.screen.cursor - 1 := by rw [screen]
  have blank := Console.blank_eq attrs
  have plain := putPlain_draws t 0x20 (by omega)
  have room : (t.screen.put ((0x20 : Int32).toUInt32.toUInt8, t.bconAttrs.toUInt8)).cursor < 25 * 80 := by
    change t.screen.cursor + 1 < 25 * 80
    omega
  rw [Screen.settle, if_pos room] at plain
  refine plain.bind fun u attrs' screen' => ?_
  have here : u.screen.cursor = s.screen.cursor := by
    rw [screen']
    change t.screen.cursor + 1 = _
    omega
  have again := cursorLeft_draws u
  rw [here, before] at again
  obtain ⟨v, run, attrs'', screen''⟩ := again
  refine ⟨v, run, attrs'', screen''.trans (Screen.ext ?_ rfl)⟩
  funext k
  have cell : u.screen.cell k = if k.val = t.screen.cursor then t.blank else t.screen.cell k := by
    rw [screen']
    rfl
  change u.screen.cell k = _
  rw [cell, place, blank, screen]

variable (holds : s.Holds attrs p)
include holds

theorem Console.Holds.shown : s.screen.cursor < 25 * 80 := holds.depicts.inside

theorem putPlain_holds (c : Int32) : ∃ t, putPlain c s = .done () t ∧
    t.Holds attrs (p.write (c.toUInt32.toUInt8, attrs.toUInt8)) := by
  obtain ⟨same, depicts⟩ := holds
  subst same
  exact (putPlain_draws s c depicts.inside).holds rfl (depicts.write _)

/-- A character as it is sent to the screen. -/
theorem putchar_sends {c : Int32} (plain : c ≠ 0x0D) (fits : BackFits c s) :
    ∃ t, bconPutchar c s = .done () t ∧ t.Holds attrs (sendPaper attrs p c) := by
  have shown := holds.shown
  unfold bconPutchar sendPaper
  rw [if_neg plain]
  by_cases feed : c = 0x0A
  · rw [if_pos feed, if_pos feed]
    obtain ⟨same, depicts⟩ := holds
    subst same
    refine Draws.holds ?_ rfl depicts.newline
    refine (cursorDown_draws s (by omega)).bind fun t attrs down => ?_
    refine (homeLine_draws t).bind fun u attrs' home => ?_
    have blank := Console.blank_eq (attrs'.trans attrs)
    have draws := scrollOffEnd_draws u
    rw [home, down, blank] at draws
    exact draws
  rw [if_neg feed, if_neg feed]
  by_cases tab : c = 0x09
  · rw [if_pos tab, if_pos tab]
    obtain ⟨t1, run1, holds1⟩ := putPlain_holds holds 0x20
    obtain ⟨t2, run2, holds2⟩ := putPlain_holds holds1 0x20
    obtain ⟨t3, run3, holds3⟩ := putPlain_holds holds2 0x20
    obtain ⟨t4, run4, holds4⟩ := putPlain_holds holds3 0x20
    refine ⟨t4, ?_, holds4⟩
    rw [Prog.bind_done _ run1, Prog.bind_done _ run2, Prog.bind_done _ run3, run4]
  rw [if_neg tab, if_neg tab]
  by_cases back : c = 0x08
  · rw [if_pos back, if_pos back]
    obtain ⟨same, depicts⟩ := holds
    subst same
    have some := Nat.pos_of_ne_zero (fits back)
    exact (backspace_draws shown some).holds rfl (depicts.back some)
  · rw [if_neg back, if_neg back]
    exact putPlain_holds holds c

theorem putchar_holds {c : Int32} (plain : c ≠ 0x0D) (fits : BackFits c s) :
    ∃ t, bconPutchar c s = .done () t ∧ t.Holds attrs (sendPaper attrs p c) ∧ SameAround s.mem t.mem := by
  obtain ⟨t, run, holds'⟩ := putchar_sends holds plain fits
  obtain ⟨u, again, -, around⟩ := putchar_ends s holds.shown fits
  rw [run, Outcome.done.injEq] at again
  rw [← again.2] at around
  exact ⟨t, run, holds', around⟩

theorem putAll_holds {text : List Int32} (plain : ∀ c, c ∈ text → c ≠ 0x0D ∧ c ≠ 0x08) :
    ∃ t, putAll text s = .done () t ∧ t.Holds attrs (text.foldl (sendPaper attrs) p) ∧ SameAround s.mem t.mem := by
  induction text generalizing s p with
  | nil => exact ⟨s, rfl, holds, SameAround.refl s.mem⟩
  | cons c text ih =>
    obtain ⟨carriage, back⟩ := plain c List.mem_cons_self
    obtain ⟨t, run, holds', around⟩ := putchar_holds holds carriage fun same => absurd same back
    obtain ⟨u, run', holds'', around'⟩ := ih holds' fun d member => plain d (List.mem_cons_of_mem c member)
    refine ⟨u, ?_, holds'', around.trans around'⟩
    rw [putAll, Prog.bind_done _ run, run']

end

section
variable {attrs : UInt16} {base : List Glyph} {m n : Nat} {p : Paper} (fenced : Sheet.Fenced base n p)
include fenced

/-- Every character but backspace puts the cursor further. -/
theorem sendPaper_fenced {c : Int32} (other : c ≠ 0x08) (grows : m ≤ n + 1) (few : m ≤ 100) :
    Sheet.Fenced base m (sendPaper attrs p c) := by
  have fits : m + 80 ≤ 80 * 25 := by omega
  unfold sendPaper
  split
  · exact fenced.newline _ grows fits
  split
  · have first := fenced.write (blankGlyph attrs) grows fits
    have second := first.write (blankGlyph attrs) (Nat.le_succ m) fits
    have third := second.write (blankGlyph attrs) (Nat.le_succ m) fits
    exact third.write _ (Nat.le_succ m) fits
  exact fenced.write _ grows fits

theorem sendPapers_fenced {text : List Int32} (other : 0x08 ∉ text) (few : n ≤ 100) :
    Sheet.Fenced base n (text.foldl (sendPaper attrs) p) := by
  induction text generalizing p with
  | nil => exact fenced
  | cons c text ih =>
    have here : c ≠ 0x08 := fun same => other (same ▸ List.mem_cons_self)
    exact ih (sendPaper_fenced fenced here (Nat.le_succ n) few) fun member => other (List.mem_cons_of_mem c member)

end

/-- The keyboard with its console, and what was sent to the console since it was cleared. -/
structure Terminal where
  keyboard : Keyboard
  sent : List Int32

/-- A key goes down or up, the kernel writes, and a program takes a character from the queue. -/
inductive TermEvent where
  | key (scancode : UInt16) (state : UInt8)
  | write (buff : List Int8)
  | head

namespace TermEvent

def run : TermEvent → Prog Keyboard Unit
  | .key scancode state => bconKbdHandle scancode state
  | .write buff => onConsole (bconWrite buff)
  | .head => do
    let _ ← onQueue (bconInputQueueHead bconKbdQueueLen)
    return ()

/-- What the press of a key for this character is answered with. -/
def answer (c : UInt16) (q : KeyQueue) : List Int32 :=
  if c = 8 then
    if q.count = 0 ∨ q.keys q.head.toNat = 0 then [] else [0x08]
  else if q.count = bconKbdQueueLen then queueFull else [echoedChar c]

def sends (k : Keyboard) : TermEvent → List Int32
  | .key scancode state => match typedChar k.kbdState scancode state with
    | some c => answer c k.inputQueue
    | none => []
  | .write buff => buff.map unsignedChar
  | .head => []

def step (e : TermEvent) : Prog Terminal Unit := do
  Prog.modify fun u => { u with sent := u.sent ++ e.sends u.keyboard }
  Prog.zoom Terminal.keyboard (fun u k => { u with keyboard := k }) e.run

/-- The kernel prints no carriage return and no backspace. -/
def Allowed : TermEvent → Terminal → Prop
  | .key scancode state, _ => KbdCall.FromInterrupt (.handle scancode state)
  | .write buff, _ => ∀ c, c ∈ buff.map unsignedChar → c ≠ 0x0D ∧ c ≠ 0x08
  | .head, _ => True

section
variable {e : TermEvent} {u : Terminal}

theorem step_done {k : Keyboard} (done : e.run u.keyboard = .done () k) :
    e.step u = .done () ⟨k, u.sent ++ e.sends u.keyboard⟩ := by
  rw [step, Prog.modify_bind_run]
  exact Prog.zoom_done done

theorem step_exit {k : Keyboard} (exits : e.run u.keyboard = .exit k) : ∃ v, e.step u = .exit v := by
  refine ⟨⟨k, u.sent ++ e.sends u.keyboard⟩, ?_⟩
  rw [step, Prog.modify_bind_run, Prog.zoom, exits]

end

end TermEvent

section
variable (k : Keyboard)

/-- Behind the last character read there can be zeros. -/
theorem backspace_zero (some : k.inputQueue.count ≠ 0) (inside : k.inputQueue.head < bconKbdQueueLen)
    (zero : k.inputQueue.keys k.inputQueue.head.toNat = 0) :
    asciiKey 8 k = .done () { k with inputQueue := k.inputQueue.popped bconKbdQueueLen } := by
  have taken : onQueue (dequeue bconKbdQueueLen) k = .done (k.inputQueue.keys k.inputQueue.head.toNat)
      { k with inputQueue := k.inputQueue.popped bconKbdQueueLen } := Prog.zoom_done (dequeue_some some inside)
  change (onQueue (dequeue bconKbdQueueLen) >>= _) k = _
  rw [Prog.bind_done _ taken, if_pos zero]
  rfl

theorem full_prints {key : UInt16} (char : keyChar key ≠ 8) (full : k.inputQueue.count = bconKbdQueueLen)
    {s : Console} (message : putAll queueFull k.console = .done () s) :
    asciiKey key k = .done () { k with console := s } := by
  have refused : onQueue (enqueue bconKbdQueueLen (keyChar key).toUInt8.toInt8) k = .done retFailure k :=
    Prog.zoom_done (enqueue_full _ full)
  have printed : onConsole (putAll queueFull) k = .done () { k with console := s } := Prog.zoom_done message
  have called : enqueueKey (keyChar key).toUInt8.toInt8 k = .done retFailure { k with console := s } := by
    rw [enqueueKey, Prog.bind_done _ refused, if_pos rfl, Prog.bind_done _ printed]
    rfl
  rw [asciiKey_type k char, Prog.bind_done _ called]
  rfl

end

/-- The screen shows what was sent, and behind `base` there is a cell for each character that is queued. -/
structure Fencing (attrs : UInt16) (mem : Mem) (base : List Glyph) (u : Terminal) : Prop where
  holds : u.keyboard.console.Holds attrs (paperOf attrs u.sent)
  around : SameAround mem u.keyboard.console.mem
  fenced : Sheet.Fenced base u.keyboard.inputQueue.count.toNat (paperOf attrs u.sent)
  range : InRange u.keyboard
  bound : u.keyboard.inputQueue.count ≤ bconKbdQueueLen
  echoing : testMask echoState u.keyboard.kbdState = true

namespace Fencing
variable {attrs : UInt16} {mem : Mem} {base : List Glyph} {u : Terminal} (fencing : Fencing attrs mem base u)
include fencing

/-- Nothing is sent, and the queue is not longer than before. -/
theorem quiet {k : Keyboard} (console : k.console = u.keyboard.console)
    (fewer : k.inputQueue.count ≤ u.keyboard.inputQueue.count) (range : InRange k)
    (echoing : testMask echoState k.kbdState = true) : Fencing attrs mem base ⟨k, u.sent ++ []⟩ := by
  rw [List.append_nil]
  constructor
  · rw [console]
    exact fencing.holds
  · rw [console]
    exact fencing.around
  · exact fencing.fenced.less (UInt16.le_iff_toNat_le.mp fewer)
  · exact range
  · exact UInt16.le_trans fewer fencing.bound
  · exact echoing

theorem few : u.keyboard.inputQueue.count.toNat ≤ 100 := UInt16.le_iff_toNat_le.mp fencing.bound

/-- Text of the kernel. -/
theorem printed {k : Keyboard} {text : List Int32} (plain : ∀ c, c ∈ text → c ≠ 0x0D ∧ c ≠ 0x08)
    (queue : k.inputQueue = u.keyboard.inputQueue) (state : k.kbdState = u.keyboard.kbdState)
    (run : putAll text u.keyboard.console = .done () k.console) :
    Fencing attrs mem base ⟨k, u.sent ++ text⟩ := by
  obtain ⟨t, run', holds, around⟩ := putAll_holds fencing.holds plain
  rw [run, Outcome.done.injEq] at run'
  obtain ⟨-, rfl⟩ := run'
  have other : 0x08 ∉ text := fun member => (plain _ member).2 rfl
  constructor
  · rw [paperOf_append]
    exact holds
  · exact fencing.around.trans around
  · rw [paperOf_append]
    change Sheet.Fenced base k.inputQueue.count.toNat _
    rw [queue]
    exact sendPapers_fenced fencing.fenced other fencing.few
  · change k.inputQueue.head < _ ∧ k.inputQueue.tail < _
    rw [queue]
    exact fencing.range
  · change k.inputQueue.count ≤ _
    rw [queue]
    exact fencing.bound
  · change testMask echoState k.kbdState = true
    rw [state]
    exact fencing.echoing

/-- A character is queued and echoed. -/
theorem typed {c : UInt16} (room : u.keyboard.inputQueue.count ≠ bconKbdQueueLen) (char : echoedChar c ≠ 0x08)
    (plain : echoedChar c ≠ 0x0D) (x : Int8) {s : Console}
    (run : bconPutchar (echoedChar c) u.keyboard.console = .done () s) :
    Fencing attrs mem base ⟨{ u.keyboard with
      inputQueue := u.keyboard.inputQueue.pushed bconKbdQueueLen x, console := s }, u.sent ++ [echoedChar c]⟩ := by
  obtain ⟨t, run', holds, around⟩ := putchar_holds fencing.holds plain fun same => absurd same char
  rw [run, Outcome.done.injEq] at run'
  obtain ⟨-, rfl⟩ := run'
  obtain ⟨head, tail⟩ := fencing.range
  have bound := UInt16.le_iff_toNat_le.mp fencing.bound
  have hundred : bconKbdQueueLen.toNat = 100 := rfl
  have differ : u.keyboard.inputQueue.count.toNat ≠ 100 := fun same => room (UInt16.toNat_inj.mp same)
  have next : (u.keyboard.inputQueue.count + 1).toNat = u.keyboard.inputQueue.count.toNat + 1 := by
    rw [UInt16.toNat_add]
    change (u.keyboard.inputQueue.count.toNat + 1) % 65536 = _
    omega
  constructor
  · rw [paperOf_append]
    exact holds
  · exact fencing.around.trans around
  · rw [paperOf_append]
    change Sheet.Fenced base (u.keyboard.inputQueue.count + 1).toNat _
    rw [next]
    exact sendPaper_fenced fencing.fenced char (Nat.le_refl _) (by omega)
  · exact ⟨head, next_lt tail⟩
  · change u.keyboard.inputQueue.count + 1 ≤ bconKbdQueueLen
    rw [UInt16.le_iff_toNat_le, next]
    omega
  · exact fencing.echoing

/-- A character is taken from the queue and from the screen. -/
theorem taken (some : u.keyboard.inputQueue.count ≠ 0) : ∃ s,
    bconPutchar 0x08 u.keyboard.console = .done () s ∧
    Fencing attrs mem base ⟨{ u.keyboard with
      inputQueue := u.keyboard.inputQueue.popped bconKbdQueueLen, console := s }, u.sent ++ [0x08]⟩ := by
  have nonzero : u.keyboard.inputQueue.count.toNat ≠ 0 := fun zero => some (UInt16.toNat_inj.mp zero)
  obtain ⟨n, count⟩ := Nat.exists_eq_add_one_of_ne_zero nonzero
  have one : (1 : UInt16).toNat = 1 := rfl
  have less : (u.keyboard.inputQueue.count - 1).toNat = n := by
    rw [UInt16.toNat_sub_of_le _ _ (UInt16.le_iff_toNat_le.mpr (by omega)), count, one, Nat.add_sub_cancel]
  have shown := fencing.fenced.shown
  have cursor := fencing.holds.depicts.cursor
  have fits : BackFits 0x08 u.keyboard.console := by
    intro _ corner
    rw [corner] at cursor
    omega
  obtain ⟨s, run, holds, around⟩ := putchar_holds fencing.holds (show (0x08 : Int32) ≠ 0x0D by decide) fits
  have fenced := fencing.fenced
  rw [count] at fenced
  refine ⟨s, run, ?_, fencing.around.trans around, ?_, ⟨next_lt fencing.range.1, fencing.range.2⟩, ?_,
    fencing.echoing⟩
  · rw [paperOf_append]
    exact holds
  · rw [paperOf_append]
    change Sheet.Fenced base (u.keyboard.inputQueue.count - 1).toNat (Sheet.back _)
    rw [less]
    exact fenced.back
  · change u.keyboard.inputQueue.count - 1 ≤ bconKbdQueueLen
    have bound := UInt16.le_iff_toNat_le.mp fencing.bound
    rw [UInt16.le_iff_toNat_le, less]
    omega

end Fencing

theorem echoedChar_inj {c d : UInt16} (same : echoedChar c = echoedChar d) : c = d := by
  have words : c.toUInt32 = d.toUInt32 := congrArg Int32.toUInt32 same
  have values := congrArg UInt32.toNat words
  rw [UInt16.toNat_toUInt32, UInt16.toNat_toUInt32] at values
  exact UInt16.toNat_inj.mp values

theorem keyChar_plain (key : UInt16) : keyChar key ≠ 13 := by
  unfold keyChar
  split
  next => decide
  next other => exact other

/-- The event is answered as the terminal says, or it is the reboot. -/
def Answered (attrs : UInt16) (mem : Mem) (base : List Glyph) (e : TermEvent) (u : Terminal) : Prop :=
  (∃ v, e.step u = .exit v) ∨ ∃ v, e.step u = .done () v ∧ Fencing attrs mem base v

namespace Fencing
variable {attrs : UInt16} {mem : Mem} {base : List Glyph} {u : Terminal} (fencing : Fencing attrs mem base u)
include fencing

omit fencing in
theorem answered {e : TermEvent} {k : Keyboard} (run : e.run u.keyboard = .done () k) {text : List Int32}
    (sends : e.sends u.keyboard = text) (kept : Fencing attrs mem base ⟨k, u.sent ++ text⟩) :
    Answered attrs mem base e u := by
  subst sends
  exact Or.inr ⟨_, TermEvent.step_done run, kept⟩

theorem pressed_back {scancode : UInt16} {state : UInt8} (handle : bconKbdHandle scancode state u.keyboard =
    asciiKey 8 u.keyboard) (sends : TermEvent.sends u.keyboard (.key scancode state) =
      TermEvent.answer 8 u.keyboard.inputQueue) : Answered attrs mem base (.key scancode state) u := by
  rw [TermEvent.answer, if_pos rfl] at sends
  by_cases none : u.keyboard.inputQueue.count = 0
  · rw [if_pos (Or.inl none)] at sends
    have run := handle.trans (backspace_empty u.keyboard none)
    exact answered run sends (fencing.quiet rfl (UInt16.le_refl _) fencing.range fencing.echoing)
  by_cases zero : u.keyboard.inputQueue.keys u.keyboard.inputQueue.head.toNat = 0
  · rw [if_pos (Or.inr zero)] at sends
    have run := handle.trans (backspace_zero u.keyboard none fencing.range.1 zero)
    have positive : u.keyboard.inputQueue.count.toNat ≠ 0 := fun same => none (UInt16.toNat_inj.mp same)
    have fewer : u.keyboard.inputQueue.count - 1 ≤ u.keyboard.inputQueue.count := by
      have one : (1 : UInt16).toNat = 1 := rfl
      rw [UInt16.le_iff_toNat_le, UInt16.toNat_sub_of_le _ _ (UInt16.le_iff_toNat_le.mpr (by omega))]
      exact Nat.sub_le _ _
    exact answered run sends (fencing.quiet rfl fewer ⟨next_lt fencing.range.1, fencing.range.2⟩ fencing.echoing)
  · rw [if_neg (not_or.mpr ⟨none, zero⟩)] at sends
    obtain ⟨s, run, echo⟩ := backspace_some u.keyboard none fencing.range.1
    obtain ⟨t, sent, kept⟩ := fencing.taken none
    rw [echo zero fencing.echoing, Outcome.done.injEq] at sent
    obtain ⟨-, rfl⟩ := sent
    exact answered (handle.trans run) sends kept

theorem pressed_char {scancode : UInt16} {state : UInt8} {key : UInt16} (char : keyChar key ≠ 8)
    (handle : bconKbdHandle scancode state u.keyboard = asciiKey key u.keyboard)
    (sends : TermEvent.sends u.keyboard (.key scancode state) =
      TermEvent.answer (keyChar key) u.keyboard.inputQueue) : Answered attrs mem base (.key scancode state) u := by
  rw [TermEvent.answer, if_neg char] at sends
  by_cases full : u.keyboard.inputQueue.count = bconKbdQueueLen
  · rw [if_pos full] at sends
    have plain : ∀ c, c ∈ queueFull → c ≠ 0x0D ∧ c ≠ 0x08 := by simp [queueFull]
    obtain ⟨t, message, -⟩ := putAll_holds fencing.holds plain
    have run := handle.trans (full_prints u.keyboard char full message)
    exact answered run sends (fencing.printed plain rfl rfl message)
  · rw [if_neg full] at sends
    obtain ⟨s, run, echo⟩ := type_room u.keyboard char full fencing.range.2
    have back : echoedChar (keyChar key) ≠ 0x08 := fun same => char (echoedChar_inj same)
    have carriage : echoedChar (keyChar key) ≠ 0x0D := fun same => keyChar_plain key (echoedChar_inj same)
    exact answered (handle.trans run) sends (fencing.typed full back carriage _ (echo fencing.echoing))

theorem key_answered {scancode : UInt16} {state : UInt8}
    (proper : KbdCall.FromInterrupt (.handle scancode state)) :
    Answered attrs mem base (.key scancode state) u := by
  obtain ⟨small, bit⟩ := proper
  by_cases ascii : IsAscii (keyOf u.keyboard.kbdState scancode)
  · by_cases release : state = 1
    · subst release
      have none : typedChar u.keyboard.kbdState scancode 1 = none := if_neg fun both => both.2 rfl
      have sends : TermEvent.sends u.keyboard (.key scancode 1) = [] := by rw [TermEvent.sends, none]
      exact answered (bconKbdHandle_release small u.keyboard ascii) sends
        (fencing.quiet rfl (UInt16.le_refl _) fencing.range fencing.echoing)
    · have some : typedChar u.keyboard.kbdState scancode state =
          some (keyChar (keyOf u.keyboard.kbdState scancode)) := if_pos ⟨ascii, release⟩
      have sends : TermEvent.sends u.keyboard (.key scancode state) =
          TermEvent.answer (keyChar (keyOf u.keyboard.kbdState scancode)) u.keyboard.inputQueue := by
        rw [TermEvent.sends, some]
      have handle := bconKbdHandle_press small u.keyboard ascii release
      by_cases back : keyChar (keyOf u.keyboard.kbdState scancode) = 8
      · have key : keyOf u.keyboard.kbdState scancode = 8 := by
          unfold keyChar at back
          split at back
          next => exact absurd back (by decide)
          next => exact back
        rw [back] at sends
        rw [key] at handle
        exact fencing.pressed_back handle sends
      · exact fencing.pressed_char back handle sends
  · have none : typedChar u.keyboard.kbdState scancode state = none := if_neg fun both => ascii both.1
    have sends : TermEvent.sends u.keyboard (.key scancode state) = [] := by rw [TermEvent.sends, none]
    have run := bconKbdHandle_other small u.keyboard ascii (@rfl _ (otherKey _ state _))
    split at run
    next => exact Or.inl (TermEvent.step_exit run)
    next =>
      refine answered run sends (fencing.quiet rfl (UInt16.le_refl _) fencing.range ?_)
      exact (echo_otherKey _ _ _).trans fencing.echoing

theorem head_answered : Answered attrs mem base .head u := by
  by_cases none : u.keyboard.inputQueue.count = 0
  · have taken : onQueue (bconInputQueueHead bconKbdQueueLen) u.keyboard = .done retFailure u.keyboard :=
      Prog.zoom_done (queueHead_empty none)
    exact answered (Prog.bind_done _ taken) rfl
      (fencing.quiet rfl (UInt16.le_refl _) fencing.range fencing.echoing)
  · have taken : onQueue (bconInputQueueHead bconKbdQueueLen) u.keyboard = _ :=
      Prog.zoom_done (queueHead_some none fencing.range.1)
    exact answered (Prog.bind_done _ taken) rfl
      (fencing.quiet rfl (UInt16.le_refl _) ⟨next_lt fencing.range.1, fencing.range.2⟩ fencing.echoing)

/-- Every event. -/
theorem event_answered {e : TermEvent} (allowed : e.Allowed u) : Answered attrs mem base e u := by
  cases e with
  | key scancode state => exact fencing.key_answered allowed
  | write buff =>
    obtain ⟨t, run, -⟩ := putAll_holds fencing.holds allowed
    have written : onConsole (bconWrite buff) u.keyboard = .done () { u.keyboard with console := t } :=
      Prog.zoom_done run
    exact answered written rfl (fencing.printed allowed rfl rfl run)
  | head => exact fencing.head_answered

theorem of_runs {log : List (TermEvent × Unit)} {v : Terminal}
    (runs : Runs TermEvent.step TermEvent.Allowed u log v) : Fencing attrs mem base v := by
  refine runs.invariant (fun _ v => Fencing attrs mem base v) fencing ?_
  rintro log s e ⟨⟩ t kept allowed run
  rcases kept.event_answered allowed with ⟨w, exits⟩ | ⟨w, done, kept'⟩
  · rw [run] at exits
    cases exits
  · rw [run, Outcome.done.injEq] at done
    rw [done.2]
    exact kept'

end Fencing

/-- `bcon_init` with `bcon_kbd_init`. -/
def bconInit : Prog Keyboard Unit := do
  onConsole bconClearScreen
  bconKbdEchoOn

/-- From `bcon_init` on, whatever keys are pressed and whatever the kernel prints in between: the screen shows what
was sent, with the cursor on it, nothing but the screen is written, and what was there when the queue was empty
is never taken back. No event fails; one may be the reboot. -/
theorem terminal_fenced {k : Keyboard} {keys : Nat → Int8} (empty : k.inputQueue = .empty keys) :
    ∃ k₀, bconInit k = .done () k₀ ∧ ∀ log u, Runs TermEvent.step TermEvent.Allowed ⟨k₀, []⟩ log u →
      u.keyboard.console.Holds k.console.bconAttrs (paperOf k.console.bconAttrs u.sent) ∧
      OnScreen u.keyboard.console ∧ SameAround k.console.mem u.keyboard.console.mem ∧
      (u.keyboard.inputQueue.count = 0 → ∀ later v, Runs TermEvent.step TermEvent.Allowed u later v →
        (paperOf k.console.bconAttrs u.sent).text <+: (paperOf k.console.bconAttrs v.sent).text) ∧
      ∀ e : TermEvent, e.Allowed u → (∃ v, e.step u = .exit v) ∨ ∃ v, e.step u = .done () v := by
  obtain ⟨t, clear, attrs, screen⟩ := clearScreen_draws k.console
  have around := clearScreen_stays k.console t clear
  have cleared : onConsole bconClearScreen k = .done () { k with console := t } := Prog.zoom_done clear
  have depicts : Screen.Depicts (blankGlyph k.console.bconAttrs) t.screen (paperOf k.console.bconAttrs []) := by
    rw [screen]
    exact Screen.depicts_blank _ (by decide) (by decide) _ (fun _ => rfl) rfl
  have inside : (0 : UInt16) < bconKbdQueueLen := by decide
  have echoing : testMask echoState (setMask echoState k.kbdState) = true := by
    rw [testMask_setMask (by decide) (by decide), decide_eq_true rfl, Bool.true_or]
  have first : Fencing k.console.bconAttrs k.console.mem []
      ⟨{ k with console := t, kbdState := setMask echoState k.kbdState }, []⟩ := by
    refine ⟨⟨attrs, depicts⟩, around, ?_, ?_, ?_, echoing⟩
    · rw [empty]
      exact Sheet.Fenced.refl (paperOf k.console.bconAttrs [])
    · rw [InRange, empty]
      exact ⟨inside, inside⟩
    · rw [empty]
      exact UInt16.le_of_lt inside
  refine ⟨{ k with console := t, kbdState := setMask echoState k.kbdState }, ?_, fun log u runs => ?_⟩
  · rw [bconInit, Prog.bind_done _ cleared]
    rfl
  · have fencing := first.of_runs runs
    refine ⟨fencing.holds, fencing.holds.shown, fencing.around, fun none later v runs' => ?_, fun e allowed => ?_⟩
    · have again : Fencing k.console.bconAttrs k.console.mem (paperOf k.console.bconAttrs u.sent).text u := by
        refine ⟨fencing.holds, fencing.around, ?_, fencing.range, fencing.bound, fencing.echoing⟩
        rw [none]
        exact Sheet.Fenced.refl _
      exact (again.of_runs runs').fenced.kept
    · rcases fencing.event_answered allowed with exits | ⟨v, done, -⟩
      · exact Or.inl exits
      · exact Or.inr ⟨v, done⟩

/-- An `a` is typed, the kernel prints thirty lines, and the `a` is taken back. -/
theorem terminal_fenced_a : ∃ k₀ log u, bconInit (keyboardWith 0) = .done () k₀ ∧
    Runs TermEvent.step TermEvent.Allowed ⟨k₀, []⟩ log u ∧ u.sent = [0x61] ++ List.replicate 30 0x0A ++ [0x08] ∧
    u.keyboard.console.Holds termAttr (paperOf termAttr u.sent) ∧ OnScreen u.keyboard.console := by
  obtain ⟨k₀, init, shows⟩ := terminal_fenced (k := keyboardWith 0) rfl
  obtain ⟨t, clear, -⟩ := clearScreen_draws blankConsole
  have state : setMask echoState 0 = echoOnly := by decide
  have started : bconInit (keyboardWith 0) = .done () ⟨.empty fun _ => 0, echoOnly, t⟩ := by
    have cleared : onConsole bconClearScreen (keyboardWith 0) = .done () { keyboardWith 0 with console := t } :=
      Prog.zoom_done clear
    rw [bconInit, Prog.bind_done _ cleared, ← state]
    rfl
  rw [started, Outcome.done.injEq] at init
  obtain ⟨-, rfl⟩ := init
  have keyBack : keyOf echoOnly 14 = 8 := by decide +kernel
  have asciiA : IsAscii (keyOf echoOnly 30) := by
    rw [keyOf_a]
    decide
  have asciiBack : IsAscii (keyOf echoOnly 14) := by
    rw [keyBack]
    decide
  have charA : typedChar echoOnly 30 0 = some 0x61 := by
    rw [typedChar, if_pos ⟨asciiA, by decide⟩, keyOf_a]
    rfl
  have charBack : typedChar echoOnly 14 0 = some 8 := by
    rw [typedChar, if_pos ⟨asciiBack, by decide⟩, keyBack]
    rfl
  have press : (0 : UInt8) ≠ 1 := by decide
  have other : keyChar (keyOf echoOnly 30) ≠ 8 := by
    rw [keyOf_a]
    decide
  have inside : (0 : UInt16) < bconKbdQueueLen := by decide
  have room : (0 : UInt16) ≠ bconKbdQueueLen := by decide
  have none : Runs TermEvent.step TermEvent.Allowed ⟨⟨.empty fun _ => 0, echoOnly, t⟩, []⟩ [] _ := Runs.nil
  -- the `a`
  have handleA := bconKbdHandle_press (show (30 : UInt16).toNat < 128 by decide) ⟨.empty fun _ => 0, echoOnly, t⟩ asciiA
    press
  obtain ⟨c₁, run₁, -⟩ := type_room ⟨.empty fun _ => 0, echoOnly, t⟩ other room inside
  have typed : (TermEvent.key 30 0).run ⟨.empty fun _ => 0, echoOnly, t⟩ = _ := handleA.trans run₁
  have answerA : TermEvent.answer 0x61 (.empty fun _ => 0) = [0x61] := by decide
  have sendsA : (TermEvent.key 30 0).sends ⟨.empty fun _ => 0, echoOnly, t⟩ = [0x61] := by
    rw [TermEvent.sends, charA]
    exact answerA
  have stepA : (TermEvent.key 30 0).step ⟨⟨.empty fun _ => 0, echoOnly, t⟩, []⟩ = _ := TermEvent.step_done typed
  have allowedA : (TermEvent.key 30 0).Allowed ⟨⟨.empty fun _ => 0, echoOnly, t⟩, []⟩ := ⟨by decide, Or.inl rfl⟩
  have runs₁ := none.call allowedA stepA
  rw [sendsA, keyOf_a, List.nil_append] at runs₁
  -- thirty lines
  obtain ⟨⟨⟩, c₂, run₂⟩ := putAll_returns ((List.replicate 30 0x0A).map unsignedChar) c₁
  have written : onConsole (bconWrite (List.replicate 30 0x0A))
      ⟨(KeyQueue.empty fun _ => 0).pushed bconKbdQueueLen 0x61, echoOnly, c₁⟩ =
      .done () ⟨(KeyQueue.empty fun _ => 0).pushed bconKbdQueueLen 0x61, echoOnly, c₂⟩ := Prog.zoom_done run₂
  have stepLines : (TermEvent.write (List.replicate 30 0x0A)).step
      ⟨⟨(KeyQueue.empty fun _ => 0).pushed bconKbdQueueLen 0x61, echoOnly, c₁⟩, [0x61]⟩ = _ := TermEvent.step_done written
  have plain : ∀ c, c ∈ (List.replicate 30 (0x0A : Int8)).map unsignedChar → c ≠ 0x0D ∧ c ≠ 0x08 := by
    intro c member
    rw [List.map_replicate] at member
    rw [List.eq_of_mem_replicate member]
    decide
  have allowedLines : (TermEvent.write (List.replicate 30 0x0A)).Allowed
      ⟨⟨(KeyQueue.empty fun _ => 0).pushed bconKbdQueueLen 0x61, echoOnly, c₁⟩, [0x61]⟩ := plain
  have runs₂ := runs₁.call allowedLines stepLines
  -- the backspace
  have handleBack := bconKbdHandle_press (show (14 : UInt16).toNat < 128 by decide)
    ⟨(KeyQueue.empty fun _ => 0).pushed bconKbdQueueLen 0x61, echoOnly, c₂⟩ asciiBack press
  rw [keyBack] at handleBack
  have filled : ((KeyQueue.empty fun _ => 0).pushed bconKbdQueueLen 0x61).count ≠ 0 := by decide
  have first : ((KeyQueue.empty fun _ => 0).pushed bconKbdQueueLen 0x61).head < bconKbdQueueLen := by decide
  obtain ⟨c₃, run₃, -⟩ := backspace_some ⟨(KeyQueue.empty fun _ => 0).pushed bconKbdQueueLen 0x61, echoOnly, c₂⟩
    filled first
  have undone : (TermEvent.key 14 0).run ⟨(KeyQueue.empty fun _ => 0).pushed bconKbdQueueLen 0x61, echoOnly, c₂⟩ = _ :=
    handleBack.trans run₃
  have answerBack : TermEvent.answer 8 ((KeyQueue.empty fun _ => 0).pushed bconKbdQueueLen 0x61) = [0x08] := by decide
  have sendsBack : (TermEvent.key 14 0).sends
      ⟨(KeyQueue.empty fun _ => 0).pushed bconKbdQueueLen 0x61, echoOnly, c₂⟩ = [0x08] := by
    rw [TermEvent.sends, charBack]
    exact answerBack
  have stepBack : (TermEvent.key 14 0).step ⟨⟨(KeyQueue.empty fun _ => 0).pushed bconKbdQueueLen 0x61, echoOnly, c₂⟩,
      [0x61] ++ (List.replicate 30 (0x0A : Int8)).map unsignedChar⟩ = _ := TermEvent.step_done undone
  have allowedBack : (TermEvent.key 14 0).Allowed
      ⟨⟨(KeyQueue.empty fun _ => 0).pushed bconKbdQueueLen 0x61, echoOnly, c₂⟩,
        [0x61] ++ (List.replicate 30 (0x0A : Int8)).map unsignedChar⟩ := ⟨by decide, Or.inl rfl⟩
  have runs₃ := runs₂.call allowedBack stepBack
  rw [sendsBack] at runs₃
  obtain ⟨holds, shown, -⟩ := shows _ _ runs₃
  exact ⟨_, _, _, started, runs₃, rfl, holds, shown⟩

end Sos.Kernel
