import Sos.Kernel.Modifiers

/-! The line that is typed, and what is queued of it: a backspace takes the oldest character. -/

namespace Sos.Kernel
open Sos.Lib

/-- The character that an event types, if it types one. -/
def typedChar (kbdState scancode : UInt16) (state : UInt8) : Option UInt16 :=
  if IsAscii (keyOf kbdState scancode) ∧ state ≠ 1 then some (keyChar (keyOf kbdState scancode)) else none

/-- What a typed character does to a line. -/
def edit (line : List UInt16) (c : UInt16) : List UInt16 := if c = 8 then line.dropLast else line ++ [c]

/-- The line of the characters that were typed, backspaces among them. -/
def editLine (typed : List UInt16) : List UInt16 := typed.foldl edit []

/-- A character as it is queued, and as it is echoed. -/
def queuedChar (c : UInt16) : Int8 := c.toUInt8.toInt8

def echoedChar (c : UInt16) : Int32 := c.toUInt32.toInt32

/-- The keyboard, and what was typed on it. -/
structure Typing where
  keyboard : Keyboard
  typed : List UInt16

/-- A scancode and whether its key goes up. -/
structure KeyEvent where
  scancode : UInt16
  state : UInt8

namespace KeyEvent

def char (e : KeyEvent) (k : Keyboard) : Option UInt16 := typedChar k.kbdState e.scancode e.state

def step (e : KeyEvent) : Prog Typing Unit := do
  Prog.modify fun u => { u with typed := u.typed ++ (e.char u.keyboard).toList }
  Prog.zoom Typing.keyboard (fun u k => { u with keyboard := k }) (bconKbdHandle e.scancode e.state)

/-- An event from the interrupt, with room for the character if it types one. -/
def Fits (e : KeyEvent) (u : Typing) : Prop :=
  KbdCall.FromInterrupt (.handle e.scancode e.state) ∧ ∀ c, e.char u.keyboard = some c → c ≠ 8 →
    u.keyboard.inputQueue.count ≠ bconKbdQueueLen

/-- No backspace while the queue has two different characters. -/
def Undoes (e : KeyEvent) (u : Typing) : Prop := e.char u.keyboard = some 8 → ∀ c d,
  c ∈ u.keyboard.inputQueue.chars bconKbdQueueLen → d ∈ u.keyboard.inputQueue.chars bconKbdQueueLen → c = d

end KeyEvent

/-- The queue has the line that was typed, and what was echoed on the console leaves this line. -/
structure Matches (console : Console) (u : Typing) : Prop where
  queue : u.keyboard.inputQueue.chars bconKbdQueueLen = (editLine u.typed).map queuedChar
  echo : ∃ echoed, editLine echoed = editLine u.typed ∧
    putAll (echoed.map echoedChar) console = .done () u.keyboard.console

theorem editLine_append (typed : List UInt16) (c : UInt16) : editLine (typed ++ [c]) = edit (editLine typed) c := by
  rw [editLine, List.foldl_append]
  rfl

theorem putAll_snoc {text : List Int32} {c : Int32} {s t u : Console} (run : putAll text s = .done () t)
    (last : bconPutchar c t = .done () u) : putAll (text ++ [c]) s = .done () u := by
  induction text generalizing s with
  | nil =>
    cases run
    rw [List.nil_append, putAll, Prog.bind_done _ last]
    rfl
  | cons d text ih =>
    obtain ⟨_, v, first⟩ := bconPutchar_returns d s
    rw [putAll, Prog.bind_done _ first] at run
    rw [List.cons_append, putAll, Prog.bind_done _ first, ih run]

/-- Taking the first or the last element is the same when all of them are. -/
theorem tail_eq_dropLast {α : Type} {l : List α} : l.tail = l.dropLast ↔ ∀ c d, c ∈ l → d ∈ l → c = d := by
  cases l with
  | nil => simp
  | cons a l =>
    rw [List.tail_cons]
    induction l generalizing a with
    | nil => simp
    | cons b l ih =>
      rw [List.dropLast_cons_of_ne_nil (List.cons_ne_nil b l), List.cons.injEq, ih b]
      constructor
      · rintro ⟨rfl, same⟩ c d hc hd
        have inside : ∀ x, x ∈ b :: b :: l → x ∈ b :: l := by
          intro x member
          rcases List.mem_cons.mp member with rfl | member
          · exact List.mem_cons_self
          · exact member
        exact same c d (inside c hc) (inside d hd)
      · intro same
        refine ⟨same b a (by simp) (by simp), fun c d hc hd => ?_⟩
        exact same c d (List.mem_cons_of_mem a hc) (List.mem_cons_of_mem a hd)

/-- The character of an ASCII key fits a `char`. -/
theorem keyChar_ascii {key : UInt16} (ascii : IsAscii key) : 0 < (queuedChar (keyChar key)).toInt := by
  have char : IsAscii (keyChar key) := by
    unfold keyChar
    split
    · decide
    · exact ascii
  obtain ⟨below, nonzero⟩ := char
  have small : (keyChar key).toNat < 128 := UInt16.lt_iff_toNat_lt.mp below
  have positive : (keyChar key).toNat ≠ 0 := fun zero => nonzero (UInt16.toNat_inj.mp zero)
  have byte : (keyChar key).toUInt8.toBitVec.toNat = (keyChar key).toNat := by
    change (keyChar key).toUInt8.toNat = _
    rw [UInt16.toNat_toUInt8]
    omega
  have value : (queuedChar (keyChar key)).toInt = (keyChar key).toNat := by
    change (keyChar key).toUInt8.toBitVec.toInt = _
    rw [BitVec.toInt_eq_toNat_of_lt (by omega), byte]
  omega

/-- The bit for the echo is no key's. -/
theorem echo_otherKey (key : UInt16) (state : UInt8) (kbdState : UInt16) :
    testMask echoState (otherKey key state kbdState) = testMask echoState kbdState := by
  rw [otherKey_eq]
  cases tracked : trackedBit key with
  | none =>
    simp only
    split
    · rw [testMask_flip (by decide) (by decide), decide_eq_false (by decide), Bool.false_xor]
    · rfl
  | some m =>
    have low : m < echoState ∧ m.toNat < 16 := by
      rcases (trackedBit_mem tracked).2 with rfl | rfl | rfl | rfl
      all_goals decide
    have differ : echoState ≠ m := fun same => UInt16.lt_irrefl _ (same ▸ low.1)
    simp only [trackKey]
    split
    · rw [testMask_setMask (by decide) low.2, decide_eq_false differ, Bool.false_or]
    · rw [testMask_clearMask (by decide) low.2, decide_eq_true low.1, Bool.true_and]

/-- What every event keeps while the queue is edited as the line is. -/
structure Edited (console : Console) (u : Typing) : Prop extends Matches console u where
  queued : ∃ calls, Queued bconKbdQueueLen calls u.keyboard.inputQueue
  echoing : testMask echoState u.keyboard.kbdState = true

namespace Edited
variable {console : Console} {k : Keyboard} {typed : List UInt16} (edited : Edited console ⟨k, typed⟩)
include edited

/-- A character is queued and echoed. -/
theorem type {key : UInt16} (ascii : IsAscii key) (char : keyChar key ≠ 8)
    (room : k.inputQueue.count ≠ bconKbdQueueLen) : ∃ k', asciiKey key k = .done () k' ∧
      Edited console ⟨k', typed ++ [keyChar key]⟩ ∧ k'.kbdState = k.kbdState ∧
      k'.inputQueue = k.inputQueue.pushed bconKbdQueueLen (queuedChar (keyChar key)) := by
  obtain ⟨calls, queued⟩ := edited.queued
  obtain ⟨s, run, echoes⟩ := type_room k char room queued.tail
  obtain ⟨r, q, called, next⟩ := queued.enqueue (keyChar_ascii ascii)
  have same : KeyCall.step bconKbdQueueLen (.enqueue (queuedChar (keyChar key))) k.inputQueue =
      .done retSuccess (k.inputQueue.pushed bconKbdQueueLen (queuedChar (keyChar key))) :=
    enqueue_room _ room queued.tail
  rw [same, Outcome.done.injEq] at called
  obtain ⟨rfl, rfl⟩ := called
  have line : editLine (typed ++ [keyChar key]) = editLine typed ++ [keyChar key] := by
    rw [editLine_append, edit, if_neg char]
  obtain ⟨echoed, kept, shown⟩ := edited.echo
  refine ⟨_, run, ⟨⟨?_, echoed ++ [keyChar key], ?_, ?_⟩, ⟨_, next⟩, edited.echoing⟩, rfl, rfl⟩
  · change (k.inputQueue.pushed bconKbdQueueLen (queuedChar (keyChar key))).chars bconKbdQueueLen = _
    rw [queued.chars_pushed room, edited.queue, line, List.map_append]
    rfl
  · rw [editLine_append, kept, line, edit, if_neg char]
  · rw [List.map_append]
    exact putAll_snoc shown (echoes edited.echoing)

/-- A backspace does nothing to an empty queue. -/
theorem back_empty (none : k.inputQueue.count = 0) : asciiKey 8 k = .done () k ∧
    Edited console ⟨k, typed ++ [8]⟩ := by
  have empty : editLine typed = [] := by
    have chars := edited.queue
    rw [Queued.chars_empty.mpr none] at chars
    exact List.map_eq_nil_iff.mp chars.symm
  have line : editLine (typed ++ [8]) = editLine typed := by
    rw [editLine_append, empty]
    rfl
  refine ⟨backspace_empty k none, ⟨?_, ?_⟩, edited.queued, edited.echoing⟩
  · rw [line]
    exact edited.queue
  · rw [line]
    exact edited.echo

/-- Otherwise it takes the first character and is echoed. -/
theorem back_some (some : k.inputQueue.count ≠ 0) : ∃ k', asciiKey 8 k = .done () k' ∧
    k'.inputQueue.chars bconKbdQueueLen = (k.inputQueue.chars bconKbdQueueLen).tail ∧
    (∃ calls, Queued bconKbdQueueLen calls k'.inputQueue) ∧ k'.kbdState = k.kbdState ∧
    ∃ echoed, editLine echoed = editLine (typed ++ [8]) ∧
      putAll (echoed.map echoedChar) console = .done () k'.console := by
  obtain ⟨calls, queued⟩ := edited.queued
  obtain ⟨s, run, echoes⟩ := backspace_some k some queued.head
  obtain ⟨r, q, called, next⟩ := queued.dequeue
  have same : KeyCall.step bconKbdQueueLen .dequeue k.inputQueue =
      .done (k.inputQueue.keys k.inputQueue.head.toNat).toInt (k.inputQueue.popped bconKbdQueueLen) :=
    Prog.bind_done _ (dequeue_some some queued.head)
  rw [same, Outcome.done.injEq] at called
  obtain ⟨rfl, rfl⟩ := called
  have nonzero : k.inputQueue.keys k.inputQueue.head.toNat ≠ 0 := by
    intro zero
    have positive := queued.first_positive some
    rw [zero] at positive
    exact absurd positive (by decide)
  obtain ⟨echoed, kept, shown⟩ := edited.echo
  refine ⟨_, run, ?_, ⟨_, next⟩, rfl, echoed ++ [8], ?_, ?_⟩
  · rw [queued.chars_popped some]
    rfl
  · rw [editLine_append, editLine_append, kept]
  · rw [List.map_append]
    exact putAll_snoc shown (echoes nonzero edited.echoing)

/-- The backspace takes the last character of the line if and only if all of them are equal. -/
theorem back {k' : Keyboard} (chars : k'.inputQueue.chars bconKbdQueueLen = (k.inputQueue.chars bconKbdQueueLen).tail)
    (echo : ∃ echoed, editLine echoed = editLine (typed ++ [8]) ∧
      putAll (echoed.map echoedChar) console = .done () k'.console) :
    Matches console ⟨k', typed ++ [8]⟩ ↔ ∀ c d, c ∈ k.inputQueue.chars bconKbdQueueLen →
      d ∈ k.inputQueue.chars bconKbdQueueLen → c = d := by
  have line : (editLine (typed ++ [8])).map queuedChar = (k.inputQueue.chars bconKbdQueueLen).dropLast := by
    rw [editLine_append, edit, if_pos rfl, edited.queue, List.map_dropLast]
  rw [← tail_eq_dropLast, ← line, ← chars]
  exact ⟨fun matching => matching.queue, fun same => ⟨same, echo⟩⟩

end Edited

namespace KeyEvent
variable {e : KeyEvent} {u : Typing}

theorem step_done {k' : Keyboard} (run : bconKbdHandle e.scancode e.state u.keyboard = .done () k') :
    e.step u = .done () ⟨k', u.typed ++ (e.char u.keyboard).toList⟩ := by
  rw [step, Prog.modify_bind_run]
  exact Prog.zoom_done run

theorem step_exit {k' : Keyboard} (run : bconKbdHandle e.scancode e.state u.keyboard = .exit k') :
    ∃ v, e.step u = .exit v := by
  refine ⟨⟨k', u.typed ++ (e.char u.keyboard).toList⟩, ?_⟩
  rw [step, Prog.modify_bind_run, Prog.zoom, run]

end KeyEvent

/-- What an event comes to: the reboot, or a line that is kept if and only if the backspace is
harmless. -/
def Typed (console : Console) (e : KeyEvent) (u : Typing) : Prop :=
  (∃ v, e.step u = .exit v) ∨ ∃ v, e.step u = .done () v ∧ (Matches console v ↔ e.Undoes u) ∧
    (e.Undoes u → Edited console v)

namespace Edited
variable {console : Console} {u : Typing} {e : KeyEvent} (edited : Edited console u)
include edited

omit edited in
/-- An event that types nothing, or nothing that is taken back. -/
theorem typed_kept {k' : Keyboard} (run : bconKbdHandle e.scancode e.state u.keyboard = .done () k')
    (kept : Edited console ⟨k', u.typed ++ (e.char u.keyboard).toList⟩) (undoes : e.Undoes u) :
    Typed console e u :=
  Or.inr ⟨_, KeyEvent.step_done run, iff_of_true kept.toMatches undoes, fun _ => kept⟩

theorem typed_press (small : e.scancode.toNat < 128) (press : e.state ≠ 1)
    (ascii : IsAscii (keyOf u.keyboard.kbdState e.scancode))
    (room : ∀ c, e.char u.keyboard = some c → c ≠ 8 → u.keyboard.inputQueue.count ≠ bconKbdQueueLen) :
    Typed console e u := by
  have char : e.char u.keyboard = some (keyChar (keyOf u.keyboard.kbdState e.scancode)) := if_pos ⟨ascii, press⟩
  have handle := bconKbdHandle_press small u.keyboard ascii press
  by_cases back : keyChar (keyOf u.keyboard.kbdState e.scancode) = 8
  · have key : keyOf u.keyboard.kbdState e.scancode = 8 := by
      unfold keyChar at back
      split at back
      next => exact absurd back (by decide)
      next => exact back
    rw [back] at char
    rw [key] at handle
    by_cases none : u.keyboard.inputQueue.count = 0
    · obtain ⟨run, kept⟩ := edited.back_empty none
      refine typed_kept (handle.trans run) (by rwa [char]) fun _ c d member => ?_
      rw [Queued.chars_empty.mpr none] at member
      cases member
    · obtain ⟨k', run, chars, queued, kbdState, echo⟩ := edited.back_some none
      have matching := edited.back chars echo
      have done := KeyEvent.step_done (handle.trans run)
      rw [char] at done
      have undoes : e.Undoes u ↔ Matches console ⟨k', u.typed ++ [8]⟩ := by
        rw [matching]
        exact ⟨fun undoes => undoes char, fun same _ => same⟩
      refine Or.inr ⟨_, done, undoes.symm, fun harmless => ?_⟩
      exact ⟨undoes.mp harmless, queued, kbdState ▸ edited.echoing⟩
  · obtain ⟨k', run, kept, -⟩ := edited.type ascii back (room _ char back)
    refine typed_kept (handle.trans run) (by rwa [char]) fun backspace => ?_
    rw [char, Option.some.injEq] at backspace
    exact absurd backspace back

theorem typed_other (small : e.scancode.toNat < 128) (other : ¬IsAscii (keyOf u.keyboard.kbdState e.scancode)) :
    Typed console e u := by
  have char : e.char u.keyboard = none := if_neg fun both => other both.1
  have run := bconKbdHandle_other small u.keyboard other (@rfl _ (otherKey _ e.state _))
  split at run
  next => exact Or.inl (KeyEvent.step_exit run)
  next =>
    refine typed_kept run ?_ fun backspace => ?_
    · rw [char, Option.toList_none, List.append_nil]
      exact ⟨⟨edited.queue, edited.echo⟩, edited.queued, (echo_otherKey _ _ _).trans edited.echoing⟩
    · rw [char] at backspace
      cases backspace

theorem typed (fits : e.Fits u) : Typed console e u := by
  obtain ⟨⟨small, bit⟩, room⟩ := fits
  by_cases ascii : IsAscii (keyOf u.keyboard.kbdState e.scancode)
  · by_cases press : e.state = 1
    · have char : e.char u.keyboard = none := if_neg fun both => both.2 press
      have run := bconKbdHandle_release small u.keyboard ascii
      rw [← press] at run
      refine typed_kept run ?_ fun backspace => ?_
      · rw [char, Option.toList_none, List.append_nil]
        exact edited
      · rw [char] at backspace
        cases backspace
    · exact edited.typed_press small press ascii room
  · exact edited.typed_other small ascii

end Edited

/-- As long as a backspace meets no two different characters, the queue is the line that was
typed; and after a further event it is if and only if that is so for it. -/
theorem inputLine_edited_iff {k : Keyboard} {keys : Nat → Int8} (empty : k.inputQueue = .empty keys)
    (echoing : testMask echoState k.kbdState = true) :
    ∀ log u, Runs KeyEvent.step (fun e u => e.Fits u ∧ e.Undoes u) ⟨k, []⟩ log u →
      Matches k.console u ∧ ∀ e : KeyEvent, e.Fits u →
        (∃ v, e.step u = .exit v) ∨ ∃ v, e.step u = .done () v ∧ (Matches k.console v ↔ e.Undoes u) := by
  intro log u runs
  have kept : Edited k.console u := by
    refine runs.invariant (fun _ u => Edited k.console u) ?_ ?_
    · have queued : Queued bconKbdQueueLen [] k.inputQueue := empty ▸ queued_empty (by decide) keys
      exact ⟨⟨Queued.chars_empty.mpr (empty ▸ rfl), [], rfl, rfl⟩, ⟨[], queued⟩, echoing⟩
    · rintro log u e ⟨⟩ v edited ⟨fits, undoes⟩ run
      rcases edited.typed fits with ⟨w, exits⟩ | ⟨w, done, -, next⟩
      · rw [run] at exits
        cases exits
      · rw [done, Outcome.done.injEq] at run
        obtain ⟨-, rfl⟩ := run
        exact next undoes
  refine ⟨kept.toMatches, fun e fits => ?_⟩
  rcases kept.typed fits with exits | ⟨v, done, matching, -⟩
  · exact Or.inl exits
  · exact Or.inr ⟨v, done, matching⟩

/-- The state with the echo on and no key down. -/
def echoOnly : UInt16 := 0x8000

theorem edited_start : Edited blankConsole ⟨keyboardWith echoOnly, []⟩ where
  queue := rfl
  echo := ⟨[], rfl, rfl⟩
  queued := ⟨[], queued_empty (by decide) fun _ => 0⟩
  echoing := rfl

/-- The press of a key for a character. -/
theorem Edited.press {console : Console} {u : Typing} (edited : Edited console u) {scancode key : UInt16}
    (small : scancode.toNat < 128) (found : keyOf u.keyboard.kbdState scancode = key) (ascii : IsAscii key)
    (char : keyChar key ≠ 8) (room : u.keyboard.inputQueue.count ≠ bconKbdQueueLen) : ∃ k',
    KeyEvent.step ⟨scancode, 0⟩ u = .done () ⟨k', u.typed ++ [keyChar key]⟩ ∧
      KeyEvent.Fits ⟨scancode, 0⟩ u ∧ KeyEvent.Undoes ⟨scancode, 0⟩ u ∧
      Edited console ⟨k', u.typed ++ [keyChar key]⟩ ∧ k'.kbdState = u.keyboard.kbdState ∧
      k'.inputQueue = u.keyboard.inputQueue.pushed bconKbdQueueLen (queuedChar (keyChar key)) := by
  subst found
  obtain ⟨k', run, kept, kbdState, queue⟩ := edited.type ascii char room
  have press : (0 : UInt8) ≠ 1 := by decide
  have typed : KeyEvent.char ⟨scancode, 0⟩ u.keyboard = some (keyChar (keyOf u.keyboard.kbdState scancode)) :=
    if_pos ⟨ascii, press⟩
  have handled := (bconKbdHandle_press small u.keyboard ascii press).trans run
  have done : KeyEvent.step ⟨scancode, 0⟩ u = _ := KeyEvent.step_done handled
  rw [typed] at done
  refine ⟨k', done, ⟨⟨small, Or.inl rfl⟩, fun _ _ _ => room⟩, fun backspace => ?_, kept, kbdState, queue⟩
  rw [typed, Option.some.injEq] at backspace
  exact absurd backspace char

theorem keyOf_a : keyOf echoOnly 30 = 97 := by decide +kernel

/-- A backspace while something is queued. -/
theorem Edited.delete {console : Console} {k : Keyboard} {typed : List UInt16} (edited : Edited console ⟨k, typed⟩)
    (found : keyOf k.kbdState 14 = 8) (filled : k.inputQueue.count ≠ 0) : ∃ k',
    KeyEvent.step ⟨14, 0⟩ ⟨k, typed⟩ = .done () ⟨k', typed ++ [8]⟩ ∧ KeyEvent.Fits ⟨14, 0⟩ ⟨k, typed⟩ ∧
      k'.inputQueue.chars bconKbdQueueLen = (k.inputQueue.chars bconKbdQueueLen).tail := by
  obtain ⟨k', run, chars, -⟩ := edited.back_some filled
  have char : KeyEvent.char ⟨14, 0⟩ k = some 8 := by
    change typedChar k.kbdState 14 0 = some 8
    rw [typedChar, found]
    rfl
  have handled : bconKbdHandle 14 0 k = .done () k' := by
    rw [bconKbdHandle_press (by decide) k (found ▸ by decide) (by decide), found]
    exact run
  have done : KeyEvent.step ⟨14, 0⟩ ⟨k, typed⟩ = .done () ⟨k', typed ++ (some 8).toList⟩ := by
    rw [← char]
    exact KeyEvent.step_done handled
  refine ⟨k', done, ⟨⟨by decide, Or.inl rfl⟩, fun c typed other => ?_⟩, chars⟩
  rw [char, Option.some.injEq] at typed
  exact absurd typed.symm other

/-- An "a", and a backspace that takes it back. -/
theorem inputLine_edited_iff_a : ∃ log u,
    Runs KeyEvent.step (fun e u => e.Fits u ∧ e.Undoes u) ⟨keyboardWith echoOnly, []⟩ log u ∧ u.typed = [97, 8] ∧
      Matches blankConsole u ∧ ∀ e : KeyEvent, e.Fits u →
        (∃ v, e.step u = .exit v) ∨ ∃ v, e.step u = .done () v ∧ (Matches blankConsole v ↔ e.Undoes u) := by
  obtain ⟨k, done, fits, undoes, edited, state, queue⟩ :=
    edited_start.press (by decide) keyOf_a (by decide) (by decide) (by decide)
  have queued : k.inputQueue.chars bconKbdQueueLen = [97] := edited.queue
  have filled : k.inputQueue.count ≠ 0 := by
    intro none
    rw [Queued.chars_empty.mpr none] at queued
    cases queued
  have keyBack : keyOf k.kbdState 14 = 8 := by
    rw [state]
    decide +kernel
  obtain ⟨k', done', fits', -⟩ := edited.delete keyBack filled
  have undoes' : KeyEvent.Undoes ⟨14, 0⟩ ⟨k, [97]⟩ := by
    rintro - c d first second
    rw [queued, List.mem_singleton] at first second
    rw [first, second]
  have start : Runs KeyEvent.step (fun e u => e.Fits u ∧ e.Undoes u) ⟨keyboardWith echoOnly, []⟩ []
      ⟨keyboardWith echoOnly, []⟩ := Runs.nil
  have runs := (start.call ⟨fits, undoes⟩ done).call ⟨fits', undoes'⟩ done'
  exact ⟨_, _, runs, rfl, inputLine_edited_iff rfl rfl _ _ runs⟩

/-- After "a", "b" and a backspace the "b" is queued. -/
theorem inputLine_wrong_end : ∃ log u, Runs KeyEvent.step KeyEvent.Fits ⟨keyboardWith echoOnly, []⟩ log u ∧
    u.typed = [97, 98, 8] ∧ u.keyboard.inputQueue.chars bconKbdQueueLen = [98] ∧ ¬Matches blankConsole u := by
  obtain ⟨k₁, first, fits₁, -, edited₁, state₁, queue₁⟩ :=
    edited_start.press (by decide) keyOf_a (by decide) (by decide) (by decide)
  have keyB : keyOf k₁.kbdState 48 = 98 := by
    rw [state₁]
    decide +kernel
  have room : k₁.inputQueue.count ≠ bconKbdQueueLen := by
    rw [queue₁]
    decide
  obtain ⟨k₂, second, fits₂, -, edited₂, state₂, queue₂⟩ :=
    edited₁.press (by decide) keyB (by decide) (by decide) room
  have keyBack : keyOf k₂.kbdState 14 = 8 := by
    rw [state₂, state₁]
    decide +kernel
  have queued : k₂.inputQueue.chars bconKbdQueueLen = [97, 98] := edited₂.queue
  have filled : k₂.inputQueue.count ≠ 0 := by
    intro none
    rw [Queued.chars_empty.mpr none] at queued
    cases queued
  obtain ⟨k₃, third, fits₃, chars⟩ := edited₂.delete keyBack filled
  rw [queued] at chars
  have start : Runs KeyEvent.step KeyEvent.Fits ⟨keyboardWith echoOnly, []⟩ []
      ⟨keyboardWith echoOnly, []⟩ := Runs.nil
  have runs := ((start.call fits₁ first).call fits₂ second).call fits₃ third
  refine ⟨_, _, runs, rfl, chars, fun matching => ?_⟩
  have wrong : ([98] : List Int8) = (editLine [97, 98, 8]).map queuedChar := chars.symm.trans matching.queue
  exact absurd wrong (by decide)

end Sos.Kernel
