import Sos.Kernel.Keyboard

/-! The bits of `kbd_state`, over any sequence of keys: how far each one is kept apart from the
others. -/

namespace Sos.Kernel
open Sos.Lib

inductive KbdCall where
  | handle (scancode : UInt16) (state : UInt8)
  | echoOn
  | echoOff

namespace KbdCall

def step : KbdCall → Prog Keyboard Unit
  | .handle scancode state => bconKbdHandle scancode state
  | .echoOn => bconKbdEchoOn
  | .echoOff => bconKbdEchoOff

/-- The arguments that `kbd_interrupt` passes. -/
def FromInterrupt : KbdCall → Prop
  | .handle scancode state => scancode.toNat < 128 ∧ (state = 0 ∨ state = 1)
  | _ => True

theorem of_interrupt (key : UInt8) : ∃ c : KbdCall, c.FromInterrupt ∧ kbdInterrupt key = c.step := by
  have mask : (~~~0x80 : UInt8).toNat = 127 := rfl
  have small : (key &&& ~~~0x80).toUInt16.toNat < 128 := by
    rw [UInt8.toNat_toUInt16, UInt8.toNat_and, mask]
    exact Nat.lt_succ_of_le Nat.and_le_right
  refine ⟨.handle (key &&& ~~~0x80).toUInt16 (if key &&& 0x80 = 0 then 0 else 1), ⟨small, ?_⟩, rfl⟩
  by_cases down : key &&& 0x80 = 0
  · exact Or.inl (if_pos down)
  · exact Or.inr (if_neg down)

end KbdCall

/-- The key of a scancode, whatever the state. -/
def plainKey (scancode : UInt16) : UInt16 := usKeymap.getD scancode.toNat 0

/-- The bit that tells whether a key of this kind is down. -/
def trackedBit (key : UInt16) : Option UInt16 :=
  if key = kCtl then some kStCtl
  else if key = kLMeta ∨ key = kRMeta then some kStMeta
  else if key = kDel then some kStDel
  else if key = kLShift ∨ key = kRShift then some kStShift
  else none

/-- The last event of a key of this kind was a press. -/
def held (n : UInt16) : List (KbdCall × Unit) → Bool
  | [] => false
  | (.handle scancode state, _) :: log =>
    if trackedBit (plainKey scancode) = some n then decide (state = 0) else held n log
  | _ :: log => held n log

/-- Caps lock was pressed an odd number of times. -/
def capsOn : List (KbdCall × Unit) → Bool
  | [] => false
  | (.handle scancode state, _) :: log =>
    if plainKey scancode = kCaps ∧ state = 0 then !capsOn log else capsOn log
  | _ :: log => capsOn log

/-- The echo was switched on last. -/
def echoOn : List (KbdCall × Unit) → Bool
  | [] => false
  | (.echoOn, _) :: _ => true
  | (.echoOff, _) :: _ => false
  | _ :: log => echoOn log

/-- What each bit is to be after some calls. -/
def flag (n : UInt16) (log : List (KbdCall × Unit)) : Bool :=
  if n = kStCaps then capsOn log
  else if n = echoState then echoOn log
  else held n log

/-- Every bit tells about its own key, or the echo. -/
def Independent (log : List (KbdCall × Unit)) (kbdState : UInt16) : Prop :=
  ∀ n : UInt16, n.toNat < 16 → testMask n kbdState = flag n log

/-- No bit below is set. -/
def NoneBelow (n kbdState : UInt16) : Prop := ∀ m : UInt16, m < n → testMask m kbdState = false

/-- A bit is cleared only when none below it is set. -/
def Spares : KbdCall → UInt16 → Prop
  | .handle scancode state, kbdState =>
    state = 0 ∨ ∀ n, trackedBit (plainKey scancode) = some n → NoneBelow n kbdState
  | .echoOn, _ => True
  | .echoOff, kbdState => NoneBelow echoState kbdState

/-- A key that is no character is pressed, and `CTL`, `META` and `DEL` are down with it. -/
def AsksReboot (log : List (KbdCall × Unit)) : KbdCall → Prop
  | .handle scancode state => ¬IsAscii (plainKey scancode) ∧ state = 0 ∧
      held kStCtl ((.handle scancode state, ()) :: log) = true ∧
      held kStMeta ((.handle scancode state, ()) :: log) = true ∧
      held kStDel ((.handle scancode state, ()) :: log) = true
  | _ => False

/-- Shift and caps lock change characters into characters only. -/
theorem shifted_entry : ∀ i, i < 128 → usKeymap.getD (i + 128) 0 = usKeymap.getD i 0 ∨
    IsAscii (usKeymap.getD i 0) ∧ IsAscii (usKeymap.getD (i + 128) 0) := by
  decide +kernel

theorem keyOf_plain (kbdState : UInt16) {scancode : UInt16} (small : scancode.toNat < 128) :
    keyOf kbdState scancode = plainKey scancode ∨
      IsAscii (plainKey scancode) ∧ IsAscii (keyOf kbdState scancode) := by
  unfold keyOf keyIndex plainKey
  split
  · exact shifted_entry scancode.toNat small
  · exact Or.inl rfl

theorem isAscii_keyOf (kbdState : UInt16) {scancode : UInt16} (small : scancode.toNat < 128) :
    IsAscii (keyOf kbdState scancode) ↔ IsAscii (plainKey scancode) := by
  rcases keyOf_plain kbdState small with same | ⟨plain, shifted⟩
  · rw [same]
  · exact iff_of_true shifted plain

theorem keyOf_other (kbdState : UInt16) {scancode : UInt16} (small : scancode.toNat < 128)
    (other : ¬IsAscii (plainKey scancode)) : keyOf kbdState scancode = plainKey scancode := by
  rcases keyOf_plain kbdState small with same | ⟨plain, -⟩
  · exact same
  · exact absurd plain other

/-- Characters have no bits. -/
theorem trackedBit_ascii {key : UInt16} (char : IsAscii key) : trackedBit key = none ∧ key ≠ kCaps := by
  have below : key.toNat < 128 := UInt16.lt_iff_toNat_lt.mp char.1
  have differ : ∀ x : UInt16, 128 ≤ x.toNat → key ≠ x := by
    rintro x large rfl
    omega
  unfold trackedBit
  rw [if_neg (differ kCtl (by decide)),
    if_neg (not_or.mpr ⟨differ kLMeta (by decide), differ kRMeta (by decide)⟩),
    if_neg (differ kDel (by decide)),
    if_neg (not_or.mpr ⟨differ kLShift (by decide), differ kRShift (by decide)⟩)]
  exact ⟨rfl, differ kCaps (by decide)⟩

/-- The bits that keys are kept in. -/
theorem trackedBit_mem {key n : UInt16} (tracked : trackedBit key = some n) :
    key ≠ kCaps ∧ (n = kStCtl ∨ n = kStMeta ∨ n = kStDel ∨ n = kStShift) := by
  unfold trackedBit at tracked
  split at tracked
  next same =>
    subst same
    exact ⟨by decide, Or.inl (Option.some.inj tracked).symm⟩
  next =>
    split at tracked
    next same =>
      refine ⟨?_, Or.inr (Or.inl (Option.some.inj tracked).symm)⟩
      rcases same with rfl | rfl
      · decide
      · decide
    next =>
      split at tracked
      next same =>
        subst same
        exact ⟨by decide, Or.inr (Or.inr (Or.inl (Option.some.inj tracked).symm))⟩
      next =>
        split at tracked
        next same =>
          refine ⟨?_, Or.inr (Or.inr (Or.inr (Option.some.inj tracked).symm))⟩
          rcases same with rfl | rfl
          · decide
          · decide
        next => cases tracked

/-- The `switch` as a case distinction on the bit. -/
theorem otherKey_eq (key : UInt16) (state : UInt8) (kbdState : UInt16) : otherKey key state kbdState =
    match trackedBit key with
    | some n => trackKey n state kbdState
    | none => if key = kCaps ∧ state = 0 then kbdState ^^^ 1 <<< kStCaps else kbdState := by
  unfold otherKey trackedBit
  by_cases ctl : key = kCtl
  · rw [if_pos ctl, if_pos ctl]
  · rw [if_neg ctl, if_neg ctl]
    by_cases metas : key = kLMeta ∨ key = kRMeta
    · rw [if_pos metas, if_pos metas]
    · rw [if_neg metas, if_neg metas]
      by_cases del : key = kDel
      · rw [if_pos del, if_pos del]
      · rw [if_neg del, if_neg del]
        by_cases shift : key = kLShift ∨ key = kRShift
        · rw [if_pos shift, if_pos shift]
        · rw [if_neg shift, if_neg shift]
          by_cases caps : key = kCaps
          · by_cases press : state = 0
            · simp [caps, press]
            · simp [caps, press]
          · simp [caps]

section
variable {log : List (KbdCall × Unit)} {kbdState scancode : UInt16} {state : UInt8} {n : UInt16}

theorem echoOn_handle : echoOn ((.handle scancode state, ()) :: log) = echoOn log := rfl

/-- The event of a key that is kept in a bit. -/
theorem flag_tracked {m : UInt16} (tracked : trackedBit (plainKey scancode) = some m) :
    flag n ((.handle scancode state, ()) :: log) = if n = m then decide (state = 0) else flag n log := by
  obtain ⟨notCaps, bit⟩ := trackedBit_mem tracked
  have other : m ≠ kStCaps ∧ m ≠ echoState := by
    rcases bit with rfl | rfl | rfl | rfl
    all_goals decide
  unfold flag
  by_cases same : n = m
  · subst same
    rw [if_neg other.1, if_neg other.2, if_pos rfl, held, if_pos tracked]
  · have differ : ¬trackedBit (plainKey scancode) = some n := by
      rw [tracked]
      exact fun equal => same (Option.some.inj equal).symm
    have caps : ¬(plainKey scancode = kCaps ∧ state = 0) := fun both => notCaps both.1
    rw [if_neg same, capsOn, if_neg caps, held, if_neg differ, echoOn_handle]

/-- The event of any other key. -/
theorem flag_untracked (untracked : trackedBit (plainKey scancode) = none) :
    flag n ((.handle scancode state, ()) :: log) =
      if n = kStCaps ∧ plainKey scancode = kCaps ∧ state = 0 then !flag n log else flag n log := by
  have none : ¬trackedBit (plainKey scancode) = some n := by
    rw [untracked]
    intro equal
    cases equal
  unfold flag
  rw [held, if_neg none, echoOn_handle, capsOn]
  by_cases caps : n = kStCaps
  · by_cases press : plainKey scancode = kCaps ∧ state = 0
    · simp [caps, press]
    · simp [caps, press]
  · simp [caps]

variable (independent : Independent log kbdState)
include independent

/-- The press of a key sets its bit, and no other one. -/
theorem independent_press {m : UInt16} (tracked : trackedBit (plainKey scancode) = some m) :
    Independent ((.handle scancode 0, ()) :: log) (setMask m kbdState) := by
  have small : m.toNat < 16 := by
    rcases (trackedBit_mem tracked).2 with rfl | rfl | rfl | rfl
    all_goals decide
  intro n inside
  rw [testMask_setMask inside small, flag_tracked tracked, independent n inside]
  by_cases same : n = m
  · simp [same]
  · simp [same]

/-- Its release clears the bits below as well. -/
theorem independent_release {m : UInt16} (tracked : trackedBit (plainKey scancode) = some m)
    (release : state ≠ 0) :
    Independent ((.handle scancode state, ()) :: log) (clearMask m kbdState) ↔ NoneBelow m kbdState := by
  have small : m.toNat < 16 := by
    rcases (trackedBit_mem tracked).2 with rfl | rfl | rfl | rfl
    all_goals decide
  constructor
  · intro next l below
    have under : l.toNat < m.toNat := UInt16.lt_iff_toNat_lt.mp below
    have inside : l.toNat < 16 := under.trans small
    have now := next l inside
    have differ : l ≠ m := by
      rintro rfl
      omega
    have stays : ¬m < l := by
      rw [UInt16.lt_iff_toNat_lt]
      omega
    rw [testMask_clearMask inside small, flag_tracked tracked, if_neg differ, ← independent l inside,
      decide_eq_false stays, Bool.false_and] at now
    exact now.symm
  · intro none n inside
    rw [testMask_clearMask inside small, flag_tracked tracked]
    by_cases same : n = m
    · subst same
      simp [release, UInt16.lt_irrefl]
    · rw [if_neg same, ← independent n inside]
      by_cases above : m < n
      · simp [above]
      · have differ : n.toNat ≠ m.toNat := fun equal => same (UInt16.toNat_inj.mp equal)
        have below : n < m := by
          rw [UInt16.lt_iff_toNat_lt] at above ⊢
          omega
        simp [above, none n below]

/-- Caps lock is switched by its press; the other keys leave the state. -/
theorem independent_untracked (untracked : trackedBit (plainKey scancode) = none) :
    Independent ((.handle scancode state, ()) :: log)
      (if plainKey scancode = kCaps ∧ state = 0 then kbdState ^^^ 1 <<< kStCaps else kbdState) := by
  intro n inside
  rw [flag_untracked untracked, ← independent n inside]
  by_cases caps : plainKey scancode = kCaps ∧ state = 0
  · rw [if_pos caps, testMask_flip inside (by decide)]
    by_cases same : n = kStCaps
    · simp [same, caps]
    · simp [same]
  · rw [if_neg caps, if_neg (fun all => caps all.2)]

theorem independent_echoOn : Independent ((.echoOn, ()) :: log) (setMask echoState kbdState) := by
  intro n inside
  rw [testMask_setMask inside (by decide), independent n inside]
  unfold flag
  by_cases same : n = echoState
  · subst same
    rfl
  · simp only [same, decide_false, Bool.false_or, if_false]
    rfl

theorem independent_echoOff :
    Independent ((.echoOff, ()) :: log) (clearMask echoState kbdState) ↔ NoneBelow echoState kbdState := by
  have flags : ∀ n, n ≠ echoState → flag n ((.echoOff, ()) :: log) = flag n log := by
    intro n differ
    unfold flag
    rw [if_neg differ, if_neg differ]
    rfl
  constructor
  · intro next l below
    have under : l.toNat < 15 := UInt16.lt_iff_toNat_lt.mp below
    have inside : l.toNat < 16 := by omega
    have now := next l inside
    have differ : l ≠ echoState := by
      rintro rfl
      exact absurd under (by decide)
    have stays : ¬echoState < l := by
      rw [UInt16.lt_iff_toNat_lt]
      change ¬15 < l.toNat
      omega
    rw [testMask_clearMask inside (by decide), flags l differ, ← independent l inside, decide_eq_false stays,
      Bool.false_and] at now
    exact now.symm
  · intro none n inside
    rw [testMask_clearMask inside (by decide)]
    by_cases same : n = echoState
    · subst same
      rfl
    · have differ : n.toNat ≠ 15 := fun equal => same (UInt16.toNat_inj.mp equal)
      have below : n < echoState := by
        rw [UInt16.lt_iff_toNat_lt]
        change n.toNat < 15
        omega
      rw [flags n same, ← independent n inside, none n below, Bool.and_false]

end

/-- Both ends of the queue are places of the array. -/
def InRange (k : Keyboard) : Prop :=
  k.inputQueue.head < bconKbdQueueLen ∧ k.inputQueue.tail < bconKbdQueueLen

/-- A character leaves the state of the keys. -/
theorem asciiKey_keeps {k : Keyboard} (range : InRange k) (key : UInt16) : ∃ k',
    asciiKey key k = .done () k' ∧ k'.kbdState = k.kbdState ∧ InRange k' := by
  by_cases back : keyChar key = 8
  · have same : key = 8 := by
      unfold keyChar at back
      split at back
      next => exact absurd back (by decide)
      next => exact back
    subst same
    by_cases none : k.inputQueue.count = 0
    · exact ⟨k, backspace_empty k none, rfl, range⟩
    · obtain ⟨s, run, -⟩ := backspace_some k none range.1
      exact ⟨_, run, rfl, next_lt range.1, range.2⟩
  · by_cases full : k.inputQueue.count = bconKbdQueueLen
    · obtain ⟨s, run⟩ := type_full k back full
      exact ⟨_, run, rfl, range⟩
    · obtain ⟨s, run, -⟩ := type_room k back full range.2
      exact ⟨_, run, rfl, range.1, next_lt range.2⟩

/-- What a call does to the state of the keys: the reboot, or a state that is kept apart if and
only if no bit below was in the way. -/
structure Outcomes (log : List (KbdCall × Unit)) (k : Keyboard) (c : KbdCall) : Prop where
  reboots : (∃ k', c.step k = .exit k') ↔ AsksReboot log c
  returns : ¬AsksReboot log c → ∃ k', c.step k = .done () k' ∧ InRange k' ∧
    (Independent ((c, ()) :: log) k'.kbdState ↔ Spares c k.kbdState)

theorem Outcomes.of_done {log : List (KbdCall × Unit)} {k k' : Keyboard} {c : KbdCall}
    (never : ¬AsksReboot log c) (run : c.step k = .done () k') (range : InRange k')
    (next : Independent ((c, ()) :: log) k'.kbdState ↔ Spares c k.kbdState) : Outcomes log k c where
  reboots := by
    refine iff_of_false ?_ never
    rintro ⟨k'', rebooted⟩
    rw [run] at rebooted
    cases rebooted
  returns := fun _ => ⟨k', run, range, next⟩

section
variable {log : List (KbdCall × Unit)} {k : Keyboard} (range : InRange k) (independent : Independent log k.kbdState)
include range independent

theorem outcomes_ascii {scancode : UInt16} {state : UInt8} (small : scancode.toNat < 128)
    (bit : state = 0 ∨ state = 1) (char : IsAscii (plainKey scancode)) :
    Outcomes log k (.handle scancode state) := by
  obtain ⟨untracked, notCaps⟩ := trackedBit_ascii char
  have key : IsAscii (keyOf k.kbdState scancode) := (isAscii_keyOf k.kbdState small).mpr char
  have never : ¬AsksReboot log (.handle scancode state) := fun asks => asks.1 char
  have spares : Spares (.handle scancode state) k.kbdState := by
    refine Or.inr fun n tracked => ?_
    rw [untracked] at tracked
    cases tracked
  have same : Independent ((.handle scancode state, ()) :: log) k.kbdState := by
    have kept : (if plainKey scancode = kCaps ∧ state = 0 then k.kbdState ^^^ 1 <<< kStCaps else k.kbdState) =
        k.kbdState := if_neg fun caps => notCaps caps.1
    rw [← kept]
    exact independent_untracked independent untracked
  rcases bit with rfl | rfl
  · obtain ⟨k', run, kbdState, range'⟩ := asciiKey_keeps range (keyOf k.kbdState scancode)
    refine Outcomes.of_done never ((bconKbdHandle_press small k key (by decide)).trans run) range' ?_
    rw [kbdState]
    exact iff_of_true same spares
  · exact Outcomes.of_done never (bconKbdHandle_release small k key) range (iff_of_true same spares)

theorem outcomes_other {scancode : UInt16} {state : UInt8} (small : scancode.toNat < 128)
    (other : ¬IsAscii (plainKey scancode)) : Outcomes log k (.handle scancode state) := by
  have same := keyOf_other k.kbdState small other
  obtain ⟨x, next⟩ : ∃ x, otherKey (plainKey scancode) state k.kbdState = x := ⟨_, rfl⟩
  have kept : Independent ((.handle scancode state, ()) :: log) x ↔ Spares (.handle scancode state) k.kbdState := by
    rw [← next, otherKey_eq]
    cases tracked : trackedBit (plainKey scancode) with
    | none =>
      refine iff_of_true (independent_untracked independent tracked) (Or.inr fun n some => ?_)
      rw [tracked] at some
      cases some
    | some m =>
      by_cases press : state = 0
      · subst press
        exact iff_of_true (independent_press independent tracked) (Or.inl rfl)
      · refine Iff.trans ?_ (or_iff_right press).symm
        simp only [trackKey, if_neg press]
        rw [independent_release independent tracked press, tracked]
        simp
  have run := bconKbdHandle_other small k (same ▸ other) (same ▸ next)
  have bits : state = 0 → (testMask kStCtl x = held kStCtl ((.handle scancode state, ()) :: log) ∧
      testMask kStMeta x = held kStMeta ((.handle scancode state, ()) :: log) ∧
      testMask kStDel x = held kStDel ((.handle scancode state, ()) :: log)) := by
    intro press
    have all := kept.mpr (Or.inl press)
    exact ⟨all kStCtl (by decide), all kStMeta (by decide), all kStDel (by decide)⟩
  by_cases down : state = 0 ∧ testMask kStCtl x ∧ testMask kStMeta x ∧ testMask kStDel x
  · rw [if_pos down] at run
    obtain ⟨press, ctl, metas, del⟩ := down
    obtain ⟨ctl', metas', del'⟩ := bits press
    have asks : AsksReboot log (.handle scancode state) :=
      ⟨other, press, ctl' ▸ ctl, metas' ▸ metas, del' ▸ del⟩
    exact ⟨iff_of_true ⟨_, run⟩ asks, fun never => absurd asks never⟩
  · rw [if_neg down] at run
    refine Outcomes.of_done ?_ run range kept
    rintro ⟨-, press, ctl, metas, del⟩
    obtain ⟨ctl', metas', del'⟩ := bits press
    exact down ⟨press, ctl'.trans ctl, metas'.trans metas, del'.trans del⟩

theorem outcomes {c : KbdCall} (proper : c.FromInterrupt) : Outcomes log k c := by
  cases c with
  | handle scancode state =>
    obtain ⟨small, bit⟩ := proper
    by_cases char : IsAscii (plainKey scancode)
    · exact outcomes_ascii range independent small bit char
    · exact outcomes_other range independent small char
  | echoOn =>
    have run : KbdCall.step .echoOn k = .done () { k with kbdState := setMask echoState k.kbdState } := rfl
    exact Outcomes.of_done id run range (iff_of_true (independent_echoOn independent) trivial)
  | echoOff =>
    have run : KbdCall.step .echoOff k = .done () { k with kbdState := clearMask echoState k.kbdState } := rfl
    exact Outcomes.of_done id run range (independent_echoOff independent)

end

/-- The keyboard before any key, with nothing in the queue. -/
def Keyboard.start (keys : Nat → Int8) (console : Console) : Keyboard := ⟨.empty keys, 0, console⟩

theorem independent_start : Independent [] 0 := by
  intro n inside
  rw [testMask_eq inside, UInt16.toNat_zero, Nat.zero_testBit]
  unfold flag
  split
  · rfl
  · split
    · rfl
    · rfl

/-- As long as a bit is cleared with none below it set, the bits are independent, and after a
further call they are if and only if that is so for it. A reboot is asked for as it should be. -/
theorem modifiers_independent_iff (keys : Nat → Int8) (console : Console) :
    ∀ log k, Runs KbdCall.step (fun c k => c.FromInterrupt ∧ Spares c k.kbdState) (.start keys console) log k →
      Independent log k.kbdState ∧ ∀ c : KbdCall, c.FromInterrupt →
        ((∃ k', c.step k = .exit k') ↔ AsksReboot log c) ∧
        (¬AsksReboot log c → ∃ k', c.step k = .done () k' ∧
          (Independent ((c, ()) :: log) k'.kbdState ↔ Spares c k.kbdState)) := by
  intro log k runs
  have inside : (0 : UInt16) < bconKbdQueueLen := by decide
  have kept : InRange k ∧ Independent log k.kbdState := by
    refine runs.invariant (fun log k => InRange k ∧ Independent log k.kbdState)
      ⟨⟨inside, inside⟩, independent_start⟩ ?_
    rintro log k c ⟨⟩ k' ⟨range, independent⟩ ⟨proper, spares⟩ run
    have outcome := outcomes range independent proper
    have never : ¬AsksReboot log c := by
      intro asks
      obtain ⟨k'', rebooted⟩ := outcome.reboots.mpr asks
      rw [run] at rebooted
      cases rebooted
    obtain ⟨k'', run', range', next⟩ := outcome.returns never
    rw [run', Outcome.done.injEq] at run
    obtain ⟨-, rfl⟩ := run
    exact ⟨range', next.mpr spares⟩
  refine ⟨kept.2, fun c proper => ?_⟩
  have outcome := outcomes kept.1 kept.2 proper
  refine ⟨outcome.reboots, fun never => ?_⟩
  obtain ⟨k', run, -, next⟩ := outcome.returns never
  exact ⟨k', run, next⟩

/-- A key that asks for no reboot, with the state before and after it. -/
theorem handle_from {scancode x y : UInt16} {state : UInt8} (small : scancode.toNat < 128)
    (other : ¬IsAscii (keyOf x scancode)) (next : otherKey (keyOf x scancode) state x = y)
    (alone : ¬(state = 0 ∧ testMask kStCtl y ∧ testMask kStMeta y ∧ testMask kStDel y)) (q : KeyQueue)
    (console : Console) :
    KbdCall.step (.handle scancode state) ⟨q, x, console⟩ = .done () ⟨q, y, console⟩ := by
  have run := bconKbdHandle_other small ⟨q, x, console⟩ other next
  rwa [if_neg alone] at run

/-- A console with nothing on it. -/
def blankConsole : Console := ⟨fun _ => 0, 0, fun _ => 0, termAttr⟩

/-- The keyboard on it, with this state of the keys. -/
def keyboardWith (kbdState : UInt16) : Keyboard := ⟨.empty fun _ => 0, kbdState, blankConsole⟩

theorem fromInterrupt_shift {state : UInt8} (bit : state = 0 ∨ state = 1) :
    KbdCall.FromInterrupt (.handle 42 state) := ⟨by decide, bit⟩

theorem shift_press : KbdCall.step (.handle 42 0) (keyboardWith 0) = .done () (keyboardWith 1) :=
  handle_from (by decide) (by decide +kernel) (by decide +kernel) (by decide) _ _

theorem shift_release : KbdCall.step (.handle 42 1) (keyboardWith 1) = .done () (keyboardWith 0) :=
  handle_from (by decide) (by decide +kernel) (by decide +kernel) (by decide) _ _

/-- Left shift is pressed and released. -/
theorem modifiers_independent_iff_shift : ∃ log k,
    Runs KbdCall.step (fun c k => c.FromInterrupt ∧ Spares c k.kbdState) (keyboardWith 0) log k ∧
      log.length = 2 ∧ Independent log k.kbdState ∧ ∀ c : KbdCall, c.FromInterrupt →
        ((∃ k', c.step k = .exit k') ↔ AsksReboot log c) ∧
        (¬AsksReboot log c → ∃ k', c.step k = .done () k' ∧
          (Independent ((c, ()) :: log) k'.kbdState ↔ Spares c k.kbdState)) := by
  have shift : trackedBit (plainKey 42) = some 0 := by decide +kernel
  have lowest : Spares (.handle 42 1) 1 := by
    refine Or.inr fun n tracked m below => ?_
    rw [shift, Option.some.injEq] at tracked
    subst tracked
    exact absurd below UInt16.not_lt_zero
  have down : Runs KbdCall.step (fun c k => c.FromInterrupt ∧ Spares c k.kbdState) (keyboardWith 0)
      [(.handle 42 0, ())] (keyboardWith 1) :=
    Runs.nil.call ⟨fromInterrupt_shift (Or.inl rfl), Or.inl rfl⟩ shift_press
  have runs := down.call ⟨fromInterrupt_shift (Or.inr rfl), lowest⟩ shift_release
  exact ⟨_, _, runs, rfl, modifiers_independent_iff (fun _ => 0) blankConsole _ _ runs⟩

/-- Shift is held, and `CTL` is pressed and released: shift counts as released. -/
theorem modifiers_confused : ∃ log k,
    Runs KbdCall.step (fun c _ => c.FromInterrupt) (keyboardWith 0) log k ∧
      held kStShift log = true ∧ testMask kStShift k.kbdState = false ∧ ¬Independent log k.kbdState := by
  have press : KbdCall.step (.handle 29 0) (keyboardWith 1) = .done () (keyboardWith 5) :=
    handle_from (by decide) (by decide +kernel) (by decide +kernel) (by decide) _ _
  have release : KbdCall.step (.handle 29 1) (keyboardWith 5) = .done () (keyboardWith 0) :=
    handle_from (by decide) (by decide +kernel) (by decide +kernel) (by decide) _ _
  have ctl : ∀ state : UInt8, state = 0 ∨ state = 1 → KbdCall.FromInterrupt (.handle 29 state) :=
    fun _ bit => ⟨by decide, bit⟩
  have shifted : Runs KbdCall.step (fun c _ => c.FromInterrupt) (keyboardWith 0) [(.handle 42 0, ())]
      (keyboardWith 1) := Runs.nil.call (fromInterrupt_shift (Or.inl rfl)) shift_press
  have runs := (shifted.call (ctl 0 (Or.inl rfl)) press).call (ctl 1 (Or.inr rfl)) release
  have down : held kStShift [(.handle 29 1, ()), (.handle 29 0, ()), (.handle 42 0, ())] = true := by
    decide +kernel
  have up : testMask kStShift (keyboardWith 0).kbdState = false := rfl
  refine ⟨_, _, runs, down, up, fun independent => ?_⟩
  have bit := (independent kStShift (by decide)).trans down
  rw [up] at bit
  cases bit

end Sos.Kernel
