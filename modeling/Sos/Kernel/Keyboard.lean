import Sos.Kernel.Bcon
import Sos.Kernel.KeyQueue

/-! The keyboard of the console: the keymap, the keys whose state is kept, and what a key does. -/

namespace Sos.Kernel
open Sos.Lib

/-- `NA_KEY`. -/
def naKey (x : UInt16) : UInt16 := 128 + x

def kLShift : UInt16 := naKey 0
def kLMeta : UInt16 := naKey 1
def kCtl : UInt16 := naKey 2
def kCaps : UInt16 := naKey 4
def kRShift : UInt16 := naKey 10
def kRMeta : UInt16 := naKey 11
def kNum : UInt16 := naKey 12
def kScroll : UInt16 := naKey 13
def kDel : UInt16 := naKey 14

def ascii (cs : List Char) : List UInt16 := cs.map fun c => UInt16.ofNat c.toNat

/-- The first 128 entries are for the keys alone, the others for the keys with shift. -/
def usKeymap : List UInt16 :=
  [0, 27] ++ ascii ['1', '2', '3', '4', '5', '6', '7', '8', '9', '0', '-', '='] ++ [8, 9] ++
  ascii ['q', 'w', 'e', 'r', 't', 'y', 'u', 'i', 'o', 'p', '[', ']'] ++ [13, kCtl] ++
  ascii ['a', 's', 'd', 'f', 'g', 'h', 'j', 'k', 'l', ';'] ++ [39, 96, kLShift, 92] ++
  ascii ['z', 'x', 'c', 'v', 'b', 'n', 'm', ',', '.', '/'] ++ [kRShift] ++ ascii ['*'] ++ [kLMeta] ++
  ascii [' '] ++ [kCaps] ++ List.replicate 24 0 ++ [kDel, 0, kNum, kScroll] ++ List.replicate 41 0 ++
  [0, 27] ++ ascii ['!', '@', '#', '$', '%', '^', '&', '*', '(', ')', '_', '+'] ++ [8, 9] ++
  ascii ['Q', 'W', 'E', 'R', 'T', 'Y', 'U', 'I', 'O', 'P', '{', '}'] ++ [13, kCtl] ++
  ascii ['A', 'S', 'D', 'F', 'G', 'H', 'J', 'K', 'L', ':'] ++ [34, 126, kLShift, 124] ++
  ascii ['Z', 'X', 'C', 'V', 'B', 'N', 'M', '<', '>', '?'] ++ [kRShift] ++ ascii ['*'] ++ [kLMeta] ++
  ascii [' '] ++ [kCaps] ++ List.replicate 24 0 ++ [kDel, 0, kNum, kScroll] ++ List.replicate 41 0

theorem length_usKeymap : usKeymap.length = 256 := by decide +kernel

/-! The masks are macros `1<<n` without parentheses; here each one is its `n`. -/

def kStShift : UInt16 := 0
def kStMeta : UInt16 := 1
def kStCtl : UInt16 := 2
def kStCaps : UInt16 := 4
def kStDel : UInt16 := 12
def echoState : UInt16 := 15

/-- `kbd_state&1<<n`. -/
def testMask (n kbdState : UInt16) : Bool := kbdState &&& 1 <<< n ≠ 0

/-- `kbd_state |= 1<<n`. -/
def setMask (n kbdState : UInt16) : UInt16 := kbdState ||| 1 <<< n

/-- `kbd_state &= ~1<<n`: what is shifted is the complement. -/
def clearMask (n kbdState : UInt16) : UInt16 := kbdState &&& (~~~1) <<< n

structure Keyboard where
  inputQueue : KeyQueue
  kbdState : UInt16
  console : Console

/-- `key = keymaps[keymap][scancode]`, in the half of the keymap that the state selects. -/
def keyIndex (kbdState scancode : UInt16) : Nat :=
  if testMask kStShift kbdState ∨ testMask kStCaps kbdState then scancode.toNat + 128 else scancode.toNat

def keymapEntry (i : Nat) : Prog Keyboard UInt16 := fun k =>
  match usKeymap[i]? with
  | some key => .done key k
  | none => .fault

def onQueue {α : Type} (x : Prog KeyQueue α) : Prog Keyboard α :=
  Prog.zoom Keyboard.inputQueue (fun k q => { k with inputQueue := q }) x

def onConsole {α : Type} (x : Prog Console α) : Prog Keyboard α :=
  Prog.zoom Keyboard.console (fun k s => { k with console := s }) x

/-- `"\nQueueFull\n"`. -/
def queueFull : List Int32 := [10, 81, 117, 101, 117, 101, 70, 117, 108, 108, 10]

/-- `enqueue` with its message. -/
def enqueueKey (c : Int8) : Prog Keyboard Int := do
  let r ← onQueue (enqueue bconKbdQueueLen c)
  if r = retFailure then
    onConsole (putAll queueFull)
    return r
  else return r

/-- Key echo on? -/
def echoKey (key : UInt16) : Prog Keyboard Unit := do
  if testMask echoState (← Prog.get Keyboard.kbdState) then
    onConsole (bconPutchar key.toUInt32.toInt32)

/-- The press of an ASCII key. -/
def asciiKey (key : UInt16) : Prog Keyboard Unit := do
  -- carriage return is mapped to newline
  let key := if key = 13 then 10 else key
  if key = 8 then
    if (← onQueue (dequeue bconKbdQueueLen)) = 0 then return ()
    else echoKey key
  else
    if (← enqueueKey key.toUInt8.toInt8) = -1 then return ()
    else echoKey key

/-- A key whose state is kept in a bit. -/
def trackKey (n : UInt16) (state : UInt8) (kbdState : UInt16) : UInt16 :=
  if state = 0 then setMask n kbdState else clearMask n kbdState

/-- The `switch` for the other keys. -/
def otherKey (key : UInt16) (state : UInt8) (kbdState : UInt16) : UInt16 :=
  if key = kCtl then trackKey kStCtl state kbdState
  else if key = kLMeta ∨ key = kRMeta then trackKey kStMeta state kbdState
  else if key = kDel then trackKey kStDel state kbdState
  else if key = kLShift ∨ key = kRShift then trackKey kStShift state kbdState
  else if key = kCaps then
    if state = 0 then kbdState ^^^ 1 <<< kStCaps else kbdState
  else kbdState

/-- `arch_kbd_reboot` raises the reset line and does not come back. -/
def archKbdReboot : Prog Keyboard Unit := Prog.exit

def bconKbdHandle (scancode : UInt16) (state : UInt8) : Prog Keyboard Unit := do
  let key ← keymapEntry (keyIndex (← Prog.get Keyboard.kbdState) scancode)
  if key < 128 ∧ key ≠ 0 then
    if state = 1 then return ()
    else asciiKey key
  else
    Prog.modify fun k => { k with kbdState := otherKey key state k.kbdState }
    let kbdState ← Prog.get Keyboard.kbdState
    if state = 0 ∧ testMask kStCtl kbdState ∧ testMask kStMeta kbdState ∧ testMask kStDel kbdState then
      archKbdReboot
    else return ()

def bconKbdEchoOn : Prog Keyboard Unit :=
  Prog.modify fun k => { k with kbdState := setMask echoState k.kbdState }

def bconKbdEchoOff : Prog Keyboard Unit :=
  Prog.modify fun k => { k with kbdState := clearMask echoState k.kbdState }

/-- `key&(~0x80)` and the bit that is left out: what `kbd_interrupt` calls the handler with. -/
def kbdInterrupt (key : UInt8) : Prog Keyboard Unit :=
  bconKbdHandle (key &&& ~~~0x80).toUInt16 (if key &&& 0x80 = 0 then 0 else 1)

section
variable {n m : UInt16} (hn : n.toNat < 16) (hm : m.toNat < 16) (x : UInt16)
include hn

theorem one_shiftLeft_toNat : (1 <<< n : UInt16).toNat = 2 ^ n.toNat := by
  have one : (1 : UInt16).toNat = 1 := rfl
  have sixteen : (16 : UInt16).toNat = 16 := rfl
  have power : 2 ^ n.toNat < 2 ^ 16 := Nat.pow_lt_pow_right (by decide) hn
  rw [UInt16.toNat_shiftLeft, one, Nat.mod_eq_of_lt hn, Nat.one_shiftLeft, Nat.mod_eq_of_lt power]

theorem testMask_eq : testMask n x = x.toNat.testBit n.toNat := by
  have bits : (x &&& 1 <<< n).toNat = x.toNat &&& 2 ^ n.toNat := by
    rw [UInt16.toNat_and, one_shiftLeft_toNat hn]
  rw [testMask, Bool.eq_iff_iff, decide_eq_true_iff]
  constructor
  · intro nonzero
    by_contra clear
    refine nonzero (UInt16.toNat_inj.mp (bits.trans (Nat.eq_of_testBit_eq fun i => ?_)))
    rw [Nat.testBit_and, Nat.testBit_two_pow, UInt16.toNat_zero, Nat.zero_testBit]
    by_cases same : n.toNat = i
    · subst same
      simpa using clear
    · simp [same]
  · intro set zero
    have none : (x.toNat &&& 2 ^ n.toNat).testBit n.toNat = false := by
      rw [← bits, zero]
      exact Nat.zero_testBit _
    rw [Nat.testBit_and, set, Nat.testBit_two_pow_self] at none
    cases none

include hm

theorem testMask_setMask : testMask n (setMask m x) = (decide (n = m) || testMask n x) := by
  have same : (m.toNat = n.toNat) = (n = m) := by
    simp only [UInt16.toNat_inj, eq_comm]
  rw [testMask_eq hn, testMask_eq hn, setMask, UInt16.toNat_or, one_shiftLeft_toNat hm, Nat.testBit_or,
    Nat.testBit_two_pow, Bool.or_comm]
  simp only [same]

theorem testMask_flip : testMask n (x ^^^ 1 <<< m) = (decide (n = m) ^^ testMask n x) := by
  have same : (m.toNat = n.toNat) = (n = m) := by
    simp only [UInt16.toNat_inj, eq_comm]
  rw [testMask_eq hn, testMask_eq hn, UInt16.toNat_xor, one_shiftLeft_toNat hm, Nat.testBit_xor,
    Nat.testBit_two_pow, Bool.xor_comm]
  simp only [same]

/-- What is cleared is the bit and every one below. -/
theorem testMask_clearMask : testMask n (clearMask m x) = (decide (m < n) && testMask n x) := by
  have ones : (~~~1 : UInt16).toNat = 2 * (2 ^ 15 - 1) := rfl
  have above : ((~~~1 : UInt16) <<< m).toNat.testBit n.toNat = decide (m < n) := by
    rw [UInt16.toNat_shiftLeft, ones, Nat.mod_eq_of_lt hm, Nat.testBit_mod_two_pow, Nat.testBit_shiftLeft]
    by_cases less : m.toNat < n.toNat
    · obtain ⟨d, sum⟩ : ∃ d, n.toNat - m.toNat = d + 1 := ⟨n.toNat - m.toNat - 1, by omega⟩
      have inside : n.toNat < 16 ∧ n.toNat ≥ m.toNat ∧ d < 15 := by omega
      rw [sum, Nat.testBit_succ, Nat.mul_div_cancel_left _ (by decide), Nat.testBit_two_pow_sub_one]
      simp [UInt16.lt_iff_toNat_lt, less, inside]
    · by_cases same : n.toNat = m.toNat
      · simp [UInt16.lt_iff_toNat_lt, same]
      · have below : ¬n.toNat ≥ m.toNat := by omega
        simp [UInt16.lt_iff_toNat_lt, less, below]
  rw [testMask_eq hn, testMask_eq hn, clearMask, UInt16.toNat_and, Nat.testBit_and, above, Bool.and_comm]
end

/-- The key that the handler finds. -/
def keyOf (kbdState scancode : UInt16) : UInt16 := usKeymap.getD (keyIndex kbdState scancode) 0

abbrev IsAscii (key : UInt16) : Prop := key < 128 ∧ key ≠ 0

theorem keyIndex_lt {kbdState scancode : UInt16} (small : scancode.toNat < 128) :
    keyIndex kbdState scancode < usKeymap.length := by
  rw [length_usKeymap, keyIndex]
  split
  · omega
  · omega

theorem keymapEntry_done {scancode : UInt16} (small : scancode.toNat < 128) (k : Keyboard) :
    keymapEntry (keyIndex k.kbdState scancode) k = .done (keyOf k.kbdState scancode) k := by
  have inside := @keyIndex_lt k.kbdState scancode small
  rw [keymapEntry, keyOf, List.getElem?_eq_getElem inside, List.getD, List.getElem?_eq_getElem inside]
  rfl

section
variable {scancode : UInt16} (small : scancode.toNat < 128) (k : Keyboard)
include small

theorem bconKbdHandle_release (ascii : IsAscii (keyOf k.kbdState scancode)) :
    bconKbdHandle scancode 1 k = .done () k := by
  rw [bconKbdHandle, Prog.get_bind_run, Prog.bind_done _ (keymapEntry_done small k),
    if_pos ascii, if_pos rfl]
  rfl

theorem bconKbdHandle_press (ascii : IsAscii (keyOf k.kbdState scancode)) {state : UInt8} (press : state ≠ 1) :
    bconKbdHandle scancode state k = asciiKey (keyOf k.kbdState scancode) k := by
  rw [bconKbdHandle, Prog.get_bind_run, Prog.bind_done _ (keymapEntry_done small k),
    if_pos ascii, if_neg press]

/-- A reboot is asked for with the state as it is after the key. -/
theorem bconKbdHandle_other (other : ¬IsAscii (keyOf k.kbdState scancode)) {state : UInt8} {x : UInt16}
    (next : otherKey (keyOf k.kbdState scancode) state k.kbdState = x) : bconKbdHandle scancode state k =
      if state = 0 ∧ testMask kStCtl x ∧ testMask kStMeta x ∧ testMask kStDel x then
        .exit { k with kbdState := x }
      else .done () { k with kbdState := x } := by
  subst next
  rw [bconKbdHandle, Prog.get_bind_run, Prog.bind_done _ (keymapEntry_done small k),
    if_neg other, Prog.modify_bind_run, Prog.get_bind_run]
  split
  · rfl
  · rfl

end

section
variable (k : Keyboard)

theorem echoKey_done (key : UInt16) : ∃ s, echoKey key k = .done () { k with console := s } ∧
    (testMask echoState k.kbdState = true → bconPutchar key.toUInt32.toInt32 k.console = .done () s) := by
  rw [echoKey, Prog.get_bind_run]
  by_cases echo : testMask echoState k.kbdState = true
  · obtain ⟨_, s, run⟩ := bconPutchar_returns key.toUInt32.toInt32 k.console
    rw [if_pos echo]
    exact ⟨s, Prog.zoom_done run, fun _ => run⟩
  · rw [if_neg echo]
    exact ⟨k.console, rfl, fun on => absurd on echo⟩

theorem backspace_empty (none : k.inputQueue.count = 0) : asciiKey 8 k = .done () k := by
  have taken : onQueue (dequeue bconKbdQueueLen) k = .done 0 k := Prog.zoom_done (dequeue_empty none)
  change (onQueue (dequeue bconKbdQueueLen) >>= _) k = _
  rw [Prog.bind_done _ taken]
  rfl

/-- The queue without its head. -/
def KeyQueue.popped (q : KeyQueue) (len : UInt16) : KeyQueue :=
  { q with head := (q.head + 1) % len, count := q.count - 1 }

theorem backspace_some (some : k.inputQueue.count ≠ 0) (inside : k.inputQueue.head < bconKbdQueueLen) : ∃ s,
    asciiKey 8 k = .done () { k with inputQueue := k.inputQueue.popped bconKbdQueueLen, console := s } ∧
      (k.inputQueue.keys k.inputQueue.head.toNat ≠ 0 → testMask echoState k.kbdState = true →
        bconPutchar 8 k.console = .done () s) := by
  have taken : onQueue (dequeue bconKbdQueueLen) k = .done (k.inputQueue.keys k.inputQueue.head.toNat)
      { k with inputQueue := k.inputQueue.popped bconKbdQueueLen } := Prog.zoom_done (dequeue_some some inside)
  change ∃ s, (onQueue (dequeue bconKbdQueueLen) >>= _) k = _ ∧ _
  rw [Prog.bind_done _ taken]
  by_cases zero : k.inputQueue.keys k.inputQueue.head.toNat = 0
  · rw [if_pos zero]
    exact ⟨k.console, rfl, fun nonzero => absurd zero nonzero⟩
  · rw [if_neg zero]
    obtain ⟨s, run, echoed⟩ :=
      echoKey_done { k with inputQueue := k.inputQueue.popped bconKbdQueueLen } 8
    exact ⟨s, run, fun _ => echoed⟩

/-- The character of an ASCII key. -/
def keyChar (key : UInt16) : UInt16 := if key = 13 then 10 else key

theorem asciiKey_type {key : UInt16} (char : keyChar key ≠ 8) : asciiKey key k = (do
    if (← enqueueKey (keyChar key).toUInt8.toInt8) = -1 then return ()
    else echoKey (keyChar key) : Prog Keyboard Unit) k := by
  change (if keyChar key = 8 then _ else _ : Prog Keyboard Unit) k = _
  rw [if_neg char]
  rfl

theorem type_full {key : UInt16} (char : keyChar key ≠ 8) (full : k.inputQueue.count = bconKbdQueueLen) :
    ∃ s, asciiKey key k = .done () { k with console := s } := by
  obtain ⟨_, s, run⟩ := putAll_returns queueFull k.console
  have refused : onQueue (enqueue bconKbdQueueLen (keyChar key).toUInt8.toInt8) k = .done retFailure k :=
    Prog.zoom_done (enqueue_full _ full)
  have message : onConsole (putAll queueFull) k = .done () { k with console := s } := Prog.zoom_done run
  have called : enqueueKey (keyChar key).toUInt8.toInt8 k = .done retFailure { k with console := s } := by
    rw [enqueueKey, Prog.bind_done _ refused, if_pos rfl, Prog.bind_done _ message]
    rfl
  refine ⟨s, ?_⟩
  rw [asciiKey_type k char, Prog.bind_done _ called]
  rfl

theorem type_room {key : UInt16} (char : keyChar key ≠ 8) (room : k.inputQueue.count ≠ bconKbdQueueLen)
    (inside : k.inputQueue.tail < bconKbdQueueLen) : ∃ s, asciiKey key k = .done ()
      { k with inputQueue := k.inputQueue.pushed bconKbdQueueLen (keyChar key).toUInt8.toInt8, console := s } ∧
      (testMask echoState k.kbdState = true →
        bconPutchar (keyChar key).toUInt32.toInt32 k.console = .done () s) := by
  have taken : onQueue (enqueue bconKbdQueueLen (keyChar key).toUInt8.toInt8) k = .done retSuccess
      { k with inputQueue := k.inputQueue.pushed bconKbdQueueLen (keyChar key).toUInt8.toInt8 } :=
    Prog.zoom_done (enqueue_room _ room inside)
  have called : enqueueKey (keyChar key).toUInt8.toInt8 k = .done retSuccess
      { k with inputQueue := k.inputQueue.pushed bconKbdQueueLen (keyChar key).toUInt8.toInt8 } := by
    rw [enqueueKey, Prog.bind_done _ taken, if_neg (by decide)]
    rfl
  rw [asciiKey_type k char, Prog.bind_done _ called, if_neg (by decide)]
  exact echoKey_done { k with inputQueue := k.inputQueue.pushed bconKbdQueueLen (keyChar key).toUInt8.toInt8 } _

end

end Sos.Kernel
