import Mathlib.Data.Nat.ModEq
import Sos.Lib.Prog
import Sos.Lib.Ring
import Sos.Lib.Runs
import Sos.Kernel.Alloc

/-! The input queue of the keyboard. -/

namespace Sos.Kernel
open Sos.Lib

/-- `keyqueue_t`; only the first `BCON_KBD_QUEUE_LEN` keys are there. -/
structure KeyQueue where
  head : UInt16
  tail : UInt16
  count : UInt16
  keys : Nat → Int8

namespace KeyQueue

def empty (keys : Nat → Int8) : KeyQueue := ⟨0, 0, 0, keys⟩

/-- `input_queue.keys[input_queue.tail++] = c;` -/
def put (c : Int8) (q : KeyQueue) : KeyQueue :=
  { q with keys := Function.update q.keys q.tail.toNat c, tail := q.tail + 1 }

end KeyQueue

section
variable (len : UInt16)

/-- `keys[i]`, which has to be in the array. -/
def key (i : KeyQueue → UInt16) : Prog KeyQueue Int8 := fun q =>
  if i q < len then .done (q.keys (i q).toNat) q else .fault

def enqueue (c : Int8) : Prog KeyQueue Int := do
  if (← Prog.get KeyQueue.count) = len then return retFailure
  let _ ← key len KeyQueue.tail
  Prog.modify (KeyQueue.put c)
  Prog.modify fun q => { q with tail := q.tail % len }
  Prog.modify fun q => { q with count := q.count + 1 }
  return retSuccess

def dequeue : Prog KeyQueue Int8 := do
  if (← Prog.get KeyQueue.count) = 0 then return 0
  let retval ← key len KeyQueue.head
  Prog.modify fun q => { q with head := q.head + 1 }
  Prog.modify fun q => { q with head := q.head % len }
  Prog.modify fun q => { q with count := q.count - 1 }
  return retval

def bconInputQueueHead : Prog KeyQueue Int := do
  if (← Prog.get KeyQueue.count) = 0 then return retFailure
  let retval ← key len KeyQueue.head
  Prog.modify fun q => { q with head := q.head + 1 }
  Prog.modify fun q => { q with head := q.head % len }
  return retval.toInt

inductive KeyCall where
  | enqueue (c : Int8)
  | dequeue
  | bconInputQueueHead

namespace KeyCall

def step : KeyCall → Prog KeyQueue Int
  | .enqueue c => Kernel.enqueue len c
  | .dequeue => do return (← Kernel.dequeue len).toInt
  | .bconInputQueueHead => Kernel.bconInputQueueHead len

/-- The keys of the handler are ASCII characters other than zero. -/
def Ascii : KeyCall → Prop
  | .enqueue c => 0 < c.toInt
  | _ => True

/-- What `bcon_input_queue_head` is not to meet: characters in the queue. -/
def Spared : KeyCall → KeyQueue → Prop
  | .bconInputQueueHead, q => q.count = 0
  | _, _ => True

/-- The calls and their results, latest first: what went in. -/
def entered : List (KeyCall × Int) → List Int
  | [] => []
  | (.enqueue c, r) :: log => if r = retFailure then entered log else entered log ++ [c.toInt]
  | (.dequeue, _) :: log => entered log
  | (.bconInputQueueHead, _) :: log => entered log

/-- What came out, by either way. -/
def taken : List (KeyCall × Int) → List Int
  | [] => []
  | (.enqueue _, _) :: log => taken log
  | (.dequeue, r) :: log => if r = 0 then taken log else taken log ++ [r]
  | (.bconInputQueueHead, r) :: log => if r = retFailure then taken log else taken log ++ [r]

/-- The calls on a list of at most `n` characters. -/
def serve (n : Nat) : KeyCall → List Int8 → Int × List Int8
  | .enqueue c, l => if l.length = n then (retFailure, l) else (retSuccess, l ++ [c])
  | .dequeue, [] => (0, [])
  | .dequeue, c :: l => (c.toInt, l)
  | .bconInputQueueHead, [] => (retFailure, [])
  | .bconInputQueueHead, c :: l => (c.toInt, l)

def fifo (n : Nat) (c : KeyCall) : Prog (List Int8) Int := fun l =>
  .done (c.serve n l).1 (c.serve n l).2

end KeyCall

/-- The characters from `head` on. -/
def KeyQueue.chars (q : KeyQueue) : List Int8 := ring q.keys len.toNat q.head.toNat q.count.toNat

open KeyCall

/-- After these calls the queue is a list, first in and first out. -/
structure Faithful (log : List (KeyCall × Int)) (q : KeyQueue) : Prop where
  refines : Runs (fifo len.toNat) (fun c _ => c.Ascii) [] log (q.chars len)
  bound : q.count ≤ len
  count : (entered log).length = (taken log).length + q.count.toNat
  wrap : q.head.toNat + q.count.toNat ≡ q.tail.toNat [MOD len.toNat]
  order : entered log = taken log ++ (q.chars len).map Int8.toInt
  dequeues : (∃ t, dequeue len q = .done 0 t) ↔ q.chars len = []
  takesHead : (∃ t, bconInputQueueHead len q = .done retFailure t) ↔ q.chars len = []
  enqueues : ∀ c, (∃ t, enqueue len c q = .done retFailure t) ↔ (q.chars len).length = len.toNat

/-- What every call keeps. -/
structure Queued (log : List (KeyCall × Int)) (q : KeyQueue) : Prop where
  head : q.head < len
  tail : q.tail < len
  bound : q.count ≤ len
  wrap : (q.head.toNat + q.count.toNat) % len.toNat = q.tail.toNat
  ascii : ∀ c, c ∈ q.chars len → 0 < c.toInt
  refines : Runs (fifo len.toNat) (fun c _ => c.Ascii) [] log (q.chars len)
  order : entered log = taken log ++ (q.chars len).map Int8.toInt

end

section
open KeyCall
variable {len : UInt16} {q : KeyQueue} {log : List (KeyCall × Int)}

theorem next_toNat {i : UInt16} (inside : i < len) : ((i + 1) % len).toNat = (i.toNat + 1) % len.toNat := by
  have bound := len.toNat_lt
  have below := UInt16.lt_iff_toNat_lt.mp inside
  have small : i.toNat + 1 < 2 ^ 16 := by omega
  have one : (1 : UInt16).toNat = 1 := rfl
  rw [UInt16.toNat_mod, UInt16.toNat_add, one, Nat.mod_eq_of_lt small]

theorem next_lt {i : UInt16} (inside : i < len) : (i + 1) % len < len := by
  have below := UInt16.lt_iff_toNat_lt.mp inside
  rw [UInt16.lt_iff_toNat_lt, next_toNat inside]
  exact Nat.mod_lt _ (by omega)

theorem enqueue_full (c : Int8) (full : q.count = len) : enqueue len c q = .done retFailure q := by
  rw [enqueue, Prog.get_bind_run, if_pos full]
  rfl

/-- The queue with one more character behind the last one. -/
def KeyQueue.pushed (q : KeyQueue) (len : UInt16) (c : Int8) : KeyQueue where
  head := q.head
  tail := (q.tail + 1) % len
  count := q.count + 1
  keys := Function.update q.keys q.tail.toNat c

theorem enqueue_room (c : Int8) (room : q.count ≠ len) (inside : q.tail < len) :
    enqueue len c q = .done retSuccess (q.pushed len c) := by
  have read : key len KeyQueue.tail q = .done (q.keys q.tail.toNat) q := if_pos inside
  rw [enqueue, Prog.get_bind_run, if_neg room, Prog.bind_done _ read]
  rfl

theorem dequeue_empty (none : q.count = 0) : dequeue len q = .done 0 q := by
  rw [dequeue, Prog.get_bind_run, if_pos none]
  rfl

theorem dequeue_some (some : q.count ≠ 0) (inside : q.head < len) : dequeue len q =
    .done (q.keys q.head.toNat) { q with head := (q.head + 1) % len, count := q.count - 1 } := by
  have read : key len KeyQueue.head q = .done (q.keys q.head.toNat) q := if_pos inside
  rw [dequeue, Prog.get_bind_run, if_neg some, Prog.bind_done _ read]
  rfl

theorem queueHead_empty (none : q.count = 0) : bconInputQueueHead len q = .done retFailure q := by
  rw [bconInputQueueHead, Prog.get_bind_run, if_pos none]
  rfl

/-- The count stays. -/
theorem queueHead_some (some : q.count ≠ 0) (inside : q.head < len) : bconInputQueueHead len q =
    .done (q.keys q.head.toNat).toInt { q with head := (q.head + 1) % len } := by
  have read : key len KeyQueue.head q = .done (q.keys q.head.toNat) q := if_pos inside
  rw [bconInputQueueHead, Prog.get_bind_run, if_neg some, Prog.bind_done _ read]
  rfl

namespace Queued
variable (queued : Queued len log q)
include queued

theorem room (short : q.count ≠ len) : q.count.toNat < len.toNat := by
  have bound := UInt16.le_iff_toNat_le.mp queued.bound
  have differ : q.count.toNat ≠ len.toNat := fun same => short (UInt16.toNat_inj.mp same)
  omega

theorem count_succ (short : q.count ≠ len) : (q.count + 1).toNat = q.count.toNat + 1 := by
  have bound := len.toNat_lt
  have below := queued.room short
  have one : (1 : UInt16).toNat = 1 := rfl
  rw [UInt16.toNat_add, one, Nat.mod_eq_of_lt (by omega)]

theorem chars_pushed (short : q.count ≠ len) (c : Int8) :
    (q.pushed len c).chars len = q.chars len ++ [c] := by
  unfold KeyQueue.chars KeyQueue.pushed
  rw [queued.count_succ short, ← queued.wrap, ring_push (queued.room short)]

omit queued in
theorem positive (some : q.count ≠ 0) : ∃ n, q.count.toNat = n + 1 ∧ (q.count - 1).toNat = n := by
  have positive : q.count.toNat ≠ 0 := fun zero => some (UInt16.toNat_inj.mp zero)
  have one : (1 : UInt16).toNat = 1 := rfl
  refine ⟨q.count.toNat - 1, by omega, ?_⟩
  rw [UInt16.toNat_sub_of_le _ _ (UInt16.le_iff_toNat_le.mpr (by omega)), one]

theorem chars_popped (some : q.count ≠ 0) : q.chars len = q.keys q.head.toNat ::
    KeyQueue.chars len { q with head := (q.head + 1) % len, count := q.count - 1 } := by
  obtain ⟨n, count, rest⟩ := positive some
  have below := UInt16.lt_iff_toNat_lt.mp queued.head
  unfold KeyQueue.chars
  rw [count, rest, next_toNat queued.head, ring_pop, Nat.mod_eq_of_lt below]

theorem first_positive (some : q.count ≠ 0) : 0 < (q.keys q.head.toNat).toInt := by
  apply queued.ascii
  rw [queued.chars_popped some]
  exact List.mem_cons_self

omit queued in
theorem chars_empty : q.chars len = [] ↔ q.count = 0 := by
  rw [KeyQueue.chars, ring_eq_nil]
  exact UInt16.toNat_inj (b := 0)

omit queued in
theorem chars_full : (q.chars len).length = len.toNat ↔ q.count = len := by
  rw [KeyQueue.chars, length_ring]
  exact UInt16.toNat_inj

theorem enqueue {c : Int8} (ascii : 0 < c.toInt) : ∃ r t,
    KeyCall.step len (.enqueue c) q = .done r t ∧ Queued len ((.enqueue c, r) :: log) t := by
  by_cases full : q.count = len
  · refine ⟨retFailure, q, enqueue_full c full, { queued with refines := ?_, order := ?_ }⟩
    · refine queued.refines.call ascii ?_
      rw [fifo, serve, if_pos (chars_full.mpr full)]
    · rw [entered, if_pos rfl, taken]
      exact queued.order
  · have chars := queued.chars_pushed full c
    refine ⟨retSuccess, q.pushed len c, enqueue_room c full queued.tail, ?_⟩
    refine { head := queued.head, tail := next_lt queued.tail, bound := ?_, wrap := ?_,
             ascii := ?_, refines := ?_, order := ?_ }
    · have short := queued.room full
      have count : (q.pushed len c).count.toNat = q.count.toNat + 1 := queued.count_succ full
      rw [UInt16.le_iff_toNat_le]
      omega
    · have count : (q.pushed len c).count.toNat = q.count.toNat + 1 := queued.count_succ full
      have tail : (q.pushed len c).tail.toNat = (q.tail.toNat + 1) % len.toNat :=
        next_toNat queued.tail
      rw [count, tail, ← queued.wrap, Nat.mod_add_mod]
      rfl
    · intro x member
      rw [chars] at member
      rcases List.mem_append.mp member with old | new
      · exact queued.ascii x old
      · rw [List.mem_singleton.mp new]
        exact ascii
    · refine queued.refines.call ascii ?_
      rw [fifo, serve, if_neg (fun same => full (chars_full.mp same)), chars]
    · have success : retSuccess ≠ retFailure := by decide
      rw [entered, if_neg success, taken, chars, queued.order, List.map_append, List.append_assoc]
      rfl

theorem dequeue : ∃ r t,
    KeyCall.step len .dequeue q = .done r t ∧ Queued len ((.dequeue, r) :: log) t := by
  by_cases none : q.count = 0
  · have run : KeyCall.step len .dequeue q = .done 0 q := Prog.bind_done _ (dequeue_empty none)
    refine ⟨0, q, run, { queued with refines := ?_, order := ?_ }⟩
    · refine queued.refines.call trivial ?_
      rw [chars_empty.mpr none]
      rfl
    · rw [entered, taken, if_pos rfl]
      exact queued.order
  · have first := queued.first_positive none
    have chars := queued.chars_popped none
    have below := UInt16.lt_iff_toNat_lt.mp queued.head
    obtain ⟨n, count, rest⟩ := positive none
    refine ⟨(q.keys q.head.toNat).toInt,
      { q with head := (q.head + 1) % len, count := q.count - 1 },
      Prog.bind_done _ (dequeue_some none queued.head), ?_⟩
    refine { head := next_lt queued.head, tail := queued.tail, bound := ?_, wrap := ?_,
             ascii := ?_, refines := ?_, order := ?_ }
    · have bound := UInt16.le_iff_toNat_le.mp queued.bound
      change q.count - 1 ≤ len
      rw [UInt16.le_iff_toNat_le]
      omega
    · have wrap := queued.wrap
      rw [rest, next_toNat queued.head, Nat.mod_add_mod, ← wrap, count]
      congr 1
      omega
    · intro x member
      apply queued.ascii
      rw [chars]
      exact List.mem_cons_of_mem _ member
    · refine queued.refines.call trivial ?_
      rw [chars]
      rfl
    · have order := queued.order
      rw [chars, List.map_cons] at order
      rw [entered, taken, if_neg (by omega), order, List.append_assoc]
      rfl

theorem queueHead (none : q.count = 0) : ∃ r t, KeyCall.step len .bconInputQueueHead q = .done r t ∧
    Queued len ((.bconInputQueueHead, r) :: log) t := by
  refine ⟨retFailure, q, queueHead_empty none, { queued with refines := ?_, order := ?_ }⟩
  · refine queued.refines.call trivial ?_
    rw [chars_empty.mpr none]
    rfl
  · rw [entered, taken, if_pos rfl]
    exact queued.order

/-- A call keeps all of this, unless it is `bcon_input_queue_head` that finds a character. -/
theorem step {c : KeyCall} (ascii : c.Ascii) (spared : c.Spared q) : ∃ r t,
    c.step len q = .done r t ∧ Queued len ((c, r) :: log) t := by
  cases c with
  | enqueue c => exact queued.enqueue ascii
  | dequeue => exact queued.dequeue
  | bconInputQueueHead => exact queued.queueHead spared

theorem faithful : Faithful len log q where
  refines := queued.refines
  bound := queued.bound
  count := by
    rw [queued.order, List.length_append, List.length_map, KeyQueue.chars, length_ring]
  wrap := by
    have below := UInt16.lt_iff_toNat_lt.mp queued.tail
    rw [Nat.ModEq, queued.wrap, Nat.mod_eq_of_lt below]
  order := queued.order
  dequeues := by
    rw [chars_empty]
    constructor
    · rintro ⟨t, run⟩
      by_contra some
      rw [dequeue_some some queued.head, Outcome.done.injEq] at run
      have first := queued.first_positive some
      rw [run.1] at first
      exact absurd first (by decide)
    · exact fun none => ⟨q, dequeue_empty none⟩
  takesHead := by
    rw [chars_empty]
    constructor
    · rintro ⟨t, run⟩
      by_contra some
      rw [queueHead_some some queued.head, Outcome.done.injEq] at run
      have first := queued.first_positive some
      rw [run.1] at first
      exact absurd first (by decide)
    · exact fun none => ⟨q, queueHead_empty none⟩
  enqueues := by
    intro c
    rw [chars_full]
    constructor
    · rintro ⟨t, run⟩
      by_contra room
      rw [enqueue_room c room queued.tail, Outcome.done.injEq] at run
      exact absurd run.1 (by decide)
    · exact fun full => ⟨q, enqueue_full c full⟩

/-- A character that is taken without being counted off. -/
theorem unspared (some : q.count ≠ 0) : ∃ r t, KeyCall.step len .bconInputQueueHead q = .done r t ∧
    ¬Faithful len ((.bconInputQueueHead, r) :: log) t := by
  have first := queued.first_positive some
  have count := queued.faithful.count
  refine ⟨_, _, queueHead_some some queued.head, fun faithful => ?_⟩
  have after := faithful.count
  have differ : (q.keys q.head.toNat).toInt ≠ retFailure := by
    unfold retFailure
    omega
  rw [entered, taken, if_neg differ, List.length_append, List.length_singleton] at after
  change (entered log).length = (taken log).length + 1 + q.count.toNat at after
  omega

end Queued

theorem queued_empty (positive : 0 < len) (keys : Nat → Int8) : Queued len [] (.empty keys) where
  head := positive
  tail := positive
  bound := UInt16.zero_le
  wrap := Nat.zero_mod _
  ascii := by
    intro c member
    cases member
  refines := Runs.nil
  order := rfl

theorem queued_run (positive : 0 < len) {keys : Nat → Int8}
    (runs : Runs (KeyCall.step len) (fun c q => c.Ascii ∧ c.Spared q) (.empty keys) log q) :
    Queued len log q := by
  refine runs.invariant (Queued len) (queued_empty positive keys) ?_
  intro log q c r t queued allowed run
  obtain ⟨r', t', run', next⟩ := queued.step allowed.1 allowed.2
  rw [run', Outcome.done.injEq] at run
  obtain ⟨rfl, rfl⟩ := run
  exact next

end

/-- As long as `bcon_input_queue_head` meets an empty queue only, the queue is first in and
first out; and the first time it takes a character, the queue is not any more. -/
theorem keyQueue_fifo {len : UInt16} (positive : 0 < len) (keys : Nat → Int8) :
    ∀ log q, Runs (KeyCall.step len) (fun c q => c.Ascii ∧ c.Spared q) (.empty keys) log q →
      Faithful len log q ∧ ∀ c : KeyCall, c.Ascii → ∃ r t, c.step len q = .done r t ∧
        (Faithful len ((c, r) :: log) t ↔ c.Spared q) := by
  intro log q runs
  have queued := queued_run positive runs
  refine ⟨queued.faithful, fun c ascii => ?_⟩
  by_cases spared : c.Spared q
  · obtain ⟨r, t, run, next⟩ := queued.step ascii spared
    exact ⟨r, t, run, fun _ => spared, fun _ => next.faithful⟩
  · cases c with
    | enqueue c => exact absurd trivial spared
    | dequeue => exact absurd trivial spared
    | bconInputQueueHead =>
      obtain ⟨r, t, run, broken⟩ := queued.unspared spared
      exact ⟨r, t, run, fun faithful => absurd faithful broken, fun holds => absurd holds spared⟩

/-- `BCON_KBD_QUEUE_LEN`. -/
def bconKbdQueueLen : UInt16 := 100

theorem keyQueue_fifo_configured : ∃ log q,
    Runs (KeyCall.step bconKbdQueueLen) (fun c q => c.Ascii ∧ c.Spared q) (.empty fun _ => 0) log q ∧
      log.length = 2 ∧ Faithful bconKbdQueueLen log q ∧ ∀ c : KeyCall, c.Ascii → ∃ r t,
        c.step bconKbdQueueLen q = .done r t ∧
          (Faithful bconKbdQueueLen ((c, r) :: log) t ↔ c.Spared q) := by
  have ascii : 0 < (97 : Int8).toInt := by decide
  have runs : Runs (KeyCall.step bconKbdQueueLen) (fun c q => c.Ascii ∧ c.Spared q) (.empty fun _ => 0)
      [] (.empty fun _ => 0) := Runs.nil
  have runs := runs.call (i := KeyCall.enqueue 97) ⟨ascii, trivial⟩ rfl
  have runs := runs.call (i := KeyCall.dequeue) ⟨trivial, trivial⟩ rfl
  exact ⟨_, _, runs, rfl, keyQueue_fifo (by decide) (fun _ => 0) _ _ runs⟩

/-- A key is put in and taken out, and still counted. -/
theorem keyQueue_miscounted : ¬∀ log q,
    Runs (KeyCall.step bconKbdQueueLen) (fun c _ => c.Ascii) (.empty fun _ => 0) log q →
      Faithful bconKbdQueueLen log q := by
  intro claimed
  have ascii : 0 < (97 : Int8).toInt := by decide
  have typed : Runs (KeyCall.step bconKbdQueueLen) (fun c _ => c.Ascii) (.empty fun _ => 0)
      [(.enqueue 97, retSuccess)] (KeyQueue.pushed (.empty fun _ => 0) bconKbdQueueLen 97) :=
    Runs.nil.call ascii rfl
  have read : Runs (KeyCall.step bconKbdQueueLen) (fun c _ => c.Ascii) (.empty fun _ => 0)
      [(.bconInputQueueHead, 97), (.enqueue 97, retSuccess)]
      { KeyQueue.pushed (.empty fun _ => 0) bconKbdQueueLen 97 with head := 1 } :=
    typed.call trivial rfl
  have count := (claimed _ _ read).count
  exact absurd count (by decide)

end Sos.Kernel
