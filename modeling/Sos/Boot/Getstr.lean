import Mathlib.Data.List.GetD
import Sos.Boot.Search

/-! `getstr`: the line that is typed, with backspaces taken back, comes to stand in the buffer. -/

namespace Sos.Boot
open Sos.Lib.Bytes

/-- `getstr_loop`, with the keys that are still to be pressed: what is left of them and the memory,
or `none` where it waits for the next. -/
def getstrLoop : List UInt8 → UInt16 → UInt16 → UInt16 → Mem → Option (List UInt8 × Mem)
  | [], _, _, _, _ => none
  | al :: keys, di, cx, dx, m =>
    if al = 0x0D then some (keys, m.set di 0)
    else if al = 0x08 then
      if dx = 0 then getstrLoop keys di cx dx m
      else getstrLoop keys (di - 1) (cx + 1) (dx - 1) m
    else
      let m := m.set di al
      let cx := cx - 1
      if cx = 0 then some (keys, m.set (di + 1) 0) else getstrLoop keys (di + 1) cx (dx + 1) m

def getstr (keys : List UInt8) (di cx : UInt16) (m : Mem) : Option (List UInt8 × Mem) :=
  if cx = 0 then some (keys, m.set di 0) else getstrLoop keys di cx 0 m

/-- The line that the keys come to, with what has been typed of it. It ends by itself when it has
`size` characters. -/
def lineOf (size : Nat) : List UInt8 → List UInt8 → Option (List UInt8)
  | [], _ => none
  | key :: keys, line =>
    if key = 0x0D then some line
    else if key = 0x08 then lineOf size keys line.dropLast
    else if line.length + 1 = size then some (line ++ [key])
    else lineOf size keys (line ++ [key])

theorem ofNat_succ (n : Nat) : UInt16.ofNat n + 1 = UInt16.ofNat (n + 1) := (UInt16.ofNat_add n 1).symm

theorem offset_succ (a : UInt16) (i : Nat) : a + UInt16.ofNat i + 1 = a + UInt16.ofNat (i + 1) := by
  rw [UInt16.add_assoc, ofNat_succ]

theorem offset_inj (a : UInt16) {i j : Nat} (first : i < 65536) (second : j < 65536) :
    a + UInt16.ofNat i = a + UInt16.ofNat j ↔ i = j := by
  constructor
  · intro same
    have value := congrArg UInt16.toNat same
    have bound := a.toNat_lt
    simp only [UInt16.toNat_add, UInt16.toNat_ofNat'] at value
    omega
  · rintro rfl
    rfl

theorem Mem.set_offset (m : Mem) (a : UInt16) (b : UInt8) {p k : Nat} (first : p < 65536) (second : k < 65536) :
    (m.set (a + UInt16.ofNat p) b) (a + UInt16.ofNat k) = if k = p then b else m (a + UInt16.ofNat k) := by
  simp only [Mem.set, offset_inj a second first]

/-- The bytes that memory holds from an address on. -/
def Mem.Bytes (m : Mem) (a : UInt16) (s : List UInt8) : Prop :=
  ∀ j, j < s.length → m (a + UInt16.ofNat j) = s.getD j 0

section
variable {m : Mem} {a : UInt16} {s : List UInt8}

theorem Mem.Bytes.set_end (bytes : m.Bytes a s) (room : s.length < 65536) (b : UInt8) :
    (m.set (a + UInt16.ofNat s.length) b).Bytes a (s ++ [b]) := by
  intro j inside
  rw [List.length_append, List.length_singleton] at inside
  rw [Mem.set_offset _ _ _ room (by omega)]
  by_cases last : j = s.length
  · rw [if_pos last, last]
    simp
  · rw [if_neg last, bytes j (by omega), List.getD_append _ _ _ _ (by omega)]

theorem Mem.Bytes.start {t : List UInt8} (bytes : m.Bytes a t) (starts : s <+: t) : m.Bytes a s := by
  obtain ⟨rest, rfl⟩ := starts
  intro j inside
  rw [bytes j (by rw [List.length_append]; omega), List.getD_append _ _ _ _ inside]

end

theorem Mem.Bytes.tail {m : Mem} {a : UInt16} {p : Nat} {x : UInt8} {s : List UInt8}
    (bytes : m.Bytes (a + UInt16.ofNat p) (x :: s)) : m.Bytes (a + UInt16.ofNat (p + 1)) s := by
  intro j inside
  have next := bytes (j + 1) (by simpa using inside)
  rw [List.getD_cons_succ, UInt16.add_assoc, ← UInt16.ofNat_add] at next
  rw [UInt16.add_assoc, ← UInt16.ofNat_add, show p + 1 + j = p + (j + 1) by omega]
  exact next

theorem Mem.Bytes.first {m : Mem} {a : UInt16} {x : UInt8} {s : List UInt8} (bytes : m.Bytes a (x :: s)) :
    m a = x := by
  have head := bytes 0 (by simp)
  rwa [show UInt16.ofNat 0 = 0 from rfl, UInt16.add_zero] at head

theorem Mem.Text.ended {m : Mem} {a : UInt16} {s : List UInt8} (text : m.Text a s) :
    m (a + UInt16.ofNat s.length) = 0 := by
  induction s generalizing a with
  | nil =>
    rw [List.length_nil, show UInt16.ofNat 0 = 0 from rfl, UInt16.add_zero]
    exact text
  | cons x s ih =>
    have rest := ih text.2.2
    rwa [UInt16.add_assoc, UInt16.add_comm 1, show (1 : UInt16) = UInt16.ofNat 1 from rfl,
      ← UInt16.ofNat_add] at rest

theorem Mem.text_at {m : Mem} {a : UInt16} {q : Nat} {s : List UInt8} (text : 0 ∉ s)
    (bytes : ∀ j, j ≤ s.length → m (a + UInt16.ofNat (q + j)) = s.getD j 0) :
    m.Text (a + UInt16.ofNat q) s := by
  apply Mem.text_of_bytes text
  intro j inside
  rw [UInt16.add_assoc, ← UInt16.ofNat_add]
  exact bytes j inside

theorem ofNat_pred (n : Nat) : UInt16.ofNat (n + 1) - 1 = UInt16.ofNat n := by
  rw [UInt16.ofNat_add]
  exact UInt16.add_sub_cancel _ 1

theorem ofNat_eq_zero {n : Nat} (bound : n < 65536) : UInt16.ofNat n = 0 ↔ n = 0 := by
  rw [← UInt16.toNat_inj, UInt16.toNat_ofNat', Nat.mod_eq_of_lt bound]
  rfl

/-- The line and what `getstr` comes to: both wait, or the line is in the buffer with a zero behind. -/
def Reads (di : UInt16) (size : Nat) (m : Mem) : Option (List UInt8) → Option (List UInt8 × Mem) → Prop
  | none, none => True
  | some line, some (_, m') => line.length ≤ size ∧ m'.Bytes di (line ++ [0]) ∧
      ∀ k, size < k → k < 65536 → m' (di + UInt16.ofNat k) = m (di + UInt16.ofNat k)
  | _, _ => False

theorem Reads.of_set {di : UInt16} {size p : Nat} {m : Mem} {b : UInt8} {line : Option (List UInt8)}
    {answer : Option (List UInt8 × Mem)} (inside : p ≤ size) (bound : size < 65536)
    (reads : Reads di size (m.set (di + UInt16.ofNat p) b) line answer) : Reads di size m line answer := by
  cases line with
  | none => cases answer <;> exact reads
  | some line =>
    cases answer with
    | none => exact reads
    | some answer =>
      obtain ⟨short, bytes, behind⟩ := reads
      refine ⟨short, bytes, fun k far room => ?_⟩
      rw [behind k far room, Mem.set_offset _ _ _ (by omega) room, if_neg (by omega)]

theorem Mem.Bytes.reads {di : UInt16} {size : Nat} {m : Mem} {line keys : List UInt8} (bytes : m.Bytes di line)
    (short : line.length ≤ size) (bound : size < 65536) :
    Reads di size m (some line) (some (keys, m.set (di + UInt16.ofNat line.length) 0)) := by
  refine ⟨short, bytes.set_end (by omega) 0, fun k far room => ?_⟩
  rw [Mem.set_offset _ _ _ (by omega) room, if_neg (by omega)]

theorem getstrLoop_reads (size : Nat) (bound : size < 65536) (di : UInt16) (keys : List UInt8)
    {line : List UInt8} {m : Mem} (bytes : m.Bytes di line) (short : line.length < size) :
    Reads di size m (lineOf size keys line) (getstrLoop keys (di + UInt16.ofNat line.length)
      (UInt16.ofNat (size - line.length)) (UInt16.ofNat line.length) m) := by
  induction keys generalizing line m with
  | nil => exact trivial
  | cons key keys ih =>
    rw [lineOf, getstrLoop]
    by_cases carriage : key = 0x0D
    · rw [if_pos carriage, if_pos carriage]
      exact bytes.reads (by omega) bound
    rw [if_neg carriage, if_neg carriage]
    by_cases back : key = 0x08
    · rw [if_pos back, if_pos back]
      rcases List.eq_nil_or_concat line with rfl | ⟨line, last, rfl⟩
      · exact ih bytes short
      · rw [List.concat_eq_append] at bytes short ⊢
        rw [List.length_append, List.length_singleton] at short ⊢
        have room : UInt16.ofNat (size - (line.length + 1)) + 1 = UInt16.ofNat (size - line.length) := by
          rw [ofNat_succ, show size - (line.length + 1) + 1 = size - line.length by omega]
        rw [if_neg (by rw [ofNat_eq_zero (by omega)]; omega), ← offset_succ, UInt16.add_sub_cancel, room,
          ofNat_pred, List.dropLast_concat]
        exact ih (bytes.start (List.prefix_append _ _)) (by omega)
    · have room : UInt16.ofNat (size - line.length) - 1 = UInt16.ofNat (size - (line.length + 1)) := by
        rw [show size - line.length = size - (line.length + 1) + 1 by omega, ofNat_pred]
      have more := bytes.set_end (by omega) key
      have length : (line ++ [key]).length = line.length + 1 := by simp
      rw [if_neg back, if_neg back]
      simp only [room, ofNat_eq_zero (show size - (line.length + 1) < 65536 by omega)]
      apply Reads.of_set (p := line.length) (b := key) (by omega) bound
      by_cases full : line.length + 1 = size
      · rw [if_pos full, if_pos (by omega), offset_succ, ← length]
        exact more.reads (by omega) bound
      · rw [if_neg full, if_neg (by omega), offset_succ, ofNat_succ, ← length]
        exact ih more (by omega)

end Sos.Boot
