import Mathlib.Logic.Function.Basic
import Sos.Lib.Bytes

/-! A stack that grows downwards in memory of which some bytes can be read: what is pushed word by word is
what is read again from below. -/

namespace Sos.Lib.Stack
open Sos.Lib.Bytes

/-- What is found under each address, if anything. -/
abbrev View := UInt32 → Option UInt8

def wordBytes (a w : UInt32) : List (UInt32 × UInt8) :=
  [(a, byteOf w 0), (a + 1, byteOf w 1), (a + 2, byteOf w 2), (a + 3, byteOf w 3)]

/-- The stores of words pushed one after the other. -/
def pushes (sp : UInt32) : List UInt32 → List (UInt32 × UInt8)
  | [] => []
  | w :: ws => wordBytes (sp - 4) w ++ pushes (sp - 4) ws

def View.after (f : View) : List (UInt32 × UInt8) → View
  | [] => f
  | p :: l => View.after (Function.update f p.1 (some p.2)) l

def View.word (f : View) (a : UInt32) : Option UInt32 := do
  let b₀ ← f a
  let b₁ ← f (a + 1)
  let b₂ ← f (a + 2)
  let b₃ ← f (a + 3)
  return wordOf b₀ b₁ b₂ b₃

/-- So many words, upwards. -/
def View.words (f : View) : ℕ → UInt32 → Option (List UInt32)
  | 0, _ => some []
  | n + 1, a => do
    let w ← f.word a
    let ws ← f.words n (a + 4)
    return w :: ws

/-- `x` lies in the `n` bytes below `sp`. -/
def Beneath (sp : UInt32) (n : ℕ) (x : UInt32) : Prop := sp.toNat - n ≤ x.toNat ∧ x.toNat < sp.toNat

instance (sp : UInt32) (n : ℕ) (x : UInt32) : Decidable (Beneath sp n x) := inferInstanceAs (Decidable (_ ∧ _))

variable {f g : View} {sp a : UInt32} {n : ℕ}

theorem View.after_append (f : View) (l l' : List (UInt32 × UInt8)) : f.after (l ++ l') = (f.after l).after l' := by
  induction l generalizing f with
  | nil => rfl
  | cons p l ih => exact ih _

theorem View.after_other {x : UInt32} {l : List (UInt32 × UInt8)} (other : ∀ p, p ∈ l → p.1 ≠ x) :
    f.after l x = f x := by
  induction l generalizing f with
  | nil => rfl
  | cons p l ih =>
    rw [View.after, ih fun q member => other q (List.mem_cons_of_mem _ member)]
    exact Function.update_of_ne (Ne.symm (other p List.mem_cons_self)) _ _

theorem upward_toNat {k : UInt32} (room : a.toNat + k.toNat < 4294967296) : (a + k).toNat = a.toNat + k.toNat := by
  rw [UInt32.toNat_add]
  exact Nat.mod_eq_of_lt room

theorem pushed_toNat (room : 4 ≤ sp.toNat) : (sp - 4).toNat = sp.toNat - 4 :=
  UInt32.toNat_sub_of_le _ _ (UInt32.le_iff_toNat_le.mpr room)

theorem wordBytes_inside {w : UInt32} {p : UInt32 × UInt8} (room : 4 ≤ sp.toNat) (member : p ∈ wordBytes (sp - 4) w) :
    Beneath sp 4 p.1 := by
  have base := pushed_toNat room
  have bound := sp.toNat_lt
  have one := upward_toNat (a := sp - 4) (k := 1) (show _ + 1 < 4294967296 by omega)
  have two := upward_toNat (a := sp - 4) (k := 2) (show _ + 2 < 4294967296 by omega)
  have three := upward_toNat (a := sp - 4) (k := 3) (show _ + 3 < 4294967296 by omega)
  change _ = _ + 1 at one
  change _ = _ + 2 at two
  change _ = _ + 3 at three
  simp only [wordBytes, List.mem_cons, List.not_mem_nil, or_false] at member
  unfold Beneath
  rcases member with rfl | rfl | rfl | rfl
  all_goals dsimp only; omega

/-- The words go to the bytes right below. -/
theorem pushes_inside {ws : List UInt32} {p : UInt32 × UInt8} (room : 4 * ws.length ≤ sp.toNat)
    (member : p ∈ pushes sp ws) : Beneath sp (4 * ws.length) p.1 := by
  induction ws generalizing sp with
  | nil => exact absurd member List.not_mem_nil
  | cons w ws ih =>
    rw [List.length_cons] at room ⊢
    have base : (sp - 4).toNat = sp.toNat - 4 := pushed_toNat (by omega)
    rcases List.mem_append.mp member with first | later
    · have inside := wordBytes_inside (by omega) first
      unfold Beneath at inside ⊢
      omega
    · have inside := ih (by omega) later
      unfold Beneath at inside ⊢
      omega

theorem View.after_pushes {ws : List UInt32} {x : UInt32} (room : 4 * ws.length ≤ sp.toNat)
    (outside : ¬Beneath sp (4 * ws.length) x) : f.after (pushes sp ws) x = f x := by
  apply View.after_other
  intro p member same
  rw [← same] at outside
  exact outside (pushes_inside room member)

theorem View.word_after (w : UInt32) : (f.after (wordBytes a w)).word a = some w := by
  have apart : ∀ j k : UInt32, j ≠ k → a + j ≠ a + k :=
    fun j k differ same => differ ((UInt32.add_right_inj a).mp same)
  have first : ∀ k : UInt32, 0 ≠ k → a ≠ a + k := fun k differ same =>
    apart 0 k differ (by rw [UInt32.add_zero]; exact same)
  have zero : f.after (wordBytes a w) a = some (byteOf w 0) := by
    simp only [wordBytes, View.after]
    rw [Function.update_of_ne (first 3 (by decide)), Function.update_of_ne (first 2 (by decide)),
      Function.update_of_ne (first 1 (by decide)), Function.update_self]
  have one : f.after (wordBytes a w) (a + 1) = some (byteOf w 1) := by
    simp only [wordBytes, View.after]
    rw [Function.update_of_ne (apart 1 3 (by decide)), Function.update_of_ne (apart 1 2 (by decide)),
      Function.update_self]
  have two : f.after (wordBytes a w) (a + 2) = some (byteOf w 2) := by
    simp only [wordBytes, View.after]
    rw [Function.update_of_ne (apart 2 3 (by decide)), Function.update_self]
  have three : f.after (wordBytes a w) (a + 3) = some (byteOf w 3) := by
    simp only [wordBytes, View.after]
    rw [Function.update_self]
  rw [View.word, zero, one, two, three]
  exact congrArg some (wordOf_byteOf w)

theorem View.word_congr (room : a.toNat + 4 ≤ 4294967296)
    (same : ∀ x : UInt32, a.toNat ≤ x.toNat → x.toNat < a.toNat + 4 → f x = g x) : f.word a = g.word a := by
  have one := upward_toNat (a := a) (k := 1) (show _ + 1 < 4294967296 by omega)
  have two := upward_toNat (a := a) (k := 2) (show _ + 2 < 4294967296 by omega)
  have three := upward_toNat (a := a) (k := 3) (show _ + 3 < 4294967296 by omega)
  change _ = _ + 1 at one
  change _ = _ + 2 at two
  change _ = _ + 3 at three
  rw [View.word, View.word, same a (by omega) (by omega), same (a + 1) (by omega) (by omega),
    same (a + 2) (by omega) (by omega), same (a + 3) (by omega) (by omega)]

theorem View.words_congr (room : a.toNat + 4 * n ≤ 4294967296)
    (same : ∀ x : UInt32, a.toNat ≤ x.toNat → x.toNat < a.toNat + 4 * n → f x = g x) : f.words n a = g.words n a := by
  induction n generalizing a with
  | zero => rfl
  | succ n ih =>
    rw [View.words, View.words, View.word_congr (by omega) fun x lower upper => same x lower (by omega)]
    by_cases last : n = 0
    · rw [last]
      rfl
    · have next := upward_toNat (a := a) (k := 4) (show _ + 4 < 4294967296 by omega)
      change _ = _ + 4 at next
      rw [ih (by omega) fun x lower upper => same x (by omega) (by omega)]

/-- One more word at the top. -/
theorem View.words_succ : f.words (n + 1) a = do
    let ws ← f.words n a
    let w ← f.word (a + 4 * UInt32.ofNat n)
    return ws ++ [w] := by
  induction n generalizing a with
  | zero =>
    have here : a + 4 * UInt32.ofNat 0 = a := UInt32.add_zero a
    rw [here, View.words, View.words]
    cases f.word a with
    | none => rfl
    | some w => rfl
  | succ n ih =>
    have place : a + 4 + 4 * UInt32.ofNat n = a + 4 * UInt32.ofNat (n + 1) := by
      rw [UInt32.ofNat_add, UInt32.mul_add, UInt32.add_assoc, UInt32.add_comm (4 * UInt32.ofNat n)]
      rfl
    rw [View.words, ih, place, View.words]
    cases f.word a with
    | none => rfl
    | some w =>
      cases f.words n (a + 4) with
      | none => rfl
      | some ws =>
        cases f.word (a + 4 * UInt32.ofNat (n + 1)) with
        | none => rfl
        | some v => rfl

/-- What was pushed last is read first. -/
theorem View.words_pushes {ws : List UInt32} (room : 4 * ws.length ≤ sp.toNat) :
    (f.after (pushes sp ws)).words ws.length (sp - 4 * UInt32.ofNat ws.length) = some ws.reverse := by
  induction ws generalizing f sp with
  | nil => rfl
  | cons w ws ih =>
    rw [List.length_cons] at room ⊢
    have base : (sp - 4).toNat = sp.toNat - 4 := pushed_toNat (by omega)
    have place : sp - 4 * UInt32.ofNat (ws.length + 1) = sp - 4 - 4 * UInt32.ofNat ws.length := by
      have one : UInt32.ofNat 1 = 1 := rfl
      rw [UInt32.ofNat_add, one]
      grind
    have top : sp - 4 - 4 * UInt32.ofNat ws.length + 4 * UInt32.ofNat ws.length = sp - 4 := UInt32.sub_add_cancel _ _
    have last : (f.after (pushes sp (w :: ws))).word (sp - 4) = some w := by
      have bound := sp.toNat_lt
      rw [pushes, View.after_append]
      rw [View.word_congr (g := f.after (wordBytes (sp - 4) w)) (by omega)]
      · exact View.word_after w
      · intro x lower upper
        apply View.after_pushes (by omega)
        unfold Beneath
        omega
    rw [place, View.words_succ, top, last, pushes, View.after_append, ih (by omega), List.reverse_cons]
    rfl

end Sos.Lib.Stack
