import Sos.Lib.Page

/-! A text whose last cell can be taken back, and the screen that it is written on, which scrolls on and
never back. -/

namespace Sos.Lib

/-- Cells one behind the other, and the first row that is shown. The place behind the last cell is on the
screen. -/
structure Sheet (α : Type) (width height : Nat) where
  text : List α
  top : Nat
  start : width * top ≤ text.length
  inside : text.length < width * (top + height)

variable {α : Type} {width height : Nat}

namespace Sheet

theorem wide (p : Sheet α width height) : 0 < width := Nat.pos_of_mul_pos_right (Nat.zero_lt_of_lt p.inside)

theorem tall (p : Sheet α width height) : 1 ≤ height := by
  have start := p.start
  have inside := p.inside
  by_contra flat
  obtain rfl : height = 0 := by omega
  rw [Nat.add_zero] at inside
  omega

def blankSheet (wide : 0 < width) (tall : 0 < height) : Sheet α width height where
  text := []
  top := 0
  start := Nat.le_refl _
  inside := by
    rw [Nat.zero_add]
    exact Nat.mul_pos wide tall

/-- The next row is shown when the screen is full. -/
def extend (p : Sheet α width height) (more : List α) (few : more.length ≤ width) : Sheet α width height where
  text := p.text ++ more
  top := if (p.text ++ more).length < width * (p.top + height) then p.top else p.top + 1
  start := by
    have start := p.start
    have tall := Nat.mul_le_mul_left width p.tall
    split
    next => rw [List.length_append]; omega
    next full =>
      rw [Nat.mul_add] at full
      rw [Nat.mul_add]
      omega
  inside := by
    have inside := p.inside
    split
    next room => exact room
    next =>
      rw [Nat.mul_add] at inside
      rw [List.length_append, Nat.mul_add, Nat.mul_add]
      omega

def write (a : α) (p : Sheet α width height) : Sheet α width height := p.extend [a] p.wide

/-- The rest of the row is left blank. -/
def newline (blank : α) (p : Sheet α width height) : Sheet α width height :=
  p.extend (List.replicate (width - p.text.length % width) blank) (by
    rw [List.length_replicate]
    exact Nat.sub_le _ _)

/-- The last cell is taken back, unless it is no longer shown. -/
def back (p : Sheet α width height) : Sheet α width height :=
  if shown : width * p.top < p.text.length then
    { text := p.text.dropLast
      top := p.top
      start := by
        rw [List.length_dropLast]
        omega
      inside := by
        have inside := p.inside
        rw [List.length_dropLast]
        omega }
  else p

theorem text_back {p : Sheet α width height} (shown : width * p.top < p.text.length) :
    p.back.text = p.text.dropLast ∧ p.back.top = p.top := by
  rw [back, dif_pos shown]
  exact ⟨rfl, rfl⟩

/-- The text begins with `base`, and at least `n` cells are both behind it and on the screen. -/
structure Fenced (base : List α) (n : Nat) (p : Sheet α width height) : Prop where
  kept : base <+: p.text
  behind : base.length + n ≤ p.text.length
  shown : width * p.top + n ≤ p.text.length

namespace Fenced
variable {base : List α} {m n : Nat} {p : Sheet α width height}

theorem refl (p : Sheet α width height) : Fenced p.text 0 p where
  kept := List.prefix_rfl
  behind := Nat.le_refl _
  shown := p.start

theorem less (fenced : Fenced base n p) (fewer : m ≤ n) : Fenced base m p where
  kept := fenced.kept
  behind := Nat.le_trans (Nat.add_le_add_left fewer _) fenced.behind
  shown := Nat.le_trans (Nat.add_le_add_left fewer _) fenced.shown

/-- All rows but the last one are shown after the screen has scrolled. -/
theorem extend (fenced : Fenced base n p) {more : List α} (few : more.length ≤ width)
    (grows : m ≤ n + more.length) (fits : m + width ≤ width * height) : Fenced base m (p.extend more few) where
  kept := fenced.kept.trans (List.prefix_append _ _)
  behind := by
    have behind := fenced.behind
    change base.length + m ≤ (p.text ++ more).length
    rw [List.length_append]
    omega
  shown := by
    have shown := fenced.shown
    change width * (if _ then _ else _) + m ≤ (p.text ++ more).length
    split
    next =>
      rw [List.length_append]
      omega
    next full =>
      rw [Nat.mul_add] at full
      rw [Nat.mul_add]
      omega

theorem write (fenced : Fenced base n p) (a : α) (grows : m ≤ n + 1) (fits : m + width ≤ width * height) :
    Fenced base m (p.write a) := by
  have few : [a].length ≤ width := p.wide
  exact fenced.extend few grows fits

theorem newline (fenced : Fenced base n p) (blank : α) (grows : m ≤ n + 1) (fits : m + width ≤ width * height) :
    Fenced base m (p.newline blank) := by
  have rest := Nat.mod_lt p.text.length p.wide
  refine fenced.extend _ ?_ fits
  rw [List.length_replicate]
  omega

/-- A cell behind the fence can be taken back. -/
theorem back (fenced : Fenced base (n + 1) p) : Fenced base n p.back := by
  have shown := fenced.shown
  have behind := fenced.behind
  obtain ⟨text, top⟩ := text_back (p := p) (by omega)
  constructor
  · rw [text]
    refine List.prefix_of_prefix_length_le fenced.kept (List.dropLast_prefix _) ?_
    rw [List.length_dropLast]
    omega
  · rw [text, List.length_dropLast]
    omega
  · rw [text, top, List.length_dropLast]
    omega

end Fenced

end Sheet

namespace Screen

/-- The screen shows the sheet from its first row on, and the cursor is behind the last cell. -/
structure Depicts (blank : α) (s : Screen α width height) (p : Sheet α width height) : Prop where
  cell : ∀ k, s.cell k = p.text.getD (width * p.top + k.val) blank
  cursor : width * p.top + s.cursor = p.text.length

theorem depicts_blank (blank : α) (wide : 0 < width) (tall : 0 < height) (s : Screen α width height)
    (cell : ∀ k, s.cell k = blank) (cursor : s.cursor = 0) : Depicts blank s (Sheet.blankSheet wide tall) where
  cell := cell
  cursor := by
    rw [cursor]
    rfl

namespace Depicts
variable {blank : α} {s : Screen α width height} {p : Sheet α width height} (depicts : Depicts blank s p)
include depicts

theorem inside : s.cursor < height * width := by
  have cursor := depicts.cursor
  have inside := p.inside
  rw [Nat.mul_add, Nat.mul_comm width height] at inside
  omega

omit depicts in
/-- What is written shows once the screen has settled, if a row that is full is left. -/
theorem settle {w : Screen α width height} {more : List α} (few : more.length ≤ width)
    (cell : ∀ k, w.cell k = (p.text ++ more).getD (width * p.top + k.val) blank)
    (cursor : width * p.top + w.cursor = (p.text ++ more).length)
    (row : height * width ≤ w.cursor → w.cursor = height * width) :
    Depicts blank (w.settle blank) (p.extend more few) := by
  have bound : width * (p.top + height) = width * p.top + height * width := by
    rw [Nat.mul_add, Nat.mul_comm width height]
  by_cases room : w.cursor < height * width
  · have same : (p.extend more few).top = p.top := by
      apply if_pos
      omega
    rw [Screen.settle, if_pos room]
    constructor
    · intro k
      rw [same]
      exact cell k
    · rw [same]
      exact cursor
  · have full := row (by omega)
    have next : (p.extend more few).top = p.top + 1 := by
      apply if_neg
      omega
    rw [Screen.settle, if_neg room]
    constructor
    · intro k
      rw [next, Nat.mul_add, Nat.mul_one]
      change dite _ _ _ = (p.text ++ more).getD (width * p.top + width + k.val) blank
      have place : width * p.top + (k.val + width) = width * p.top + width + k.val := by omega
      by_cases shown : k.val + width < height * width
      · rw [dif_pos shown, cell, place]
      · rw [dif_neg shown, List.getD_eq_getElem?_getD, List.getElem?_eq_none (by omega)]
        rfl
    · have quotient : w.cursor / width = height := by rw [full, Nat.mul_div_cancel _ p.wide]
      rw [next]
      change width * (p.top + 1) + (w.cursor / width - 1) * width = (p.text ++ more).length
      have rows : height - 1 + 1 = height := Nat.sub_add_cancel p.tall
      rw [quotient, ← cursor, full, Nat.mul_add, Nat.mul_one, Nat.add_assoc, Nat.add_comm width, ← Nat.succ_mul]
      exact congrArg (fun n => width * p.top + n * width) rows

theorem write (a : α) : Depicts blank ((s.put a).settle blank) (p.write a) := by
  have inside := depicts.inside
  have cursor := depicts.cursor
  refine settle _ (fun k => ?_) ?_ fun full => ?_
  · change (if k.val = s.cursor then a else s.cell k) = _
    rw [depicts.cell k]
    by_cases here : k.val = s.cursor
    · rw [if_pos here, here, cursor, List.getD_eq_getElem?_getD, List.getElem?_concat_length]
      rfl
    · rw [if_neg here, List.getD_eq_getElem?_getD, List.getD_eq_getElem?_getD]
      rcases Nat.lt_or_ge (width * p.top + k.val) p.text.length with before | behind
      · rw [List.getElem?_append_left before]
      · rw [List.getElem?_eq_none behind, List.getElem?_eq_none]
        rw [List.length_append, List.length_singleton]
        omega
  · change width * p.top + (s.cursor + 1) = _
    rw [List.length_append, List.length_singleton]
    omega
  · change s.cursor + 1 = height * width
    change height * width ≤ s.cursor + 1 at full
    omega

theorem newline : Depicts blank (s.down.home.settle blank) (p.newline blank) := by
  have inside := depicts.inside
  have cursor := depicts.cursor
  have rest := Nat.mod_lt s.cursor p.wide
  have whole := Nat.div_add_mod s.cursor width
  have column : p.text.length % width = s.cursor % width := by rw [← cursor, Nat.mul_add_mod]
  have next : (s.cursor + width) / width * width = width * (s.cursor / width) + width := by
    rw [Nat.add_div_right _ p.wide, Nat.succ_mul, Nat.mul_comm]
  refine settle _ (fun k => ?_) ?_ fun full => ?_
  · change s.cell k = _
    rw [depicts.cell k, List.getD_eq_getElem?_getD, List.getD_eq_getElem?_getD]
    rcases Nat.lt_or_ge (width * p.top + k.val) p.text.length with before | behind
    · rw [List.getElem?_append_left before]
    · rw [List.getElem?_eq_none behind, List.getElem?_append_right behind, List.getElem?_replicate]
      split
      · rfl
      · rfl
  · change width * p.top + (s.cursor + width) / width * width = _
    rw [List.length_append, List.length_replicate, next, column]
    omega
  · have row : s.cursor / width + 1 ≤ height := Nat.succ_le_of_lt ((Nat.div_lt_iff_lt_mul p.wide).mpr inside)
    have rows := Nat.mul_le_mul_right width row
    rw [Nat.add_mul, Nat.one_mul, Nat.mul_comm _ width] at rows
    change (s.cursor + width) / width * width = height * width
    change height * width ≤ (s.cursor + width) / width * width at full
    omega

/-- The cell before the cursor is made blank, and the cursor goes there. -/
theorem back (some : 0 < s.cursor) :
    Depicts blank ⟨fun k => if k.val = s.cursor - 1 then blank else s.cell k, s.cursor - 1⟩ p.back := by
  have cursor := depicts.cursor
  obtain ⟨text, top⟩ := Sheet.text_back (p := p) (by omega)
  constructor
  · intro k
    change (if k.val = s.cursor - 1 then blank else s.cell k) = _
    rw [text, top, depicts.cell k]
    by_cases last : k.val = s.cursor - 1
    · rw [if_pos last, List.getD_eq_getElem?_getD, List.getElem?_eq_none]
      · rfl
      · rw [List.length_dropLast]
        omega
    · rw [if_neg last, List.getD_eq_getElem?_getD, List.getD_eq_getElem?_getD, List.getElem?_dropLast]
      split
      · rfl
      · rw [List.getElem?_eq_none]
        omega
  · rw [text, top, List.length_dropLast]
    change width * p.top + (s.cursor - 1) = _
    omega

end Depicts

end Screen

end Sos.Lib
