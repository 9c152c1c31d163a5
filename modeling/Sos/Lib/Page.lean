import Mathlib.Logic.Function.Basic
import Mathlib.Tactic.Common

/-! A page of text that has no last row, and a screen that shows the end of it. -/

namespace Sos.Lib

/-- Cells by row and column. Below the row of the cursor nothing is written. -/
structure Page (α : Type) (width : Nat) (blank : α) where
  cell : Nat → Nat → α
  row : Nat
  col : Nat
  inside : col < width
  clean : ∀ r c, row < r → cell r c = blank

/-- The rows one behind the other, and the place of the cursor, which may be behind them. -/
@[ext] structure Screen (α : Type) (width height : Nat) where
  cell : Fin (height * width) → α
  cursor : Nat

variable {α : Type} {width height : Nat} {blank : α}

namespace Page

def empty (blank : α) (wide : 0 < width) : Page α width blank where
  cell := fun _ _ => blank
  row := 0
  col := 0
  inside := wide
  clean := fun _ _ _ => rfl

/-- To the start of the row. -/
def home (p : Page α width blank) : Page α width blank :=
  { p with col := 0, inside := Nat.zero_lt_of_lt p.inside }

/-- To the start of the next row. -/
def newline (p : Page α width blank) : Page α width blank where
  cell := p.cell
  row := p.row + 1
  col := 0
  inside := Nat.zero_lt_of_lt p.inside
  clean := fun r c below => p.clean r c (Nat.lt_of_succ_lt below)

def put (a : α) (p : Page α width blank) : Page α width blank where
  cell := fun r c => if r = p.row ∧ c = p.col then a else p.cell r c
  row := p.row
  col := p.col
  inside := p.inside
  clean := by
    intro r c below
    rw [if_neg (by omega)]
    exact p.clean r c below

/-- A cell is written, and the row that is full then is left. -/
def write (a : α) (p : Page α width blank) : Page α width blank :=
  if next : p.col + 1 < width then { p.put a with col := p.col + 1, inside := next }
  else (p.put a).newline

/-- The first row that a screen of this height shows. -/
def top (height : Nat) (p : Page α width blank) : Nat := p.row - (height - 1)

end Page

namespace Screen

def home (s : Screen α width height) : Screen α width height := { s with cursor := s.cursor / width * width }

def down (s : Screen α width height) : Screen α width height := { s with cursor := s.cursor + width }

def put (a : α) (s : Screen α width height) : Screen α width height where
  cell := fun k => if k.val = s.cursor then a else s.cell k
  cursor := s.cursor + 1

/-- Every row takes the place of the one above it. -/
def scroll (blank : α) (s : Screen α width height) : Screen α width height where
  cell := fun k => if h : k.val + width < height * width then s.cell ⟨k.val + width, h⟩ else blank
  cursor := (s.cursor / width - 1) * width

/-- The cursor does not stay behind the last row. -/
def settle (blank : α) (s : Screen α width height) : Screen α width height :=
  if s.cursor < height * width then s else s.scroll blank

/-- A cursor on the row behind the last one is brought back. -/
theorem settle_inside {s : Screen α width height} (tall : 0 < height) (near : s.cursor < (height + 1) * width) :
    (s.settle blank).cursor < height * width := by
  unfold settle
  by_cases inside : s.cursor < height * width
  · rw [if_pos inside]
    exact inside
  · rw [if_neg inside]
    have wide : 0 < width := Nat.pos_of_lt_mul_left near
    have row : s.cursor / width < height + 1 := (Nat.div_lt_iff_lt_mul wide).mpr near
    have above : s.cursor / width - 1 < height := by omega
    exact (Nat.mul_lt_mul_right wide).mpr above

/-- The screen shows the page from row `t` on. -/
structure Window (t : Nat) (s : Screen α width height) (p : Page α width blank) : Prop where
  start : t ≤ p.row
  cell : ∀ k, s.cell k = p.cell (t + k.val / width) (k.val % width)
  cursor : s.cursor = (p.row - t) * width + p.col

/-- The row of the cursor is the last one shown, or all rows before it are shown. -/
def Shows (s : Screen α width height) (p : Page α width blank) : Prop := Window (p.top height) s p

namespace Window
variable {t : Nat} {s : Screen α width height} {p : Page α width blank} (window : Window t s p)
include window

theorem cursor_row : s.cursor / width = p.row - t := by
  have inside := p.inside
  rw [window.cursor, Nat.mul_comm, Nat.mul_add_div (by omega), Nat.div_eq_of_lt inside, Nat.add_zero]

theorem cursor_col : s.cursor % width = p.col := by
  rw [window.cursor, Nat.mul_comm, Nat.mul_add_mod, Nat.mod_eq_of_lt p.inside]

theorem inside_iff : s.cursor < height * width ↔ p.row - t < height := by
  have inside := p.inside
  rw [← Nat.div_lt_iff_lt_mul (by omega), window.cursor_row]

theorem home : Window t s.home p.home where
  start := window.start
  cell := window.cell
  cursor := by
    change s.cursor / width * width = (p.row - t) * width + 0
    rw [window.cursor_row, Nat.add_zero]

theorem newline : Window t s.down.home p.newline where
  start := Nat.le_succ_of_le window.start
  cell := window.cell
  cursor := by
    have inside := p.inside
    have start := window.start
    change (s.cursor + width) / width * width = (p.row + 1 - t) * width + 0
    rw [Nat.add_zero, Nat.add_div_right _ (by omega), window.cursor_row, Nat.sub_add_comm start]

theorem at_cursor (k : Nat) : k = s.cursor ↔ t + k / width = p.row ∧ k % width = p.col := by
  have start := window.start
  have row := window.cursor_row
  have col := window.cursor_col
  constructor
  · rintro rfl
    exact ⟨by omega, col⟩
  · rintro ⟨here, there⟩
    rw [← Nat.div_add_mod k width, ← Nat.div_add_mod s.cursor width, row, col, there]
    congr 2
    omega

theorem put_cell (a : α) (k : Fin (height * width)) :
    (s.put a).cell k = (p.put a).cell (t + k.val / width) (k.val % width) := by
  change (if k.val = s.cursor then a else s.cell k) = if _ then a else _
  rw [window.cell k]
  exact if_congr (window.at_cursor k.val) rfl rfl

theorem write (a : α) : Window t (s.put a) (p.write a) := by
  have start := window.start
  have inside := p.inside
  unfold Page.write
  by_cases next : p.col + 1 < width
  · rw [dif_pos next]
    refine ⟨start, window.put_cell a, ?_⟩
    change s.cursor + 1 = (p.row - t) * width + (p.col + 1)
    rw [window.cursor, Nat.add_assoc]
  · rw [dif_neg next]
    refine ⟨Nat.le_succ_of_le start, window.put_cell a, ?_⟩
    have full : p.col + 1 = width := by omega
    change s.cursor + 1 = (p.row + 1 - t) * width + 0
    rw [window.cursor, Nat.add_assoc, full, Nat.sub_add_comm start, Nat.add_mul, Nat.one_mul, Nat.add_zero]

theorem scroll (below : p.row = t + height) (col : p.col = 0) (clear : ∀ c, p.cell p.row c = blank)
    (tall : 0 < height) : Window (t + 1) (s.scroll blank) p where
  start := by omega
  cell := by
    have wide : 0 < width := Nat.zero_lt_of_lt p.inside
    intro k
    change dite _ _ _ = _
    by_cases shown : k.val + width < height * width
    · rw [dif_pos shown, window.cell ⟨_, shown⟩]
      change p.cell (t + (k.val + width) / width) ((k.val + width) % width) = _
      rw [Nat.add_div_right _ wide, Nat.add_mod_right]
      congr 1
      omega
    · have row : t + 1 + k.val / width = p.row := by
        have upper : k.val / width < height := (Nat.div_lt_iff_lt_mul wide).mpr k.isLt
        have lower : height ≤ (k.val + width) / width := (Nat.le_div_iff_mul_le wide).mpr (by omega)
        rw [Nat.add_div_right _ wide] at lower
        omega
      rw [dif_neg shown, row, clear]
  cursor := by
    change (s.cursor / width - 1) * width = _
    rw [window.cursor_row, col, Nat.add_zero]
    congr 1

end Window

namespace Shows
variable {s : Screen α width height} {p q : Page α width blank}

theorem settle (tall : 0 < height) (window : Window (p.top height) s q)
    (row : q.row = p.row ∨ q.row = p.row + 1 ∧ q.col = 0 ∧ ∀ c, q.cell q.row c = blank) :
    Shows (s.settle blank) q := by
  have top : p.top height = p.row - (height - 1) := rfl
  have start := window.start
  unfold Screen.settle
  by_cases inside : s.cursor < height * width
  · have near := window.inside_iff.mp inside
    have same : q.top height = p.top height := by
      change q.row - (height - 1) = p.row - (height - 1)
      omega
    rw [if_pos inside, Shows, same]
    exact window
  · have far := mt window.inside_iff.mpr inside
    obtain ⟨next, col, clear⟩ := row.resolve_left (by omega)
    have later : q.top height = p.top height + 1 := by
      change q.row - (height - 1) = p.row - (height - 1) + 1
      omega
    rw [if_neg inside, Shows, later]
    exact window.scroll (by omega) col clear tall

variable (shows : Shows s p)
include shows

theorem inside (tall : 0 < height) : s.cursor < height * width := by
  have start := shows.start
  have top : p.top height = p.row - (height - 1) := rfl
  exact (Window.inside_iff shows).mpr (by omega)

theorem home : Shows s.home p.home := Window.home shows

theorem newline (tall : 0 < height) : Shows (s.down.home.settle blank) p.newline := by
  refine settle tall (Window.newline shows) (Or.inr ⟨rfl, rfl, ?_⟩)
  exact fun c => p.clean _ c (Nat.lt_succ_self _)

theorem write (tall : 0 < height) (a : α) : Shows ((s.put a).settle blank) (p.write a) := by
  refine settle tall (Window.write shows a) ?_
  unfold Page.write
  by_cases next : p.col + 1 < width
  · rw [dif_pos next]
    exact Or.inl rfl
  · rw [dif_neg next]
    exact Or.inr ⟨rfl, rfl, fun c => (p.put a).clean _ c (Nat.lt_succ_self _)⟩

end Shows

theorem shows_empty (wide : 0 < width) (s : Screen α width height) (cell : ∀ k, s.cell k = blank)
    (cursor : s.cursor = 0) : Shows s (Page.empty blank wide) where
  start := Nat.sub_le _ _
  cell := cell
  cursor := by
    have top : (Page.empty blank wide).top height = 0 := Nat.zero_sub _
    rw [cursor, top]
    exact (Nat.zero_mul _).symm

end Screen

end Sos.Lib
