import Sos.Kernel.Bcon
import Sos.Kernel.Structures
import Sos.Lib.Page

/-! The console shows the last rows of the text that was sent to it. -/

namespace Sos.Kernel
open Sos.Lib

/-- A character and its attribute. -/
abbrev Glyph : Type := UInt8 × UInt8

/-- Eighty cells to a row, blanks in the attribute where nothing was written. -/
abbrev Text (attrs : UInt16) : Type := Page Glyph 80 (0x20, attrs.toUInt8)

namespace Text
variable {attrs : UInt16}

def empty : Text attrs := Page.empty _ (by decide)

/-- What a character other than backspace does. -/
def send (p : Text attrs) (c : Int32) : Text attrs :=
  if c = 0x0D then p.home
  else if c = 0x0A then p.newline
  else if c = 0x09 then
    let space : Glyph := (0x20, attrs.toUInt8)
    (((p.write space).write space).write space).write space
  else p.write (c.toUInt32.toUInt8, attrs.toUInt8)

end Text

def vidAt (off : Nat) : UInt32 := vidIoBase + UInt32.ofNat off

theorem vidAt_toNat (off : Nat) (small : off < 65536) : (vidAt off).toNat = 0xB8000 + off := by
  have base : vidIoBase.toNat = 0xB8000 := rfl
  rw [vidAt, UInt32.toNat_add, UInt32.toNat_ofNat', base]
  omega

theorem vidAt_inj {i k : Nat} (i_small : i < 65536) (k_small : k < 65536) : vidAt i = vidAt k ↔ i = k := by
  constructor
  · intro same
    have places := congrArg UInt32.toNat same
    rw [vidAt_toNat i i_small, vidAt_toNat k k_small] at places
    omega
  · exact congrArg vidAt

theorem vidAt_eq (x : UInt32) {off : Nat} (same : x.toNat = off) : vidIoBase + x = vidAt off := by
  rw [vidAt, ← same, UInt32.ofNat_toNat]

namespace Console

def cell (s : Console) (k : Nat) : Glyph := (s.mem (vidAt (2 * k)), s.mem (vidAt (2 * k + 1)))

/-- What is seen. -/
def screen (s : Console) : Screen Glyph 80 25 where
  cell := fun k => s.cell k
  cursor := 256 * (s.crt 14).toNat + (s.crt 15).toNat

def blank (s : Console) : Glyph := (0x20, s.bconAttrs.toUInt8)

def putCell (k : Nat) (a : Glyph) (s : Console) : Console := { s with
  mem := fun x => if x = vidAt (2 * k + 1) then a.2 else if x = vidAt (2 * k) then a.1 else s.mem x }

variable (s : Console)

theorem cell_putCell {k i : Nat} (a : Glyph) (k_small : k < 4096) (i_small : i < 4096) :
    (s.putCell k a).cell i = if i = k then a else s.cell i := by
  have even := vidAt_inj (i := 2 * i) (k := 2 * k) (by omega) (by omega)
  have odd := vidAt_inj (i := 2 * i + 1) (k := 2 * k + 1) (by omega) (by omega)
  have left := vidAt_inj (i := 2 * i) (k := 2 * k + 1) (by omega) (by omega)
  have right := vidAt_inj (i := 2 * i + 1) (k := 2 * k) (by omega) (by omega)
  simp only [cell, putCell, even, odd, left, right]
  by_cases same : i = k
  · rw [if_neg (by omega), if_pos (by omega), if_pos (by omega), if_pos same]
  · rw [if_neg (by omega), if_neg (by omega), if_neg (by omega), if_neg (by omega), if_neg same]

variable {s} in
theorem blank_eq {t : Console} (attrs : t.bconAttrs = s.bconAttrs) : t.blank = s.blank := by
  rw [blank, blank, attrs]

theorem cursor_lt : s.screen.cursor < 65536 := by
  have high := (s.crt 14).toNat_lt
  have low := (s.crt 15).toNat_lt
  change 256 * (s.crt 14).toNat + (s.crt 15).toNat < 65536
  omega

end Console

/-- The routine returns, `w` is seen then, and the attribute is the same. -/
def Draws (f : Prog Console Unit) (s : Console) (w : Screen Glyph 80 25) : Prop :=
  ∃ t, f s = .done () t ∧ t.bconAttrs = s.bconAttrs ∧ t.screen = w

theorem Draws.bind {f g : Prog Console Unit} {s : Console} {w v : Screen Glyph 80 25} (first : Draws f s w)
    (rest : ∀ t, t.bconAttrs = s.bconAttrs → t.screen = w → Draws g t v) :
    Draws (f >>= fun _ => g) s v := by
  obtain ⟨t, run, attrs, screen⟩ := first
  obtain ⟨u, run', attrs', screen'⟩ := rest t attrs screen
  refine ⟨u, ?_, attrs'.trans attrs, screen'⟩
  rw [Prog.bind_done _ run, run']

section
variable (s : Console)

theorem offset_toNat (high low : UInt8) :
    (high.toUInt32 <<< 8 ||| low.toUInt32).toNat = 256 * high.toNat + low.toNat := by
  have high_lt := high.toNat_lt
  have low_lt := low.toNat_lt
  have eight : (8 : UInt32).toNat % 32 = 8 := rfl
  rw [UInt32.toNat_or, UInt32.toNat_shiftLeft, UInt8.toNat_toUInt32, UInt8.toNat_toUInt32, eight,
    Nat.shiftLeft_eq, Nat.mod_eq_of_lt (by omega), Nat.mul_comm]
  exact (Nat.two_pow_add_eq_or_of_lt (by omega) high.toNat).symm

theorem getCurOffset_run : getCurOffset s = .done (UInt32.ofNat s.screen.cursor) { s with index := 15 } := by
  have offset : (s.crt 14).toUInt32 <<< 8 ||| (s.crt 15).toUInt32 = UInt32.ofNat s.screen.cursor := by
    rw [← UInt32.ofNat_toNat (x := _ ||| _), offset_toNat]
    rfl
  rw [← offset]
  rfl

/-- The two registers have sixteen bits of the offset. -/
theorem putCurOffset_wraps (o : UInt32) :
    Draws (putCurOffset o) s { s.screen with cursor := o.toNat % 65536 } := by
  refine ⟨_, rfl, rfl, ?_⟩
  have cursor : 256 * (o >>> 8).toUInt8.toNat + (o &&& 0x00FF).toUInt8.toNat = o.toNat % 65536 := by
    have mask : (0x00FF : UInt32).toNat = 2 ^ 8 - 1 := rfl
    have eight : (8 : UInt32).toNat % 32 = 8 := rfl
    rw [UInt32.toNat_toUInt8, UInt32.toNat_toUInt8, UInt32.toNat_shiftRight, UInt32.toNat_and, mask, eight,
      Nat.and_two_pow_sub_one_eq_mod, Nat.shiftRight_eq_div_pow]
    omega
  exact Screen.ext rfl cursor

theorem putCurOffset_draws {o : UInt32} {n : Nat} (value : o.toNat = n) (small : n < 65536) :
    Draws (putCurOffset o) s { s.screen with cursor := n } := by
  have draws := putCurOffset_wraps s o
  rw [value, Nat.mod_eq_of_lt small] at draws
  exact draws

theorem setCursorPos_draws {x y : UInt32} {n : Nat} (value : x.toNat + 80 * y.toNat = n) (small : n < 65536) :
    Draws (bconSetCursorPos x y) s { s.screen with cursor := n } := by
  have cols : termCols.toNat = 80 := rfl
  refine putCurOffset_draws s ?_ small
  rw [UInt32.toNat_add, UInt32.toNat_mul, cols]
  omega

theorem getCursorPos_run : ∃ x y : UInt32, x.toNat = s.screen.cursor % 80 ∧ y.toNat = s.screen.cursor / 80 ∧
    bconGetCursorPos s = .done (x, y) { s with index := 15 } := by
  have small := s.cursor_lt
  have cols : termCols.toNat = 80 := rfl
  have value : (UInt32.ofNat s.screen.cursor).toNat = s.screen.cursor := by
    rw [UInt32.toNat_ofNat', Nat.mod_eq_of_lt (by omega)]
  refine ⟨_, _, ?_, ?_, Prog.bind_done _ (getCurOffset_run s)⟩
  · rw [UInt32.toNat_mod, value, cols]
  · rw [UInt32.toNat_div, value, cols]

/-- The cursor is read and set again. -/
theorem move_draws {f g : UInt32 → UInt32 → UInt32} {n : Nat} (small : n < 65536)
    (value : ∀ x y : UInt32, x.toNat = s.screen.cursor % 80 → y.toNat = s.screen.cursor / 80 →
      (f x y).toNat + 80 * (g x y).toNat = n) :
    Draws (do
      let (x, y) ← bconGetCursorPos
      bconSetCursorPos (f x y) (g x y)) s { s.screen with cursor := n } := by
  obtain ⟨x, y, column, row, run⟩ := getCursorPos_run s
  obtain ⟨t, put, attrs, screen⟩ := setCursorPos_draws { s with index := 15 } (value x y column row) small
  refine ⟨t, ?_, attrs, screen⟩
  rw [Prog.bind_done _ run]
  exact put

theorem homeLine_draws : Draws bconCursorHomeLine s s.screen.home := by
  have small := s.cursor_lt
  have zero : (0 : UInt32).toNat = 0 := rfl
  refine move_draws s (f := fun _ _ => 0) (g := fun _ y => y) (by omega) ?_
  intro x y column row
  omega

theorem cursorDown_draws (small : s.screen.cursor + 80 < 65536) : Draws bconCursorDown s s.screen.down := by
  refine move_draws s (f := fun x _ => x) (g := fun _ y => y + 1) small ?_
  intro x y column row
  rw [Bytes.toNat_succ (by omega)]
  omega

theorem cursorUp_draws (below : 80 ≤ s.screen.cursor) :
    Draws bconCursorUp s { s.screen with cursor := s.screen.cursor - 80 } := by
  have small := s.cursor_lt
  have one : (1 : UInt32).toNat = 1 := rfl
  refine move_draws s (f := fun x _ => x) (g := fun _ y => y - 1) (by omega) ?_
  intro x y column row
  rw [UInt32.toNat_sub_of_le _ _ (UInt32.le_iff_toNat_le.mpr (by omega)), one]
  omega

theorem offEnd_run : bconCursorOffEnd s =
    .done (if s.screen.cursor < 25 * 80 then 0 else 1) { s with index := 15 } := by
  obtain ⟨x, y, x_value, y_value, run⟩ := getCursorPos_run s
  have cols : termCols.toNat = 80 := rfl
  have lines : termLines.toNat = 25 := rfl
  have off : (x ≥ termCols ∨ y ≥ termLines) ↔ ¬s.screen.cursor < 25 * 80 := by
    rw [ge_iff_le, ge_iff_le, UInt32.le_iff_toNat_le, UInt32.le_iff_toNat_le, cols, lines, x_value, y_value]
    omega
  rw [bconCursorOffEnd, Prog.bind_done _ run]
  by_cases inside : s.screen.cursor < 25 * 80
  · rw [if_pos inside]
    exact congrFun (if_neg (fun behind => off.mp behind inside)) _
  · rw [if_neg inside]
    exact congrFun (if_pos (off.mpr inside)) _

/-- Both bytes of a cell. -/
theorem writeCell_run (o : UInt32) (k : Nat) (a : Glyph) (even : o.toNat = 2 * k) (small : k < 4096) :
    (do
      busSpaceWrite8 .mem vidIoBase o a.1
      busSpaceWrite8 .mem vidIoBase (o + 1) a.2) s = .done () (s.putCell k a) := by
  have odd : (o + 1).toNat = 2 * k + 1 := by rw [Bytes.toNat_succ (by omega), even]
  have places : vidIoBase + o = vidAt (2 * k) ∧ vidIoBase + (o + 1) = vidAt (2 * k + 1) :=
    ⟨vidAt_eq o even, vidAt_eq (o + 1) odd⟩
  unfold Console.putCell
  rw [← places.1, ← places.2]
  rfl

theorem lowByte (c : Int32) : (c &&& 0xFF).toUInt32.toUInt8 = c.toUInt32.toUInt8 := by
  have mask : (0xFF : Int32).toUInt32 = 0xFF := rfl
  have ones : (0xFF : UInt32).toUInt8 = -1 := rfl
  rw [Int32.toUInt32_and, mask, UInt32.toUInt8_and, ones, UInt8.and_neg_one]

theorem cellOffset_toNat (shown : s.screen.cursor < 25 * 80) :
    (UInt32.ofNat s.screen.cursor * 2).toNat = 2 * s.screen.cursor := by
  have two : (2 : UInt32).toNat = 2 := rfl
  rw [UInt32.toNat_mul, UInt32.toNat_ofNat', two]
  omega

theorem writeChar_draws (c : Int32) (attributes : UInt16) (shown : s.screen.cursor < 25 * 80) :
    Draws (bconWriteChar c attributes) s (s.screen.put (c.toUInt32.toUInt8, attributes.toUInt8)) := by
  have value : (UInt32.ofNat s.screen.cursor).toNat = s.screen.cursor := by
    rw [UInt32.toNat_ofNat', Nat.mod_eq_of_lt (by omega)]
  have next : (UInt32.ofNat s.screen.cursor + 1).toNat = s.screen.cursor + 1 := by
    rw [Bytes.toNat_succ (by omega), value]
  have write := writeCell_run { s with index := 15 } _ s.screen.cursor (c.toUInt32.toUInt8, attributes.toUInt8)
    (cellOffset_toNat s shown) (by omega)
  obtain ⟨t, put, attrs, screen⟩ := putCurOffset_draws
    (Console.putCell s.screen.cursor (c.toUInt32.toUInt8, attributes.toUInt8) { s with index := 15 })
    next (by omega)
  refine ⟨t, ?_, attrs, screen.trans (Screen.ext ?_ rfl)⟩
  · rw [bconWriteChar, Prog.bind_done _ (getCurOffset_run s), lowByte]
    exact (Prog.bind_done (fun _ => putCurOffset _) write).trans put
  · funext k
    have bound := k.isLt
    exact Console.cell_putCell _ _ (by omega) (by omega)

/-- The cells from `first` on and before `last` become blank, and nothing else of the screen changes. -/
def Clears (f : Prog Console Unit) (s : Console) (first last : Nat) : Prop :=
  ∃ t, f s = .done () t ∧ t.bconAttrs = s.bconAttrs ∧ t.crt = s.crt ∧
    ∀ k, k < 4096 → t.cell k = if first ≤ k ∧ k < last then s.blank else s.cell k

variable {s}

theorem Clears.bind {f g : Prog Console Unit} {a b c : Nat} (first : Clears f s a b) (low : a ≤ b) (high : b ≤ c)
    (rest : ∀ t, t.bconAttrs = s.bconAttrs → Clears g t b c) : Clears (f >>= fun _ => g) s a c := by
  obtain ⟨t, run, attrs, crt, cells⟩ := first
  obtain ⟨u, run', attrs', crt', cells'⟩ := rest t attrs
  refine ⟨u, ?_, attrs'.trans attrs, crt'.trans crt, ?_⟩
  · rw [Prog.bind_done _ run, run']
  · intro k small
    have blank := Console.blank_eq attrs
    rw [cells' k small, cells k small, blank]
    by_cases before : k < b
    · rw [if_neg (by omega)]
      exact if_congr (by omega) rfl rfl
    · rw [if_neg (c := a ≤ k ∧ k < b) (by omega)]
      exact if_congr (by omega) rfl rfl

theorem Clears.refl (a : Nat) : Clears (return ()) s a a := by
  refine ⟨s, rfl, rfl, rfl, ?_⟩
  intro k small
  rw [if_neg (by omega)]

theorem clearCells_clears {y : UInt32} (line : y.toNat ≤ 25) {left n a b : Nat} {i : UInt32}
    (place : i.toNat = 2 * n) (room : n + left ≤ 80) (first : a = 80 * y.toNat + n) (last : b = a + left) :
    Clears (clearCells y left i) s a b := by
  induction left generalizing s i n a with
  | zero =>
    rw [last]
    exact Clears.refl a
  | succ left ih =>
    have cols : termCols.toNat = 80 := rfl
    have two : (2 : UInt32).toNat = 2 := rfl
    have even : (y * termCols * 2 + i).toNat = 2 * a := by
      rw [UInt32.toNat_add, UInt32.toNat_mul, UInt32.toNat_mul, cols, two]
      omega
    have next : (i + 2).toNat = 2 * (n + 1) := by
      rw [UInt32.toNat_add, two]
      omega
    have write : Clears (do
        busSpaceWrite8 .mem vidIoBase (y * termCols * 2 + i) 0x20
        busSpaceWrite8 .mem vidIoBase (y * termCols * 2 + i + 1) (← Prog.get Console.bconAttrs).toUInt8)
        s a (a + 1) := by
      refine ⟨s.putCell a s.blank, writeCell_run s _ a s.blank even (by omega), rfl, rfl, ?_⟩
      intro k small
      rw [Console.cell_putCell s _ (by omega) small]
      exact if_congr (by omega) rfl rfl
    exact write.bind (g := clearCells y left (i + 2)) (by omega) (by omega)
      fun t _ => ih next (by omega) (by omega) (by omega)

theorem clearLine_clears {y : UInt32} (line : y.toNat ≤ 25) :
    Clears (bconClearLine y) s (80 * y.toNat) (80 * y.toNat + 80) :=
  clearCells_clears line (n := 0) rfl (Nat.le_refl _) rfl rfl

theorem clearLines_clears {left : Nat} {i : UInt32} (room : i.toNat + left ≤ 25) :
    Clears (clearLines left i) s (80 * i.toNat) (80 * (i.toNat + left)) := by
  induction left generalizing s i with
  | zero => exact Clears.refl _
  | succ left ih =>
    have next : (i + 1).toNat = i.toNat + 1 := Bytes.toNat_succ (by omega)
    refine (clearLine_clears (y := i) (by omega)).bind (by omega) (by omega) fun t _ => ?_
    have rest := ih (s := t) (i := i + 1) (by omega)
    rw [next, Nat.add_right_comm, Nat.add_assoc] at rest
    exact rest

variable (s)

theorem clearScreen_draws : Draws bconClearScreen s { cell := fun _ => s.blank, cursor := 0 } := by
  have zero : (0 : UInt32).toNat = 0 := rfl
  obtain ⟨t, run, attrs, crt, cells⟩ := @clearLines_clears s termLines.toNat 0 (by decide)
  obtain ⟨u, run', attrs', screen⟩ := setCursorPos_draws t (x := 0) (y := 0) (n := 0) rfl (by decide)
  refine ⟨u, ?_, attrs'.trans attrs, screen.trans (Screen.ext ?_ rfl)⟩
  · rw [bconClearScreen, Prog.bind_done _ run, run']
  · funext k
    have bound := k.isLt
    have lines : termLines.toNat = 25 := rfl
    change t.cell k = s.blank
    rw [cells k (by omega), if_pos (by omega)]

/-- Each line becomes the one below it, the last one too. -/
theorem copyLines_run : ∃ t, copyLines s = .done () t ∧ t.bconAttrs = s.bconAttrs ∧ t.crt = s.crt ∧
    ∀ k, k < 25 * 80 → t.cell k = s.cell (k + 80) := by
  refine ⟨{ s with mem := copyBytes (termCols * termLines * 2).toNat vidIoBase (vidIoBase + termCols * 2) s.mem },
    rfl, rfl, rfl, ?_⟩
  have base : vidIoBase.toNat = 0xB8000 := rfl
  have source : (vidIoBase + termCols * 2).toNat = 0xB8000 + 160 := rfl
  have length : (termCols * termLines * 2).toNat = 4000 := rfl
  have byte : ∀ off next, off < 4000 → next = off + 160 → copyBytes (termCols * termLines * 2).toNat vidIoBase
      (vidIoBase + termCols * 2) s.mem (vidAt off) = s.mem (vidAt next) := by
    intro off next inside below
    have here := vidAt_toNat off (by omega)
    have there := vidAt_toNat next (by omega)
    exact copyBytes_down s.mem (by omega) (by omega) (by omega) (by omega) (by omega)
  intro k inside
  have left := byte (2 * k) (2 * (k + 80)) (by omega) (by omega)
  have right := byte (2 * k + 1) (2 * (k + 80) + 1) (by omega) (by omega)
  simp only [Console.cell, left, right]

/-- The part of `bcon_scroll_screen_up` behind the moves of the cursor. -/
theorem shiftLines_draws : Draws (do
      bconClearLine termLines
      copyLines
      bconClearLine (termLines - 1)) s { s.screen with cell := (s.screen.scroll s.blank).cell } := by
  obtain ⟨t, clear, t_attrs, t_crt, t_cells⟩ := clearLine_clears (s := s) (y := termLines) (by decide)
  obtain ⟨u, copy, u_attrs, u_crt, u_cells⟩ := copyLines_run t
  obtain ⟨v, last, v_attrs, v_crt, v_cells⟩ := clearLine_clears (s := u) (y := termLines - 1) (by decide)
  have lines : termLines.toNat = 25 := rfl
  have before : (termLines - 1).toNat = 24 := rfl
  have attrs : u.bconAttrs = s.bconAttrs := u_attrs.trans t_attrs
  have crt : v.crt = s.crt := v_crt.trans (u_crt.trans t_crt)
  have blank := Console.blank_eq attrs
  refine ⟨v, ?_, v_attrs.trans attrs, Screen.ext ?_ ?_⟩
  · rw [Prog.bind_done _ clear, Prog.bind_done _ copy, last]
  · funext k
    have bound := k.isLt
    change v.cell k = if h : k.val + 80 < 25 * 80 then s.cell (k + 80) else s.blank
    rw [v_cells k (by omega), before, blank]
    by_cases inside : k.val + 80 < 25 * 80
    · rw [if_neg (by omega), dif_pos inside, u_cells k bound, t_cells _ (by omega), if_neg (by omega)]
    · rw [if_pos (by omega), dif_neg inside]
  · change 256 * (v.crt 14).toNat + (v.crt 15).toNat = s.screen.cursor
    rw [crt]
    rfl

theorem scrollScreenUp_draws (below : 80 ≤ s.screen.cursor) :
    Draws bconScrollScreenUp s (s.screen.scroll s.blank) := by
  refine (cursorUp_draws s below).bind fun t attrs up => (homeLine_draws t).bind fun u attrs' home => ?_
  have blank := Console.blank_eq (attrs'.trans attrs)
  obtain ⟨v, run, attrs'', screen⟩ := shiftLines_draws u
  rw [home, up, blank] at screen
  refine ⟨v, run, attrs'', screen.trans (Screen.ext rfl ?_)⟩
  change (s.screen.cursor - 80) / 80 * 80 = (s.screen.cursor / 80 - 1) * 80
  omega

theorem scrollOffEnd_draws : Draws scrollOffEnd s (s.screen.settle s.blank) := by
  unfold scrollOffEnd Screen.settle
  rw [Draws, Prog.bind_done _ (offEnd_run s)]
  by_cases inside : s.screen.cursor < 25 * 80
  · rw [if_pos inside, if_pos inside]
    exact ⟨_, rfl, rfl, rfl⟩
  · rw [if_neg inside, if_neg inside]
    exact scrollScreenUp_draws { s with index := 15 } (by
      change 80 ≤ s.screen.cursor
      omega)

theorem putPlain_draws (c : Int32) (shown : s.screen.cursor < 25 * 80) : Draws (putPlain c) s
    ((s.screen.put (c.toUInt32.toUInt8, s.bconAttrs.toUInt8)).settle s.blank) := by
  have draws := (writeChar_draws s c s.bconAttrs shown).bind (g := scrollOffEnd)
    (v := (s.screen.put (c.toUInt32.toUInt8, s.bconAttrs.toUInt8)).settle s.blank) (by
      intro t attrs screen
      have blank := Console.blank_eq attrs
      rw [← screen, ← blank]
      exact scrollOffEnd_draws t)
  exact draws

end

/-- The console shows the end of the text in the attribute of the text. -/
structure Console.Follows {attrs : UInt16} (s : Console) (p : Text attrs) : Prop where
  attrs : s.bconAttrs = attrs
  shows : Screen.Shows s.screen p

section
variable {attrs : UInt16} {s : Console} {p : Text attrs}

theorem Draws.follows {f : Prog Console Unit} {w : Screen Glyph 80 25} (draws : Draws f s w)
    (same : s.bconAttrs = attrs) (shows : Screen.Shows w p) : ∃ t, f s = .done () t ∧ t.Follows p := by
  obtain ⟨t, run, kept, screen⟩ := draws
  refine ⟨t, run, kept.trans same, ?_⟩
  rw [screen]
  exact shows

variable (follows : s.Follows p)
include follows

theorem putPlain_follows (c : Int32) : ∃ t, putPlain c s = .done () t ∧
    t.Follows (Page.write (c.toUInt32.toUInt8, attrs.toUInt8) p) := by
  obtain ⟨same, shows⟩ := follows
  subst same
  exact (putPlain_draws s c (shows.inside (by decide))).follows rfl (shows.write (by decide) _)

theorem putchar_follows {c : Int32} (plain : c ≠ 0x08) : ∃ t, bconPutchar c s = .done () t ∧
    t.Follows (p.send c) := by
  unfold bconPutchar Text.send
  by_cases carriage : c = 0x0D
  · rw [if_pos carriage, if_pos carriage]
    exact (homeLine_draws s).follows follows.attrs follows.shows.home
  rw [if_neg carriage, if_neg carriage]
  by_cases feed : c = 0x0A
  · rw [if_pos feed, if_pos feed]
    obtain ⟨same, shows⟩ := follows
    subst same
    have small := shows.inside (by decide)
    refine Draws.follows ?_ rfl (shows.newline (by decide))
    refine (cursorDown_draws s (by omega)).bind fun t attrs down => ?_
    refine (homeLine_draws t).bind fun u attrs' home => ?_
    have blank := Console.blank_eq (attrs'.trans attrs)
    have draws := scrollOffEnd_draws u
    rw [home, down, blank] at draws
    exact draws
  rw [if_neg feed, if_neg feed]
  by_cases tab : c = 0x09
  · rw [if_pos tab, if_pos tab]
    obtain ⟨t1, run1, follows1⟩ := putPlain_follows follows 0x20
    obtain ⟨t2, run2, follows2⟩ := putPlain_follows follows1 0x20
    obtain ⟨t3, run3, follows3⟩ := putPlain_follows follows2 0x20
    obtain ⟨t4, run4, follows4⟩ := putPlain_follows follows3 0x20
    refine ⟨t4, ?_, follows4⟩
    rw [Prog.bind_done _ run1, Prog.bind_done _ run2, Prog.bind_done _ run3, run4]
  · rw [if_neg tab, if_neg tab, if_neg plain]
    exact putPlain_follows follows c

theorem putAll_follows {text : List Int32} (plain : 0x08 ∉ text) : ∃ t, putAll text s = .done () t ∧
    t.Follows (text.foldl Text.send p) := by
  induction text generalizing s p with
  | nil => exact ⟨s, rfl, follows⟩
  | cons c text ih =>
    obtain ⟨t, run, follows⟩ := putchar_follows follows (fun same => plain (same ▸ List.mem_cons_self))
    obtain ⟨u, run', follows⟩ := ih follows (fun member => plain (List.mem_cons_of_mem c member))
    refine ⟨u, ?_, follows⟩
    rw [putAll, Prog.bind_done _ run, run']

end

/-- The rows of the page from `t` on are in video memory, and the place of the cursor in them
is in its two registers. -/
structure ShownFrom {attrs : UInt16} (t : Nat) (p : Text attrs) (s : Console) : Prop where
  char : ∀ r c, r < 25 → c < 80 → s.mem (vidIoBase + UInt32.ofNat (2 * (80 * r + c))) = (p.cell (t + r) c).1
  attr : ∀ r c, r < 25 → c < 80 → s.mem (vidIoBase + UInt32.ofNat (2 * (80 * r + c) + 1)) = (p.cell (t + r) c).2
  visible : t ≤ p.row ∧ p.row < t + 25
  high : (s.crt 14).toNat = (80 * (p.row - t) + p.col) / 256
  low : (s.crt 15).toNat = (80 * (p.row - t) + p.col) % 256

theorem Console.Follows.shown {attrs : UInt16} {s : Console} {p : Text attrs} (follows : s.Follows p) :
    ShownFrom (p.row - 24) p s := by
  have shows := follows.shows
  have cells : ∀ r c, r < 25 → c < 80 → s.cell (80 * r + c) = p.cell (p.row - 24 + r) c := by
    intro r c row col
    have cell := shows.cell ⟨80 * r + c, by omega⟩
    have quot : (80 * r + c) / 80 = r := by omega
    have rest : (80 * r + c) % 80 = c := by omega
    change s.cell (80 * r + c) = p.cell (p.row - 24 + (80 * r + c) / 80) ((80 * r + c) % 80) at cell
    rw [quot, rest] at cell
    exact cell
  have low := (s.crt 15).toNat_lt
  have cursor : 256 * (s.crt 14).toNat + (s.crt 15).toNat = (p.row - (p.row - 24)) * 80 + p.col := shows.cursor
  exact {
    char := fun r c row col => congrArg Prod.fst (cells r c row col)
    attr := fun r c row col => congrArg Prod.snd (cells r c row col)
    visible := by omega
    high := by omega
    low := by omega }

/-- Whatever is sent after the screen was cleared, the rows shown are the last ones of a page
that never ends. -/
theorem console_shows_tail (s : Console) (text : List Int32) (plain : 0x08 ∉ text) :
    let p : Text s.bconAttrs := text.foldl Text.send Text.empty
    ∃ t, (do
      bconClearScreen
      putAll text) s = .done () t ∧ ShownFrom (p.row - 24) p t := by
  have cleared : Screen.Shows (⟨fun _ => s.blank, 0⟩ : Screen Glyph 80 25) (Text.empty : Text s.bconAttrs) :=
    Screen.shows_empty (by decide) _ (fun _ => rfl) rfl
  obtain ⟨t, run, follows⟩ := (clearScreen_draws s).follows rfl cleared
  obtain ⟨u, run', follows⟩ := putAll_follows follows plain
  refine ⟨u, ?_, follows.shown⟩
  rw [Prog.bind_done _ run, run']

/-- Thirty lines and an `a` on the next one: the screen begins at row 6. -/
theorem console_shows_tail_lines :
    let s : Console := ⟨fun _ => 0, 0, fun _ => 0, termAttr⟩
    let text := List.replicate 30 0x0A ++ [0x61]
    let p : Text s.bconAttrs := text.foldl Text.send Text.empty
    p.row = 30 ∧ p.col = 1 ∧ ∃ t, (do
      bconClearScreen
      putAll text) s = .done () t ∧ ShownFrom (p.row - 24) p t :=
  ⟨by decide, by decide, console_shows_tail ⟨fun _ => 0, 0, fun _ => 0, termAttr⟩
    (List.replicate 30 0x0A ++ [0x61]) (by decide)⟩

end Sos.Kernel
