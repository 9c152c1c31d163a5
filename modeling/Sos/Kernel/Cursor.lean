import Sos.Kernel.BconTail

/-! Where the cursor is, and which bytes of memory are written, whatever is sent to the console. -/

namespace Sos.Kernel
open Sos.Lib

/-- A byte that is in none of the rows 0 to 25. -/
def OffScreen (x : UInt32) : Prop := x.toNat < 0xB8000 ∨ 0xB8000 + 26 * 160 ≤ x.toNat

/-- No byte outside of the rows is different. -/
def SameAround (m m' : Mem) : Prop := ∀ x, OffScreen x → m' x = m x

/-- The cursor is at one of the cells that are shown. -/
def OnScreen (s : Console) : Prop := s.screen.cursor < 25 * 80

/-- The character is sent, whatever is in memory: only the rows are written, and the cursor is on
the screen afterwards. -/
def Contained (c : Int32) (s : Console) : Prop := ∀ m : Mem, ∃ t,
  bconPutchar c { s with mem := m } = .done () t ∧ OnScreen t ∧ SameAround m t.mem

/-- No backspace at the upper left corner. -/
def BackFits (c : Int32) (s : Console) : Prop := c = 0x08 → s.screen.cursor ≠ 0

theorem SameAround.trans {m m' m'' : Mem} (first : SameAround m m') (second : SameAround m' m'') :
    SameAround m m'' := by
  intro x off
  rw [second x off, first x off]

theorem SameAround.refl (m : Mem) : SameAround m m := fun _ _ => rfl

/-- The routine writes the rows only. -/
def Stays (f : Prog Console Unit) (s : Console) : Prop := ∀ t, f s = .done () t → SameAround s.mem t.mem

section
variable {f g : Prog Console Unit} {s : Console}

theorem Stays.bind (first : Stays f s) (rest : ∀ t, f s = .done () t → Stays g t) :
    Stays (f >>= fun _ => g) s := by
  intro u run
  obtain ⟨_, t, here, there⟩ := Prog.of_bind_done run
  exact (first t here).trans (rest t here u there)

theorem Stays.of_keeps (keeps : Prog.Keeps Console.mem f) : Stays f s := by
  intro t run x off
  rw [keeps s () t run]

theorem write_stays {o : UInt32} (v : UInt8) (inside : o.toNat < 26 * 160) :
    Stays (busSpaceWrite8 .mem vidIoBase o v) s := by
  intro t run x off
  cases run
  refine if_neg ?_
  rintro rfl
  have base : vidIoBase.toNat = 0xB8000 := rfl
  have place : (vidIoBase + o).toNat = 0xB8000 + o.toNat := by
    rw [UInt32.toNat_add, base]
    omega
  unfold OffScreen at off
  omega

end

/-! The moves of the cursor write no memory. -/

open Prog

theorem busWrite_keeps (base off : UInt32) (val : UInt8) :
    Keeps Console.mem (busSpaceWrite8 .io base off val) := by
  intro s _ t run
  cases run
  change (s.outb (base + off) val).mem = s.mem
  unfold Console.outb
  split
  · rfl
  · split
    · rfl
    · rfl

theorem putCurOffset_keeps (offset : UInt32) : Keeps Console.mem (putCurOffset offset) :=
  (busWrite_keeps _ _ _).bind fun _ => (busWrite_keeps _ _ _).bind fun _ =>
    (busWrite_keeps _ _ _).bind fun _ => busWrite_keeps _ _ _

theorem getCurOffset_keeps : Keeps Console.mem getCurOffset :=
  (busWrite_keeps _ _ _).bind fun _ => Keeps.get.bind fun _ =>
    (busWrite_keeps _ _ _).bind fun _ => Keeps.get.bind fun _ => Keeps.pure _

theorem cursorMove_keeps (f : UInt32 × UInt32 → UInt32 × UInt32) :
    Keeps Console.mem (do
      let p ← bconGetCursorPos
      bconSetCursorPos (f p).1 (f p).2) :=
  (getCurOffset_keeps.bind fun _ => Keeps.pure _).bind fun _ => putCurOffset_keeps _

theorem cursorUp_keeps : Keeps Console.mem bconCursorUp := cursorMove_keeps fun p => (p.1, p.2 - 1)

theorem cursorDown_keeps : Keeps Console.mem bconCursorDown := cursorMove_keeps fun p => (p.1, p.2 + 1)

theorem cursorLeft_keeps : Keeps Console.mem bconCursorLeft := cursorMove_keeps fun p => (p.1 - 1, p.2)

theorem homeLine_keeps : Keeps Console.mem bconCursorHomeLine := cursorMove_keeps fun p => (0, p.2)

section
variable (s : Console)

/-- The cells of a row from one on. -/
theorem clearCells_stays {y : UInt32} (row : y.toNat ≤ 25) {left n : Nat} {i : UInt32} (place : i.toNat = 2 * n)
    (room : n + left ≤ 80) : Stays (clearCells y left i) s := by
  induction left generalizing s i n with
  | zero => exact Stays.of_keeps (Keeps.pure ())
  | succ left ih =>
    have cols : termCols.toNat = 80 := rfl
    have two : (2 : UInt32).toNat = 2 := rfl
    have even : (y * termCols * 2 + i).toNat = 160 * y.toNat + 2 * n := by
      rw [UInt32.toNat_add, UInt32.toNat_mul, UInt32.toNat_mul, cols, two]
      omega
    have odd : (y * termCols * 2 + i + 1).toNat = 160 * y.toNat + 2 * n + 1 := by
      rw [Bytes.toNat_succ (by omega), even]
    have next : (i + 2).toNat = 2 * (n + 1) := by
      rw [UInt32.toNat_add, two]
      omega
    refine (write_stays _ (by omega)).bind fun t _ => ?_
    change Stays (busSpaceWrite8 .mem vidIoBase (y * termCols * 2 + i + 1) t.bconAttrs.toUInt8 >>= fun _ =>
      clearCells y left (i + 2)) t
    exact (write_stays _ (by omega)).bind fun u _ => ih u next (by omega)

theorem clearLine_stays {y : UInt32} (row : y.toNat ≤ 25) : Stays (bconClearLine y) s :=
  clearCells_stays s row (n := 0) rfl (Nat.le_refl _)

theorem clearLines_stays {left : Nat} {i : UInt32} (room : i.toNat + left ≤ 25) :
    Stays (clearLines left i) s := by
  induction left generalizing s i with
  | zero => exact Stays.of_keeps (Keeps.pure ())
  | succ left ih =>
    have next : (i + 1).toNat = i.toNat + 1 := Bytes.toNat_succ (by omega)
    exact (clearLine_stays s (by omega)).bind fun t _ => ih t (by omega)

theorem clearScreen_stays : Stays bconClearScreen s := by
  have lines : Stays (clearLines termLines.toNat 0) s := clearLines_stays s (by decide)
  have home (t : Console) : Stays (bconSetCursorPos 0 0) t := Stays.of_keeps (putCurOffset_keeps _)
  unfold bconClearScreen
  apply lines.bind
  intro t _
  exact home t

/-- The last row that is read is the scratch row. -/
theorem copyLines_stays : Stays copyLines s := by
  intro t run x off
  rw [copyLines, Prog.modify_run, Outcome.done.injEq] at run
  have base : vidIoBase.toNat = 0xB8000 := rfl
  have length : (termCols * termLines * 2).toNat = 4000 := rfl
  unfold OffScreen at off
  rw [← run.2]
  dsimp only
  rw [copyBytes_outside s.mem (by omega) (by omega)]

theorem scrollScreenUp_stays : Stays bconScrollScreenUp s := by
  have scratch (t : Console) : Stays (bconClearLine termLines) t := clearLine_stays t (by decide)
  have last (t : Console) : Stays (bconClearLine (termLines - 1)) t := clearLine_stays t (by decide)
  unfold bconScrollScreenUp
  apply (Stays.of_keeps cursorUp_keeps).bind
  intro t _
  apply (Stays.of_keeps homeLine_keeps).bind
  intro u _
  apply (scratch u).bind
  intro v _
  apply (copyLines_stays v).bind
  intro w _
  exact last w

theorem scrollOffEnd_stays : Stays scrollOffEnd s := by
  have plain : Keeps Console.mem bconCursorOffEnd :=
    (getCurOffset_keeps.bind fun _ => Keeps.pure _).bind fun _ => (Keeps.pure _).ite (Keeps.pure _)
  intro t run
  obtain ⟨off, u, look, run⟩ := Prog.of_bind_done run
  have same : u.mem = s.mem := plain s off u look
  rw [← same]
  by_cases behind : off = 1
  · rw [if_pos behind] at run
    exact scrollScreenUp_stays u t run
  · rw [if_neg behind] at run
    exact Stays.of_keeps (Keeps.pure ()) t run

theorem writeChar_stays (c : Int32) (attributes : UInt16) (shown : OnScreen s) :
    Stays (bconWriteChar c attributes) s := by
  have even := cellOffset_toNat s shown
  unfold OnScreen at shown
  have odd : (UInt32.ofNat s.screen.cursor * 2 + 1).toNat = 2 * s.screen.cursor + 1 := by
    rw [Bytes.toNat_succ (by omega), even]
  intro t run
  rw [bconWriteChar, Prog.bind_done _ (getCurOffset_run s)] at run
  have low (t : Console) : Stays (busSpaceWrite8 .mem vidIoBase (UInt32.ofNat s.screen.cursor * 2)
      (c &&& 0xFF).toUInt32.toUInt8) t := write_stays _ (by omega)
  have high (t : Console) : Stays (busSpaceWrite8 .mem vidIoBase (UInt32.ofNat s.screen.cursor * 2 + 1)
      attributes.toUInt8) t := write_stays _ (by omega)
  have next (t : Console) : Stays (putCurOffset (UInt32.ofNat s.screen.cursor + 1)) t :=
    Stays.of_keeps (putCurOffset_keeps _)
  exact ((low _).bind fun u _ => (high u).bind fun v _ => next v) t run

theorem putPlain_stays (c : Int32) (shown : OnScreen s) : Stays (putPlain c) s := by
  have write := (writeChar_stays s c s.bconAttrs shown).bind fun t _ => scrollOffEnd_stays t
  exact write

theorem cursorLeft_draws :
    Draws bconCursorLeft s { s.screen with cursor := (s.screen.cursor + 65535) % 65536 } := by
  have cols : termCols.toNat = 80 := rfl
  obtain ⟨x, y, column, row, run⟩ := getCursorPos_run s
  have place : (x - 1 + y * termCols).toNat % 65536 = (s.screen.cursor + 65535) % 65536 := by
    rw [UInt32.toNat_add, UInt32.toNat_mul, UInt32.toNat_sub, cols, column, row]
    have one : (1 : UInt32).toNat = 1 := rfl
    omega
  obtain ⟨t, put, attrs, screen⟩ := putCurOffset_wraps { s with index := 15 } (x - 1 + y * termCols)
  rw [place] at screen
  refine ⟨t, ?_, attrs, screen⟩
  rw [bconCursorLeft, Prog.bind_done _ run]
  exact put

end

/-- The routine returns with a cursor like this, and writes the rows only. -/
def Ends (f : Prog Console Unit) (s : Console) (P : Nat → Prop) : Prop :=
  ∃ t, f s = .done () t ∧ P t.screen.cursor ∧ SameAround s.mem t.mem

section
variable {f g : Prog Console Unit} {s : Console} {P Q : Nat → Prop}

theorem Ends.bind (first : Ends f s P) (rest : ∀ t, P t.screen.cursor → Ends g t Q) :
    Ends (f >>= fun _ => g) s Q := by
  obtain ⟨t, run, cursor, around⟩ := first
  obtain ⟨u, run', cursor', around'⟩ := rest t cursor
  refine ⟨u, ?_, cursor', around.trans around'⟩
  rw [Prog.bind_done _ run, run']

theorem Draws.ends {w : Screen Glyph 80 25} (draws : Draws f s w) (stays : Stays f s) (holds : P w.cursor) :
    Ends f s P := by
  obtain ⟨t, run, -, screen⟩ := draws
  rw [← screen] at holds
  exact ⟨t, run, holds, stays t run⟩

end

section
variable (s : Console)

theorem scrollOffEnd_ends (near : s.screen.cursor < 26 * 80) : Ends scrollOffEnd s (· < 25 * 80) :=
  (scrollOffEnd_draws s).ends (scrollOffEnd_stays s) (Screen.settle_inside (by decide) near)

theorem putPlain_ends (c : Int32) (shown : s.screen.cursor < 25 * 80) : Ends (putPlain c) s (· < 25 * 80) := by
  refine (putPlain_draws s c shown).ends (putPlain_stays s c shown) (Screen.settle_inside (by decide) ?_)
  change s.screen.cursor + 1 < 26 * 80
  omega

/-- No row is full after the character. -/
theorem putPlain_next (c : Int32) (room : s.screen.cursor + 1 < 25 * 80) :
    Ends (putPlain c) s (· = s.screen.cursor + 1) := by
  have shown : s.screen.cursor < 25 * 80 := by omega
  refine (putPlain_draws s c shown).ends (putPlain_stays s c shown) ?_
  rw [Screen.settle, if_pos (show (s.screen.put _).cursor < 25 * 80 from room)]
  rfl

theorem cursorLeft_ends {n : Nat} (right : s.screen.cursor = n + 1) : Ends bconCursorLeft s (· = n) := by
  have small := s.cursor_lt
  refine (cursorLeft_draws s).ends (Stays.of_keeps cursorLeft_keeps) ?_
  change (s.screen.cursor + 65535) % 65536 = n
  omega

/-- Every character on its own. -/
theorem putchar_ends {c : Int32} (shown : s.screen.cursor < 25 * 80) (fits : BackFits c s) :
    Ends (bconPutchar c) s (· < 25 * 80) := by
  have home (t : Console) (n : Nat) (near : t.screen.cursor < n * 80) :
      Ends bconCursorHomeLine t (· < n * 80) := by
    refine (homeLine_draws t).ends (Stays.of_keeps homeLine_keeps) ?_
    change t.screen.cursor / 80 * 80 < n * 80
    omega
  unfold bconPutchar
  by_cases carriage : c = 0x0D
  · rw [if_pos carriage]
    exact home s 25 shown
  rw [if_neg carriage]
  by_cases feed : c = 0x0A
  · rw [if_pos feed]
    have down : Ends bconCursorDown s (· < 26 * 80) := by
      refine (cursorDown_draws s (by omega)).ends (Stays.of_keeps cursorDown_keeps) ?_
      change s.screen.cursor + 80 < 26 * 80
      omega
    exact down.bind fun t near => (home t 26 near).bind fun u near => scrollOffEnd_ends u near
  rw [if_neg feed]
  by_cases tab : c = 0x09
  · rw [if_pos tab]
    exact (putPlain_ends s 0x20 shown).bind fun t shown => (putPlain_ends t 0x20 shown).bind fun u shown =>
      (putPlain_ends u 0x20 shown).bind fun v shown => putPlain_ends v 0x20 shown
  rw [if_neg tab]
  by_cases back : c = 0x08
  · rw [if_pos back]
    have right := fits back
    obtain ⟨n, place⟩ := Nat.exists_eq_add_one_of_ne_zero right
    have left : Ends bconCursorLeft s (· = n) := cursorLeft_ends s place
    refine left.bind fun t here => (putPlain_next t 0x20 (by omega)).bind fun u next => ?_
    obtain ⟨v, run, cursor, around⟩ := cursorLeft_ends u (n := n) (by omega)
    exact ⟨v, run, by omega, around⟩
  · rw [if_neg back]
    exact putPlain_ends s c shown

/-- The cell behind the last offset is the first one. -/
theorem putPlain_wraps (c : Int32) (last : s.screen.cursor = 65535) :
    ∃ t, putPlain c s = .done () t ∧ t.screen.cursor = 0 := by
  have written : ∃ m, bconWriteChar c s.bconAttrs s =
      putCurOffset (UInt32.ofNat s.screen.cursor + 1) { s with index := 15, mem := m } := by
    rw [bconWriteChar, Prog.bind_done _ (getCurOffset_run s)]
    exact ⟨_, rfl⟩
  obtain ⟨m, write⟩ := written
  obtain ⟨t, put, -, screen⟩ :=
    putCurOffset_wraps { s with index := 15, mem := m } (UInt32.ofNat s.screen.cursor + 1)
  have first : t.screen.cursor = 0 := by
    rw [screen, last]
    rfl
  obtain ⟨u, settle, -, screen'⟩ := scrollOffEnd_draws t
  refine ⟨u, ?_, ?_⟩
  · change (bconWriteChar c s.bconAttrs >>= fun _ => scrollOffEnd) s = .done () u
    rw [Prog.bind_done _ (write.trans put), settle]
  · rw [screen', Screen.settle, if_pos (by omega), first]

/-- At the upper left corner a backspace leaves the cursor at the last offset there is. -/
theorem backspace_wraps (corner : s.screen.cursor = 0) :
    ∃ t, bconPutchar 0x08 s = .done () t ∧ t.screen.cursor = 65535 := by
  obtain ⟨t, left, -, screen⟩ := cursorLeft_draws s
  have last : t.screen.cursor = 65535 := by rw [screen, corner]
  obtain ⟨u, write, first⟩ := putPlain_wraps t 0x20 last
  obtain ⟨v, again, -, screen'⟩ := cursorLeft_draws u
  refine ⟨v, ?_, by rw [screen', first]⟩
  change (do
    bconCursorLeft
    putPlain 0x20
    bconCursorLeft) s = .done () v
  rw [Prog.bind_done _ left, Prog.bind_done _ write, again]

theorem contained_iff (c : Int32) (shown : OnScreen s) : Contained c s ↔ BackFits c s := by
  constructor
  · intro contained back corner
    subst back
    obtain ⟨t, run, inside, -⟩ := contained s.mem
    obtain ⟨u, run', last⟩ := backspace_wraps s corner
    rw [run', Outcome.done.injEq] at run
    rw [← run.2, OnScreen, last] at inside
    exact absurd inside (by decide)
  · intro fits m
    exact putchar_ends { s with mem := m } shown fits

end

/-- From the cleared screen on, as long as no backspace is sent at the upper left corner, the
cursor is on the screen and the rows alone are written; a backspace there breaks this. -/
theorem cursor_contained_iff (s₀ : Console) : ∃ t, bconClearScreen s₀ = .done () t ∧ OnScreen t ∧
    SameAround s₀.mem t.mem ∧ ∀ log s, Runs bconPutchar BackFits t log s →
      (OnScreen s ∧ SameAround t.mem s.mem) ∧ ∀ c, Contained c s ↔ BackFits c s := by
  obtain ⟨t, clear, shown, around⟩ := (clearScreen_draws s₀).ends (P := (· < 25 * 80)) (clearScreen_stays s₀)
    (show 0 < 25 * 80 by decide)
  refine ⟨t, clear, shown, around, ?_⟩
  intro log s runs
  have invariant : OnScreen s ∧ SameAround t.mem s.mem := by
    refine runs.invariant (fun _ s => OnScreen s ∧ SameAround t.mem s.mem) ⟨shown, SameAround.refl t.mem⟩ ?_
    rintro log u c _ v ⟨shown, around⟩ fits run
    obtain ⟨v', run', shown', around'⟩ := (contained_iff u c shown).mpr fits u.mem
    have same : v' = v := by
      rw [show { u with mem := u.mem } = u from rfl, run, Outcome.done.injEq] at run'
      exact run'.2.symm
    subst same
    exact ⟨shown', around.trans around'⟩
  exact ⟨invariant, fun c => contained_iff s c invariant.1⟩

/-- A text without backspaces, one character after the other. -/
theorem text_runs {attrs : UInt16} (text : List Int32) (plain : 0x08 ∉ text) {start s : Console} {p : Text attrs}
    (follows : s.Follows p) {log : List (Int32 × Unit)} (runs : Runs bconPutchar BackFits start log s) :
    ∃ t, Runs bconPutchar BackFits start ((text.map fun c => (c, ())).reverse ++ log) t ∧
      t.Follows (text.foldl Text.send p) := by
  induction text generalizing s p log with
  | nil => exact ⟨s, runs, follows⟩
  | cons c text ih =>
    have other : c ≠ 0x08 := fun same => plain (same ▸ List.mem_cons_self)
    obtain ⟨t, run, follows'⟩ := putchar_follows follows other
    have fits : BackFits c s := fun back => absurd back other
    obtain ⟨u, runs', shows⟩ := ih (fun member => plain (List.mem_cons_of_mem c member)) follows' (runs.call fits run)
    rw [List.map_cons, List.reverse_cons, List.append_assoc]
    exact ⟨u, runs', shows⟩

/-- Thirty lines, an `a` on the next one, and a backspace. -/
theorem cursor_contained_iff_a :
    let s₀ : Console := ⟨fun _ => 0, 0, fun _ => 0, termAttr⟩
    let text : List Int32 := List.replicate 30 0x0A ++ [0x61]
    ∃ t s, bconClearScreen s₀ = .done () t ∧
      Runs bconPutchar BackFits t ((0x08, ()) :: (text.map fun c => (c, ())).reverse) s ∧
      (OnScreen s ∧ SameAround t.mem s.mem) ∧ ∀ c, Contained c s ↔ BackFits c s := by
  intro s₀ text
  obtain ⟨t, clear, -, -, rest⟩ := cursor_contained_iff s₀
  have cleared : Screen.Shows (⟨fun _ => s₀.blank, 0⟩ : Screen Glyph 80 25) (Text.empty : Text s₀.bconAttrs) :=
    Screen.shows_empty (by decide) _ (fun _ => rfl) rfl
  obtain ⟨t', clear', follows⟩ := (clearScreen_draws s₀).follows rfl cleared
  rw [clear, Outcome.done.injEq] at clear'
  obtain ⟨-, rfl⟩ := clear'
  have start : Runs bconPutchar BackFits t [] t := Runs.nil
  obtain ⟨u, runs, shows⟩ := text_runs text (by decide) follows start
  rw [List.append_nil] at runs
  have column : (text.foldl Text.send (Text.empty : Text s₀.bconAttrs)).col = 1 := by decide
  have fits : BackFits 0x08 u := by
    intro _ corner
    have place := shows.shows.cursor_col
    rw [corner, column] at place
    exact absurd place (by decide)
  obtain ⟨v, run, -⟩ := putchar_ends u (shows.shows.inside (by decide)) fits
  have runs' := runs.call fits run
  exact ⟨t, v, clear, runs', rest _ v runs'⟩

/-- A backspace after the screen was cleared. -/
theorem cursor_off_screen :
    let s₀ : Console := ⟨fun _ => 0, 0, fun _ => 0, termAttr⟩
    ∃ t s, bconClearScreen s₀ = .done () t ∧ Runs bconPutchar (fun _ _ => True) t [(0x08, ())] s ∧
      s.screen.cursor = 65535 ∧ ¬OnScreen s := by
  obtain ⟨t, clear, -, screen⟩ := clearScreen_draws ⟨fun _ => 0, 0, fun _ => 0, termAttr⟩
  have corner : t.screen.cursor = 0 := by rw [screen]
  obtain ⟨s, run, last⟩ := backspace_wraps t corner
  have start : Runs bconPutchar (fun _ _ => True) t [] t := Runs.nil
  have off : ¬OnScreen s := by
    rw [OnScreen, last]
    decide
  exact ⟨t, s, clear, start.call trivial run, last, off⟩

end Sos.Kernel
