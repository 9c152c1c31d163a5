import Sos.Kernel.BconTail
import Sos.Kernel.Itoa

/-! The text that `kprintf` makes of its format and arguments. -/

namespace Sos.Kernel
open Sos.Lib

/-- What a format is made of: a character, or a `%` with the character behind it. -/
inductive Piece where
  | char (c : Int8)
  | conversion (c : Int8)
deriving DecidableEq

namespace Piece

def spell : Piece → List Int8
  | char c => [c]
  | conversion c => [0x25, c]

/-- No piece begins with the `%` that comes last, or is the backslash of an escape. -/
def parse : List Int8 → Option (List Piece)
  | [] => some []
  | [c] => if c = 0x25 then none else some [char c]
  | c :: d :: p =>
    if c = 0x25 then (parse p).map (conversion d :: ·)
    else if c = 0x5C ∧ d = 0x25 then none
    else (parse (d :: p)).map (char c :: ·)

/-- What is printed for an argument, without the letters that `convert` does not know. -/
def converted (args : Arguments) (c : Int8) (word : UInt32) : List Int8 :=
  if c = 0x63 then [word.toInt32.toInt8]
  else if c = 0x73 then (args.text word).chars
  else if c = 0x64 then numeral Radix.decimal.digit 10 word.toNat
  else if c = 0x78 then numeral Radix.lowercase.digit 16 word.toNat
  else if c = 0x58 then numeral Radix.uppercase.digit 16 word.toNat
  else if c = 0x6F then numeral Radix.octal.digit 8 word.toNat
  else []

/-- The text of the pieces, with the arguments from the `n`th on. -/
def render (args : Arguments) : ℕ → List Piece → List Int8
  | _, [] => []
  | n, char c :: pieces => c :: render args n pieces
  | n, conversion c :: pieces =>
    if Conversion c then converted args c (args.word n) ++ render args (n + 1) pieces
    else render args n pieces

/-- The pieces spell the format. -/
theorem spell_parse {p : List Int8} {pieces : List Piece} (parsed : parse p = some pieces) :
    pieces.flatMap spell = p := by
  fun_induction parse p generalizing pieces with
  | case1 =>
    cases parsed
    rfl
  | case2 => cases parsed
  | case3 =>
    cases parsed
    rfl
  | case4 d p ih =>
    obtain ⟨rest, parsed', rfl⟩ := Option.map_eq_some_iff.mp parsed
    rw [List.flatMap_cons, ih parsed']
    rfl
  | case5 => cases parsed
  | case6 c d p other single ih =>
    obtain ⟨rest, parsed', rfl⟩ := Option.map_eq_some_iff.mp parsed
    rw [List.flatMap_cons, ih parsed']
    rfl

/-- The regular formats are those that have pieces. -/
theorem parse_isSome (p : List Int8) : (parse p).isSome ↔ Regular p := by
  fun_induction parse p with
  | case1 => exact iff_of_true rfl trivial
  | case2 => exact iff_of_false Bool.false_ne_true fun regular => regular rfl
  | case3 c other => exact iff_of_true rfl other
  | case4 d p ih => rwa [Option.isSome_map]
  | case5 c d p other escape =>
    rw [Regular, if_neg other]
    exact iff_of_false Bool.false_ne_true fun regular => regular.1 escape
  | case6 c d p other single ih =>
    rw [Option.isSome_map, ih, Regular, if_neg other, and_iff_right single]

end Piece

/-- What writing the text to `cur_con` makes of the console. -/
def Shown (curCon : Option { p : ConsoleEntry // p ∈ contab }) (text : List Int8) (c d : Console) : Prop :=
  match curCon with
  | none => d = c
  | some p => p.val.write text c = .done () d

/-- The routine takes `n` arguments and writes the text, and does nothing else. -/
def Prints (f : Prog Printing Unit) (s : Printing) (text : List Int8) (n : ℕ) : Prop :=
  ∃ d, Shown s.curCon text s.console d ∧ f s = .done () { s with console := d, argument := s.argument + n }

theorem putAll_append (text more : List Int32) (c : Console) :
    putAll (text ++ more) c = (putAll text >>= fun _ => putAll more) c := by
  induction text generalizing c with
  | nil => rfl
  | cons x text ih =>
    obtain ⟨⟨⟩, d, run⟩ := bconPutchar_returns x c
    change (bconPutchar x >>= fun _ => putAll (text ++ more)) c = _
    rw [Prog.bind_done _ run, ih]
    obtain ⟨⟨⟩, e, run'⟩ := putAll_returns text d
    have both : putAll (x :: text) c = .done () e := by rw [putAll, Prog.bind_done _ run, run']
    rw [Prog.bind_done _ run', Prog.bind_done _ both]

section
variable {curCon : Option { p : ConsoleEntry // p ∈ contab }} {text more : List Int8} {c d e : Console}

theorem shown_some (p : { p : ConsoleEntry // p ∈ contab }) :
    Shown (some p) text c d ↔ putAll (text.map unsignedChar) c = .done () d := by
  have only : p.val = ⟨bconName, bconWrite, 1⟩ := List.mem_singleton.mp p.property
  rw [Shown, only]
  rfl

theorem Shown.nil : Shown curCon [] c c := by
  cases curCon with
  | none => rfl
  | some p => exact (shown_some p).mpr rfl

theorem Shown.unique (shown : Shown curCon text c d) (again : Shown curCon text c e) : d = e := by
  cases curCon with
  | none => exact Eq.trans shown (Eq.symm again)
  | some p =>
    have run := (shown_some p).mp shown
    rw [(shown_some p).mp again, Outcome.done.injEq] at run
    exact run.2.symm

theorem Shown.append (first : Shown curCon text c d) (rest : Shown curCon more d e) :
    Shown curCon (text ++ more) c e := by
  cases curCon with
  | none => exact Eq.trans rest first
  | some p =>
    apply (shown_some p).mpr
    rw [List.map_append, putAll_append, Prog.bind_done _ ((shown_some p).mp first)]
    exact (shown_some p).mp rest

end

namespace Prints
variable {f g : Prog Printing Unit} {s : Printing} {text more : List Int8} {m n : ℕ}

theorem pure : Prints (Pure.pure ()) s [] 0 := ⟨s.console, Shown.nil, rfl⟩

theorem of_eq (prints : Prints g s text n) (same : f s = g s) : Prints f s text n := by
  obtain ⟨d, shown, run⟩ := prints
  exact ⟨d, shown, same.trans run⟩

theorem bind (first : Prints f s text m)
    (rest : ∀ d, Prints g { s with console := d, argument := s.argument + m } more n) :
    Prints (f >>= fun _ => g) s (text ++ more) (m + n) := by
  obtain ⟨d, shown, run⟩ := first
  obtain ⟨e, shown', run'⟩ := rest d
  refine ⟨e, shown.append shown', ?_⟩
  rw [Prog.bind_done _ run, run']
  dsimp only
  rw [Nat.add_assoc]

/-- What follows without arguments of its own. -/
theorem followed (first : Prints f s text 0) (rest : ∀ d, Prints g { s with console := d } more n) :
    Prints (f >>= fun _ => g) s (text ++ more) n := by
  have both := first.bind rest
  rwa [Nat.zero_add] at both

end Prints

section
variable (s : Printing)

theorem putchar_prints (c : Int32) : Prints (putchar c) s [c.toInt8] 0 := by
  obtain ⟨console, curCon, argument⟩ := s
  cases curCon with
  | none => exact ⟨console, rfl, rfl⟩
  | some p =>
    obtain ⟨⟨⟩, d, run⟩ := putAll_returns ([c.toInt8].map unsignedChar) console
    have shown : Shown (some p) [c.toInt8] console d := (shown_some p).mpr run
    have write : p.val.write [c.toInt8] console = .done () d := shown
    refine ⟨d, shown, ?_⟩
    change Prog.zoom Printing.console (fun s console => { s with console }) (p.val.write [c.toInt8])
      ⟨console, some p, argument⟩ = _
    exact Prog.zoom_done write

theorem char_prints (c : Int8) : Prints (putchar c.toInt32) s [c] 0 := by
  have prints := putchar_prints s c.toInt32
  rwa [Int8.toInt8_toInt32] at prints

theorem putBuff_prints (buff : List Int8) : Prints (putBuff buff) s buff 0 := by
  induction buff generalizing s with
  | nil => exact Prints.pure
  | cons c buff ih => exact (char_prints s c).followed fun d => ih _

theorem puts_prints {chars : List Int8} (plain : 0 ∉ chars) : Prints (puts (chars ++ [0])) s chars 0 := by
  induction chars generalizing s with
  | nil => exact Prints.pure
  | cons c chars ih =>
    obtain ⟨nonzero, rest⟩ := plain_cons plain
    have round : puts (c :: (chars ++ [0])) = putchar c.toInt32 >>= fun _ => puts (chars ++ [0]) := if_pos nonzero
    rw [List.cons_append, round]
    exact (char_prints s c).followed fun d => ih _ rest

theorem itoa_prints (radix : Radix) (i : UInt32) :
    Prints (itoa i radix.base radix.flags) s (numeral radix.digit radix.base.toNat i.toNat) 0 := by
  have fits : i.toNat < radix.base.toNat ^ itoaBuffLen := lt_of_lt_of_le i.toNat_lt (base_pow_room radix)
  have digits : itoaDigits radix.base radix.flags itoaBuffLen i [] s = _ := itoaDigits_numeral radix 19 i [] s fits
  rw [List.append_nil] at digits
  obtain ⟨d, shown, run⟩ := putBuff_prints s (numeral radix.digit radix.base.toNat i.toNat)
  refine ⟨d, shown, ?_⟩
  rw [itoa, Prog.bind_done _ digits, run]

variable (args : Arguments)

theorem nextArgument_prints {f : UInt32 → Prog Printing Unit} {text : List Int8}
    (prints : ∀ s', Prints (f (args.word s.argument)) s' text 0) : Prints (nextArgument args >>= f) s text 1 := by
  obtain ⟨d, shown, run⟩ := prints { s with argument := s.argument + 1 }
  exact ⟨d, shown, run⟩

theorem number_prints (radix : Radix) : Prints (convert args radix.letter) s
    (Piece.converted args radix.letter (args.word s.argument)) 1 := by
  have text : Piece.converted args radix.letter (args.word s.argument) =
      numeral radix.digit radix.base.toNat (args.word s.argument).toNat := by cases radix <;> rfl
  rw [convert_number, text]
  exact nextArgument_prints s args fun s' => itoa_prints s' radix _

theorem convert_prints (c : Int8) : Prints (convert args c) s
    (Piece.converted args c (args.word s.argument)) (if Conversion c then 1 else 0) := by
  by_cases conversion : Conversion c
  · rw [if_pos conversion]
    simp only [Conversion, List.mem_cons, List.not_mem_nil, or_false] at conversion
    rcases conversion with rfl | rfl | rfl | rfl | rfl | rfl
    · exact nextArgument_prints s args fun s' => putchar_prints s' _
    · exact nextArgument_prints s args fun s' => puts_prints s' (args.text _).plain
    · exact number_prints s args Radix.decimal
    · exact number_prints s args Radix.lowercase
    · exact number_prints s args Radix.uppercase
    · exact number_prints s args Radix.octal
  · rw [if_neg conversion]
    simp only [Conversion, List.mem_cons, List.not_mem_nil, or_false, not_or] at conversion
    obtain ⟨char, string, decimal, lower, upper, octal⟩ := conversion
    rw [convert, if_neg char, if_neg string, if_neg decimal, if_neg lower, if_neg upper, if_neg octal]
    rw [Piece.converted, if_neg char, if_neg string, if_neg decimal, if_neg lower, if_neg upper, if_neg octal]
    exact Prints.pure

theorem render_conversion (c : Int8) (n : ℕ) (pieces : List Piece) :
    Piece.render args n (.conversion c :: pieces) = Piece.converted args c (args.word n) ++
      Piece.render args (n + if Conversion c then 1 else 0) pieces := by
  rw [Piece.render]
  by_cases conversion : Conversion c
  · rw [if_pos conversion, if_pos conversion]
  · rw [if_neg conversion, if_neg conversion]
    simp only [Conversion, List.mem_cons, List.not_mem_nil, or_false, not_or] at conversion
    obtain ⟨char, string, decimal, lower, upper, octal⟩ := conversion
    rw [Piece.converted, if_neg char, if_neg string, if_neg decimal, if_neg lower, if_neg upper, if_neg octal]
    rfl

/-- A round of the loop for each piece, and one for the NUL. -/
theorem kprintf_prints {p : List Int8} {pieces : List Piece} (parsed : Piece.parse p = some pieces) (plain : 0 ∉ p)
    {fuel : ℕ} (enough : pieces.length < fuel) : Prints (kprintf args fuel (p ++ [0])) s
      (Piece.render args s.argument pieces) (conversions p) := by
  fun_induction Piece.parse p generalizing pieces s fuel with
  | case1 =>
    cases parsed
    obtain ⟨k, rfl⟩ := Nat.exists_eq_add_one_of_ne_zero (Nat.ne_of_gt enough)
    exact Prints.pure
  | case2 => cases parsed
  | case3 c other =>
    cases parsed
    obtain ⟨nonzero, -⟩ := plain_cons plain
    obtain ⟨k, rfl⟩ : ∃ k, fuel = k + 2 := ⟨fuel - 2, by change 1 < fuel at enough; omega⟩
    have round := kprintf_plain args (d := 0) (p := []) (k + 1) s nonzero other (by simp)
    exact ((char_prints s c).followed fun d => Prints.pure).of_eq round
  | case4 d p ih =>
    obtain ⟨rest, parsed', rfl⟩ := Option.map_eq_some_iff.mp parsed
    obtain ⟨-, plain'⟩ := plain_cons (plain_cons plain).2
    obtain ⟨k, rfl⟩ : ∃ k, fuel = k + 1 := ⟨fuel - 1, by omega⟩
    have more : rest.length < k := Nat.lt_of_succ_lt_succ enough
    have after (c : Console) : Prints (kprintf args k (p ++ [0]))
        { s with console := c, argument := s.argument + if Conversion d then 1 else 0 } _ (conversions p) :=
      ih _ parsed' plain' more
    rw [render_conversion, conversions, if_pos rfl]
    exact ((convert_prints s args d).bind after).of_eq (kprintf_percent args k s)
  | case5 => cases parsed
  | case6 c d p other single ih =>
    obtain ⟨rest, parsed', rfl⟩ := Option.map_eq_some_iff.mp parsed
    obtain ⟨nonzero, plain'⟩ := plain_cons plain
    obtain ⟨k, rfl⟩ : ∃ k, fuel = k + 1 := ⟨fuel - 1, by omega⟩
    have more : rest.length < k := Nat.lt_of_succ_lt_succ enough
    have after (e : Console) : Prints (kprintf args k (d :: p ++ [0])) { s with console := e } _ (conversions (d :: p)) :=
      ih _ parsed' plain' more
    rw [conversions, if_neg other, if_neg single]
    exact ((char_prints s c).followed after).of_eq (kprintf_plain args k s nonzero other single)

end

section
variable {curCon : Option { p : ConsoleEntry // p ∈ contab }} {text : List Int8} {c d : Console}

/-- On the screen the text follows what was there. -/
theorem Shown.follows {attrs : UInt16} {page : Text attrs} (shown : Shown curCon text c d) (bound : curCon.isSome)
    (follows : c.Follows page) (plain : 0x08 ∉ text.map unsignedChar) :
    d.Follows ((text.map unsignedChar).foldl Text.send page) := by
  obtain ⟨p, rfl⟩ := Option.isSome_iff_exists.mp bound
  obtain ⟨e, run, follows'⟩ := putAll_follows follows plain
  rw [(shown_some p).mp shown, Outcome.done.injEq] at run
  rw [run.2]
  exact follows'

end

/-- `kprintf` reads its format as pieces that spell it, and comes to its end if and only if there are such pieces.
Then it writes the text of the pieces to the console, and does nothing else but to take their arguments: on the
screen the text follows what was there. -/
theorem kprintf_renders (args : Arguments) (format : CString) (s : Printing) :
    (Finishes args format.bytes s (s.argument + conversions format.chars) ↔ (Piece.parse format.chars).isSome) ∧
    ∀ pieces, Piece.parse format.chars = some pieces → pieces.flatMap Piece.spell = format.chars ∧
      ∃ d, Shown s.curCon (Piece.render args s.argument pieces) s.console d ∧
        (∀ fuel, pieces.length < fuel → kprintf args fuel format.bytes s =
          .done () { s with console := d, argument := s.argument + conversions format.chars }) ∧
        ∀ (attrs : UInt16) (page : Text attrs), s.curCon.isSome → s.console.Follows page →
          0x08 ∉ (Piece.render args s.argument pieces).map unsignedChar →
          d.Follows (((Piece.render args s.argument pieces).map unsignedChar).foldl Text.send page) := by
  refine ⟨(finishes_iff format.plain s).trans (Piece.parse_isSome _).symm, fun pieces parsed => ?_⟩
  obtain ⟨d, shown, -⟩ := kprintf_prints s args parsed format.plain (Nat.lt_succ_self pieces.length)
  refine ⟨Piece.spell_parse parsed, d, shown, fun fuel enough => ?_, fun attrs page bound follows plain => ?_⟩
  · obtain ⟨e, shown', run⟩ := kprintf_prints s args parsed format.plain enough
    rw [shown.unique shown']
    exact run
  · exact shown.follows bound follows plain

/-- `%d=%x` with 10 and 255, on a screen that was cleared. -/
theorem kprintf_renders_numbers :
    let args : Arguments := ⟨fun n => if n = 0 then 10 else 255, fun _ => ⟨[], List.not_mem_nil⟩⟩
    let bconsole : Option { p : ConsoleEntry // p ∈ contab } := some ⟨_, List.mem_singleton_self _⟩
    ∃ c d : Console, c.Follows (Text.empty : Text termAttr) ∧
      kprintf args 4 [0x25, 0x64, 0x3D, 0x25, 0x78, 0] ⟨c, bconsole, 0⟩ = .done () ⟨d, bconsole, 2⟩ ∧
      d.Follows ([0x31, 0x30, 0x3D, 0x66, 0x66].foldl Text.send (Text.empty : Text termAttr)) := by
  intro args bconsole
  obtain ⟨c, -, follows⟩ := (clearScreen_draws ⟨fun _ => 0, 0, fun _ => 0, termAttr⟩).follows rfl
    (Screen.shows_empty (by decide) _ (fun _ => rfl) rfl : Screen.Shows _ (Text.empty : Text termAttr))
  obtain ⟨-, prints⟩ := kprintf_renders args ⟨[0x25, 0x64, 0x3D, 0x25, 0x78], by decide⟩ ⟨c, bconsole, 0⟩
  obtain ⟨-, d, -, run, screen⟩ := prints [.conversion 0x64, .char 0x3D, .conversion 0x78] rfl
  have text : (Piece.render args 0 [.conversion 0x64, .char 0x3D, .conversion 0x78]).map unsignedChar =
      [0x31, 0x30, 0x3D, 0x66, 0x66] := by decide
  have shows := screen termAttr Text.empty rfl follows
  dsimp only at shows
  rw [text] at shows
  exact ⟨c, d, follows, run 4 (by decide), shows (by decide)⟩

end Sos.Kernel
