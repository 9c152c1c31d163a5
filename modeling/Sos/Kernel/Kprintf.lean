import Sos.Kernel.Kstring

/-! The scan of `kprintf` over its format: where it ends, and the arguments that it takes. -/

namespace Sos.Kernel
open Sos.Lib

/-- The console that is printed on, `cur_con`, and how many arguments were fetched. -/
structure Printing where
  console : Console
  curCon : Option { p : ConsoleEntry // p ∈ contab }
  argument : Nat

/-- The words behind the format on the stack, and the string at an address. -/
structure Arguments where
  word : Nat → UInt32
  text : UInt32 → CString

def putchar (c : Int32) : Prog Printing Unit := fun s =>
  match s.curCon with
  | none => .done () s
  | some p => Prog.zoom Printing.console (fun s console => { s with console }) (p.val.write [c.toInt8]) s

def puts : List Int8 → Prog Printing Unit
  | [] => Prog.fault
  | c :: s =>
    if c ≠ 0 then do
      putchar c.toInt32
      puts s
    else return ()

def itoaBuffLen : Nat := 20

def itoaNull : UInt8 := 0x0

def itoaUppercase : UInt8 := 0x1

def itoaLowercase : UInt8 := 0x2

/-- " itoa buff overflow ". -/
def itoaOverflow : CString where
  chars := [32, 105, 116, 111, 97, 32, 98, 117, 102, 102, 32, 111, 118, 101, 114, 102, 108, 111, 119, 32]
  plain := by decide

/-- The character of the last digit. -/
def itoaDigit (i base : UInt32) (flags : UInt8) : Int8 :=
  let tmp := i % base + 0x30
  let tmp :=
    if tmp > 0x39 ∧ flags &&& itoaUppercase ≠ 0 then tmp + 7
    else if tmp > 0x39 ∧ flags &&& itoaLowercase ≠ 0 then tmp + 39
    else tmp
  tmp.toUInt8.toInt8

/-- The digits that fit in what is left of `reverse_buff`; the last one that is stored comes first. -/
def itoaDigits (base : UInt32) (flags : UInt8) : Nat → UInt32 → List Int8 → Prog Printing (List Int8)
  | 0, _, reverseBuff => do
    puts itoaOverflow.bytes
    return reverseBuff
  | room + 1, i, reverseBuff => do
    let reverseBuff := itoaDigit i base flags :: reverseBuff
    if i / base ≠ 0 then itoaDigits base flags room (i / base) reverseBuff
    else return reverseBuff

def putBuff : List Int8 → Prog Printing Unit
  | [] => return ()
  | c :: buff => do
    putchar c.toInt32
    putBuff buff

def itoa (i base : UInt32) (flags : UInt8) : Prog Printing Unit := do
  putBuff (← itoaDigits base flags itoaBuffLen i [])

/-- `*(argument++)`. -/
def nextArgument (args : Arguments) : Prog Printing UInt32 := fun s =>
  .done (args.word s.argument) { s with argument := s.argument + 1 }

/-- The letters `c`, `s`, `d`, `x`, `X` and `o` behind a `%`. -/
def convert (args : Arguments) (c : Int8) : Prog Printing Unit :=
  if c = 0x63 then do putchar (← nextArgument args).toInt32
  else if c = 0x73 then do puts (args.text (← nextArgument args)).bytes
  else if c = 0x64 then do itoa (← nextArgument args) 10 itoaNull
  else if c = 0x78 then do itoa (← nextArgument args) 16 itoaLowercase
  else if c = 0x58 then do itoa (← nextArgument args) 16 itoaUppercase
  else if c = 0x6F then do itoa (← nextArgument args) 8 itoaNull
  else return ()

/-- `*p`, which is to be a byte of the string. -/
def deref : List Int8 → Prog Printing Int8
  | [] => Prog.fault
  | c :: _ => return c

/-- `*p == '\\' && *(p+1) == '%'`. -/
def escaped (p : List Int8) : Prog Printing Bool := do
  if (← deref p) = 0x5C then return decide ((← deref p.tail) = 0x25)
  return false

/-- The loop of `kprintf` for a number of rounds, `p` being what is left of the format. -/
def kprintf (args : Arguments) : Nat → List Int8 → Prog Printing Unit
  | 0, _ => Prog.timeout
  | fuel + 1, p => do
    if (← deref p) = 0 then return ()
    else if (← deref p) = 0x25 then do
      convert args (← deref p.tail)
      kprintf args fuel p.tail.tail
    else if ← escaped p then do
      putchar 0x25
      kprintf args fuel p
    else do
      putchar (← deref p).toInt32
      kprintf args fuel p.tail

/-- The letters for which an argument is printed. -/
def Conversion (c : Int8) : Prop := c ∈ [0x63, 0x73, 0x64, 0x78, 0x58, 0x6F]

instance (c : Int8) : Decidable (Conversion c) := inferInstanceAs (Decidable (c ∈ _))

/-- The conversions that a format asks for. -/
def conversions : List Int8 → Nat
  | [] => 0
  | [_] => 0
  | c :: d :: p =>
    if c = 0x25 then (if Conversion d then 1 else 0) + conversions p
    else if c = 0x5C ∧ d = 0x25 then conversions p
    else conversions (d :: p)

/-- With every `%` the character behind it is taken. No `%` comes last, and none that is met is
behind a backslash. -/
def Regular : List Int8 → Prop
  | [] => True
  | [c] => c ≠ 0x25
  | c :: d :: p =>
    if c = 0x25 then Regular p
    else ¬(c = 0x5C ∧ d = 0x25) ∧ Regular (d :: p)

/-- From some number of rounds on the loop ends inside of the string, with as many arguments
fetched as this. -/
def Finishes (args : Arguments) (p : List Int8) (s : Printing) (argument : Nat) : Prop :=
  ∃ n, ∀ fuel, n ≤ fuel → ∃ t, kprintf args fuel p s = .done () t ∧ t.argument = argument

/-- The routine returns, with this many arguments fetched. -/
def Fetches {α : Type} (n : Nat) (f : Prog Printing α) : Prop :=
  ∀ s, ∃ a t, f s = .done a t ∧ t.argument = s.argument + n

section
variable {α β : Type} {m n : Nat}

theorem Fetches.pure (a : α) : Fetches 0 (Pure.pure a : Prog Printing α) := fun s => ⟨a, s, rfl, rfl⟩

theorem Fetches.bind {f : Prog Printing α} {g : α → Prog Printing β} (first : Fetches m f)
    (rest : ∀ a, Fetches n (g a)) : Fetches (m + n) (f >>= g) := by
  intro s
  obtain ⟨a, t, run, argument⟩ := first s
  obtain ⟨b, u, run', argument'⟩ := rest a t
  refine ⟨b, u, ?_, ?_⟩
  · rw [Prog.bind_done _ run, run']
  · rw [argument', argument, Nat.add_assoc]

theorem Fetches.ite {c : Prop} [Decidable c] {f g : Prog Printing α} (yes : Fetches n f) (no : Fetches n g) :
    Fetches n (if c then f else g) := by
  by_cases test : c
  · rwa [if_pos test]
  · rwa [if_neg test]

end

theorem putchar_fetches (c : Int32) : Fetches 0 (putchar c) := by
  intro s
  unfold putchar
  cases s.curCon with
  | none => exact ⟨(), s, rfl, rfl⟩
  | some p =>
    have only : p.val = ⟨bconName, bconWrite, 1⟩ := List.mem_singleton.mp p.property
    obtain ⟨⟨⟩, console, run⟩ := putAll_returns ([c.toInt8].map unsignedChar) s.console
    have write : p.val.write [c.toInt8] s.console = .done () console := by
      rw [only]
      exact run
    exact ⟨(), _, Prog.zoom_done write, rfl⟩

theorem puts_fetches (chars : List Int8) : Fetches 0 (puts (chars ++ [0])) := by
  induction chars with
  | nil => exact Fetches.pure ()
  | cons c chars ih => exact Fetches.ite ((putchar_fetches _).bind fun _ => ih) (Fetches.pure ())

theorem itoaDigits_fetches (base : UInt32) (flags : UInt8) (room : Nat) (i : UInt32) (buff : List Int8) :
    Fetches 0 (itoaDigits base flags room i buff) := by
  induction room generalizing i buff with
  | zero => exact (puts_fetches itoaOverflow.chars).bind fun _ => Fetches.pure _
  | succ room ih => exact Fetches.ite (ih _ _) (Fetches.pure _)

theorem putBuff_fetches (buff : List Int8) : Fetches 0 (putBuff buff) := by
  induction buff with
  | nil => exact Fetches.pure ()
  | cons c buff ih => exact (putchar_fetches _).bind fun _ => ih

theorem itoa_fetches (i base : UInt32) (flags : UInt8) : Fetches 0 (itoa i base flags) :=
  (itoaDigits_fetches _ _ _ _ _).bind fun _ => putBuff_fetches _

section
variable (args : Arguments)

theorem nextArgument_fetches : Fetches 1 (nextArgument args) := by
  intro s
  exact ⟨args.word s.argument, { s with argument := s.argument + 1 }, rfl, rfl⟩

/-- A conversion takes one argument, and nothing else does. -/
theorem convert_fetches (d : Int8) : Fetches (if Conversion d then 1 else 0) (convert args d) := by
  by_cases conversion : Conversion d
  · rw [if_pos conversion]
    have one {f : UInt32 → Prog Printing Unit} (rest : ∀ a, Fetches 0 (f a)) : Fetches 1 (nextArgument args >>= f) :=
      (nextArgument_fetches args).bind rest
    simp only [Conversion, List.mem_cons, List.not_mem_nil, or_false] at conversion
    rcases conversion with rfl | rfl | rfl | rfl | rfl | rfl
    · exact one fun _ => putchar_fetches _
    · exact one fun _ => puts_fetches _
    · exact one fun _ => itoa_fetches _ _ _
    · exact one fun _ => itoa_fetches _ _ _
    · exact one fun _ => itoa_fetches _ _ _
    · exact one fun _ => itoa_fetches _ _ _
  · rw [if_neg conversion]
    simp only [Conversion, List.mem_cons, List.not_mem_nil, or_false, not_or] at conversion
    obtain ⟨char, string, decimal, lower, upper, octal⟩ := conversion
    rw [convert, if_neg char, if_neg string, if_neg decimal, if_neg lower, if_neg upper, if_neg octal]
    exact Fetches.pure ()

/-! The rounds of the loop. -/

variable {c d : Int8} {p : List Int8} (fuel : Nat) (s : Printing)

theorem kprintf_percent : kprintf args (fuel + 1) (0x25 :: d :: p) s =
    (convert args d >>= fun _ => kprintf args fuel p) s := rfl

theorem kprintf_escape : kprintf args (fuel + 1) (0x5C :: 0x25 :: p) s =
    (putchar 0x25 >>= fun _ => kprintf args fuel (0x5C :: 0x25 :: p)) s := rfl

theorem escaped_run : escaped (c :: d :: p) s = .done (decide (c = 0x5C ∧ d = 0x25)) s := by
  by_cases backslash : c = 0x5C
  · subst backslash
    simp [escaped, deref]
  · simp [escaped, deref, backslash]

theorem kprintf_plain (nonzero : c ≠ 0) (other : c ≠ 0x25) (single : ¬(c = 0x5C ∧ d = 0x25)) :
    kprintf args (fuel + 1) (c :: d :: p) s = (putchar c.toInt32 >>= fun _ => kprintf args fuel (d :: p)) s := by
  have here : deref (c :: d :: p) s = .done c s := rfl
  have look : escaped (c :: d :: p) s = .done false s := by rw [escaped_run, decide_eq_false single]
  rw [kprintf, Prog.bind_done _ here, if_neg nonzero, Prog.bind_done _ here, if_neg other, Prog.bind_done _ look]
  rfl

/-- Behind the NUL the loop does not return. -/
theorem kprintf_behind (t : Printing) : kprintf args fuel [] s ≠ .done () t := by
  intro run
  cases fuel with
  | zero => cases run
  | succ fuel => cases run

/-- At a backslash and a `%` the loop stays where it is. -/
theorem kprintf_stuck : kprintf args fuel (0x5C :: 0x25 :: p) s = .timeout := by
  induction fuel generalizing s with
  | zero => rfl
  | succ fuel ih =>
    obtain ⟨⟨⟩, t, run, -⟩ := putchar_fetches 0x25 s
    rw [kprintf_escape, Prog.bind_done _ run, ih t]

end

section
variable {args : Arguments} {p q : List Int8} {n : Nat} {f : Prog Printing Unit}

/-- The loop ends as it does after the round. -/
theorem Finishes.round (fetches : Fetches n f)
    (round : ∀ fuel s, kprintf args (fuel + 1) q s = (f >>= fun _ => kprintf args fuel p) s) (s : Printing) :
    ∃ t, t.argument = s.argument + n ∧ ∀ k, Finishes args q s k ↔ Finishes args p t k := by
  obtain ⟨⟨⟩, t, run, argument⟩ := fetches s
  have next : ∀ fuel, kprintf args (fuel + 1) q s = kprintf args fuel p t := by
    intro fuel
    rw [round, Prog.bind_done _ run]
  refine ⟨t, argument, fun k => ⟨?_, ?_⟩⟩
  · rintro ⟨n, ends⟩
    refine ⟨n, fun fuel enough => ?_⟩
    rw [← next]
    exact ends (fuel + 1) (by omega)
  · rintro ⟨n, ends⟩
    refine ⟨n + 1, fun fuel enough => ?_⟩
    obtain ⟨fuel, rfl⟩ : ∃ m, fuel = m + 1 := ⟨fuel - 1, by omega⟩
    rw [next]
    exact ends fuel (by omega)

theorem finishes_end (s : Printing) : Finishes args [0] s s.argument := by
  refine ⟨1, fun fuel enough => ?_⟩
  obtain ⟨fuel, rfl⟩ : ∃ m, fuel = m + 1 := ⟨fuel - 1, by omega⟩
  exact ⟨s, rfl, rfl⟩

/-- An ordinary character is passed over. -/
theorem Finishes.plain {c d : Int8} (nonzero : c ≠ 0) (other : c ≠ 0x25) (single : ¬(c = 0x5C ∧ d = 0x25))
    (s : Printing) : ∃ t, t.argument = s.argument ∧
      ∀ k, Finishes args (c :: d :: p) s k ↔ Finishes args (d :: p) t k :=
  Finishes.round (putchar_fetches _) (fun fuel s => kprintf_plain args fuel s nonzero other single) s

theorem finishes_iff (plain : 0 ∉ p) (s : Printing) :
    Finishes args (p ++ [0]) s (s.argument + conversions p) ↔ Regular p := by
  fun_induction conversions p generalizing s with
  | case1 => exact iff_of_true (finishes_end s) trivial
  | case2 c =>
    obtain ⟨nonzero, -⟩ := plain_cons plain
    by_cases percent : c = 0x25
    · -- The round steps over the NUL.
      subst percent
      refine iff_of_false ?_ (fun regular => regular rfl)
      obtain ⟨t, -, next⟩ := Finishes.round (convert_fetches args 0) (kprintf_percent args) s
      rintro finishes
      obtain ⟨n, ends⟩ := (next _).mp finishes
      obtain ⟨u, run, -⟩ := ends n (Nat.le_refl n)
      exact kprintf_behind args n t u run
    · obtain ⟨t, argument, next⟩ := Finishes.plain (d := 0) (p := []) nonzero percent (by simp) s
      refine iff_of_true ((next _).mpr ?_) percent
      rw [← argument]
      exact finishes_end t
  | case3 d p ih =>
    obtain ⟨-, rest⟩ := plain_cons (plain_cons plain).2
    obtain ⟨t, argument, next⟩ := Finishes.round (convert_fetches args d) (kprintf_percent args) s
    rw [← Nat.add_assoc, ← argument]
    exact (next _).trans (ih rest t)
  | case4 c d p other escape ih =>
    obtain ⟨rfl, rfl⟩ := escape
    refine iff_of_false ?_ (fun regular => regular.1 ⟨rfl, rfl⟩)
    rintro ⟨n, ends⟩
    obtain ⟨t, run, -⟩ := ends n (Nat.le_refl n)
    cases (kprintf_stuck args n s).symm.trans run
  | case5 c d p other single ih =>
    obtain ⟨nonzero, rest⟩ := plain_cons plain
    obtain ⟨t, argument, next⟩ := Finishes.plain (p := p ++ [0]) nonzero other single s
    rw [Regular, if_neg other, and_iff_right single, ← argument]
    exact (next _).trans (ih rest t)

end

/-- `kprintf` ends inside its format with one argument fetched for each conversion, if and only if
the format is regular. -/
theorem kprintf_inside_iff (args : Arguments) (format : CString) (s : Printing) :
    Finishes args format.bytes s (s.argument + conversions format.chars) ↔ Regular format.chars :=
  finishes_iff format.plain s

/-- With the format `\\%` the loop never ends, and with `%` it reads the byte behind the NUL. -/
theorem kprintf_escape_loops :
    let args : Arguments := ⟨fun _ => 0, fun _ => ⟨[], List.not_mem_nil⟩⟩
    let s : Printing := ⟨⟨fun _ => 0, 0, fun _ => 0, termAttr⟩, none, 0⟩
    (∀ fuel, kprintf args fuel [0x5C, 0x25, 0] s = .timeout) ∧ kprintf args 2 [0x25, 0] s = .fault ∧
      ¬Finishes args [0x5C, 0x25, 0] s 0 ∧ ¬Finishes args [0x25, 0] s 0 := by
  intro args s
  have regular (p : List Int8) (plain : 0 ∉ p) : Finishes args (p ++ [0]) s (0 + conversions p) → Regular p :=
    (finishes_iff plain s).mp
  refine ⟨fun fuel => kprintf_stuck args fuel s, rfl, fun finishes => ?_, fun finishes => ?_⟩
  · exact (regular [0x5C, 0x25] (by decide) finishes).1 ⟨rfl, rfl⟩
  · exact regular [0x25] (by decide) finishes rfl

end Sos.Kernel
