import Sos.Kernel.Bcon

/-! Strings that end with NUL, their comparison, and the table of consoles that is searched with it. -/

namespace Sos.Kernel
open Sos.Lib

/-- The characters of a string before its NUL. -/
@[ext] structure CString where
  chars : List Int8
  plain : 0 ∉ chars

/-- What a `char *` to the start of the string leads to: an empty list is behind the NUL. -/
def CString.bytes (s : CString) : List Int8 := s.chars ++ [0]

/-- No result: a byte behind a NUL was read. -/
def kstrcmp : List Int8 → List Int8 → Option Int32
  | [], _ => none
  | x :: a, b =>
    if x ≠ 0 then
      match b with
      | [] => none
      | y :: b =>
        if x < y then some (-1)
        else if y < x then some 1
        else kstrcmp a b
    else some 0

/-- A console of the table: its name, `write` and `priority`. -/
structure ConsoleEntry where
  name : CString
  write : List Int8 → Prog Console Unit
  priority : Int32

/-- `bcon_write` takes its bytes without a sign. -/
def unsignedChar (c : Int8) : Int32 := c.toUInt8.toUInt32.toInt32

def bconWrite (buff : List Int8) : Prog Console Unit := putAll (buff.map unsignedChar)

/-- "bconsole". -/
def bconName : CString where
  chars := [98, 99, 111, 110, 115, 111, 108, 101]
  plain := by decide

/-- The consoles before the entry without a name. -/
def contab : List ConsoleEntry := [⟨bconName, bconWrite, 1⟩]

/-- The search from an entry of the table on. -/
def getConsole (name : List Int8) : List ConsoleEntry → Option (Option ConsoleEntry)
  | [] => some none
  | p :: rest => do
    if (← kstrcmp name p.name.bytes) = 0 then return some p
    getConsole name rest

/-- The second list has more behind the first one. -/
def Continues (a b : List Int8) : Prop := ∃ c rest, b = a ++ c :: rest

/-- The result tells the lexicographic order. -/
structure TellsOrder (a b : List Int8) : Prop where
  equal : kstrcmp (a ++ [0]) (b ++ [0]) = some 0 ↔ a = b
  before : kstrcmp (a ++ [0]) (b ++ [0]) = some (-1) ↔ a < b
  after : kstrcmp (a ++ [0]) (b ++ [0]) = some 1 ↔ b < a

/-- The first string does not end within the second one, and where the second one ends within the
first, the character there is more than its NUL. -/
def EndsTold (a b : List Int8) : Prop := ¬Continues a b ∧ ∀ c rest, a = b ++ c :: rest → 0 < c

/-- The other order of the arguments gives the opposite result. -/
def Opposite (a b : List Int8) : Prop := ∃ r, kstrcmp (a ++ [0]) (b ++ [0]) = some r ∧
  kstrcmp (b ++ [0]) (a ++ [0]) = some (-r)

section
variable {x y : Int8} {a b c : List Int8} {r : Int32}

theorem plain_cons (plain : 0 ∉ x :: a) : x ≠ 0 ∧ 0 ∉ a := by
  rw [List.mem_cons, not_or] at plain
  exact ⟨Ne.symm plain.1, plain.2⟩

theorem kstrcmp_nul (b : List Int8) : kstrcmp (0 :: a) b = some 0 := if_neg (not_not.mpr rfl)

theorem kstrcmp_cons (nonzero : x ≠ 0) : kstrcmp (x :: a) (y :: b) =
    if x < y then some (-1) else if y < x then some 1 else kstrcmp a b := if_pos nonzero

theorem kstrcmp_less (nonzero : x ≠ 0) (less : x < y) : kstrcmp (x :: a) (y :: b) = some (-1) := by
  rw [kstrcmp_cons nonzero, if_pos less]

theorem kstrcmp_greater (nonzero : x ≠ 0) (greater : y < x) : kstrcmp (x :: a) (y :: b) = some 1 := by
  rw [kstrcmp_cons nonzero, if_neg (Int8.lt_asymm greater), if_pos greater]

theorem kstrcmp_same (nonzero : x ≠ 0) : kstrcmp (x :: a) (x :: b) = kstrcmp a b := by
  rw [kstrcmp_cons nonzero, if_neg Int8.lt_irrefl, if_neg Int8.lt_irrefl]

/-- The three ways two characters can compare. -/
theorem char_order (x y : Int8) : x < y ∨ x = y ∨ y < x := by
  rw [Int8.lt_iff_toInt_lt, Int8.lt_iff_toInt_lt, ← Int8.toInt_inj]
  omega

/-- All that a round of the loop can do. -/
theorem of_kstrcmp (nonzero : x ≠ 0) (result : kstrcmp (x :: a) b = some r) : ∃ y b', b = y :: b' ∧
    (x < y ∧ r = -1 ∨ x = y ∧ kstrcmp a b' = some r ∨ y < x ∧ r = 1) := by
  cases b with
  | nil => cases result.symm.trans (if_pos nonzero)
  | cons y b =>
    refine ⟨y, b, rfl, ?_⟩
    rcases char_order x y with less | same | greater
    · rw [kstrcmp_less nonzero less, Option.some.injEq] at result
      exact Or.inl ⟨less, result.symm⟩
    · subst same
      rw [kstrcmp_same nonzero] at result
      exact Or.inr (Or.inl ⟨rfl, result⟩)
    · rw [kstrcmp_greater nonzero greater, Option.some.injEq] at result
      exact Or.inr (Or.inr ⟨greater, result.symm⟩)

/-- A result other than zero is not from the end of the first string. -/
theorem nonzero_of_kstrcmp (result : kstrcmp (x :: a) b = some r) (differ : r ≠ 0) : x ≠ 0 := by
  rintro rfl
  rw [kstrcmp_nul, Option.some.injEq] at result
  exact differ result.symm

/-- Each of the three results is passed on. -/
theorem kstrcmp_trans (first : kstrcmp a b = some r) (second : kstrcmp b c = some r) :
    kstrcmp a c = some r := by
  induction a generalizing b c with
  | nil => cases first
  | cons x a ih =>
    by_cases nul : x = 0
    · subst nul
      rw [kstrcmp_nul] at first ⊢
      exact first
    rcases of_kstrcmp nul first with ⟨y, b, rfl, ⟨less, rfl⟩ | ⟨rfl, rest⟩ | ⟨greater, rfl⟩⟩
    · have nonzero := nonzero_of_kstrcmp second (by decide)
      rcases of_kstrcmp nonzero second with ⟨z, c, rfl, ⟨less', -⟩ | ⟨rfl, -⟩ | ⟨-, wrong⟩⟩
      · exact kstrcmp_less nul (Int8.lt_trans less less')
      · exact kstrcmp_less nul less
      · exact absurd wrong (by decide)
    · rcases of_kstrcmp nul second with ⟨z, c, rfl, ⟨less, rfl⟩ | ⟨rfl, rest'⟩ | ⟨greater, rfl⟩⟩
      · exact kstrcmp_less nul less
      · rw [kstrcmp_same nul]
        exact ih rest rest'
      · exact kstrcmp_greater nul greater
    · have nonzero := nonzero_of_kstrcmp second (by decide)
      rcases of_kstrcmp nonzero second with ⟨z, c, rfl, ⟨-, wrong⟩ | ⟨rfl, -⟩ | ⟨greater', -⟩⟩
      · exact absurd wrong (by decide)
      · exact kstrcmp_greater nul greater
      · exact kstrcmp_greater nul (Int8.lt_trans greater' greater)

/-! What two strings begin with alike has no say. -/

theorem continues_cons : Continues (x :: a) (x :: b) ↔ Continues a b := by
  simp [Continues]

theorem tellsOrder_cons (nonzero : x ≠ 0) : TellsOrder (x :: a) (x :: b) ↔ TellsOrder a b := by
  have run : kstrcmp ((x :: a) ++ [0]) ((x :: b) ++ [0]) = kstrcmp (a ++ [0]) (b ++ [0]) := kstrcmp_same nonzero
  have less (a b : List Int8) : x :: a < x :: b ↔ a < b := by
    rw [List.cons_lt_cons_iff]
    simp
  constructor
  · rintro ⟨equal, before, after⟩
    rw [run] at equal before after
    exact ⟨equal.trans (by simp), before.trans (less a b), after.trans (less b a)⟩
  · rintro ⟨equal, before, after⟩
    rw [← run] at equal before after
    exact ⟨equal.trans (by simp), before.trans (less a b).symm, after.trans (less b a).symm⟩

theorem endsTold_cons : EndsTold (x :: a) (x :: b) ↔ EndsTold a b := by
  simp [EndsTold, continues_cons]

theorem opposite_cons (nonzero : x ≠ 0) : Opposite (x :: a) (x :: b) ↔ Opposite a b := by
  have run (a b : List Int8) : kstrcmp ((x :: a) ++ [0]) ((x :: b) ++ [0]) = kstrcmp (a ++ [0]) (b ++ [0]) :=
    kstrcmp_same nonzero
  unfold Opposite
  rw [run a b, run b a]

/-! Two strings that begin differently. -/

theorem continues_differ (differ : x ≠ y) : ¬Continues (x :: a) (y :: b) := by
  rintro ⟨c, rest, split⟩
  exact differ (List.cons.inj split).1.symm

theorem tellsOrder_differ (nonzero : x ≠ 0) (differ : x ≠ y) : TellsOrder (x :: a) (y :: b) := by
  have unlike : x :: a ≠ y :: b := fun same => differ (List.cons.inj same).1
  have less : x :: a < y :: b ↔ x < y := by simp [List.cons_lt_cons_iff, differ]
  have greater : y :: b < x :: a ↔ y < x := by simp [List.cons_lt_cons_iff, differ.symm]
  have result : kstrcmp ((x :: a) ++ [0]) ((y :: b) ++ [0]) = if x < y then some (-1) else some 1 := by
    rcases char_order x y with below | same | above
    · rw [if_pos below]
      exact kstrcmp_less nonzero below
    · exact absurd same differ
    · rw [if_neg (Int8.lt_asymm above)]
      exact kstrcmp_greater nonzero above
  have other : ¬x < y ↔ y < x := by
    rw [Int8.not_lt, Int8.le_iff_lt_or_eq]
    exact or_iff_left differ.symm
  constructor
  · rw [result]
    exact iff_of_false (by split <;> decide) unlike
  · rw [result, less]
    by_cases below : x < y
    · simp [below]
    · simp [below]
  · rw [result, greater, ← other]
    by_cases below : x < y
    · simp [below]
    · simp [below]

theorem endsTold_differ (differ : x ≠ y) : EndsTold (x :: a) (y :: b) := by
  refine ⟨continues_differ differ, fun c rest split => ?_⟩
  exact absurd (List.cons.inj split).1 differ

/-! One of the strings is empty. -/

theorem continues_end (a : List Int8) : ¬Continues a [] := by
  rintro ⟨c, rest, split⟩
  cases a with
  | nil => cases split
  | cons x a => cases split

theorem kstrcmp_empty (b : List Int8) : kstrcmp ([] ++ [0]) b = some 0 := kstrcmp_nul b

theorem kstrcmp_ended (nonzero : x ≠ 0) :
    kstrcmp ((x :: a) ++ [0]) ([] ++ [0]) = if 0 < x then some 1 else some (-1) := by
  rcases char_order x 0 with below | same | above
  · rw [if_neg (Int8.lt_asymm below)]
    exact kstrcmp_less nonzero below
  · exact absurd same nonzero
  · rw [if_pos above]
    exact kstrcmp_greater nonzero above

theorem tellsOrder_empty : TellsOrder [] b ↔ b = [] := by
  constructor
  · rintro ⟨equal, -, -⟩
    exact (equal.mp (kstrcmp_empty _)).symm
  · rintro rfl
    have never : ¬([] : List Int8) < [] := List.not_lt_nil []
    exact ⟨iff_of_true (kstrcmp_empty _) rfl, iff_of_false (by decide) never, iff_of_false (by decide) never⟩

theorem endsTold_empty : EndsTold [] b ↔ b = [] := by
  cases b with
  | nil =>
    refine iff_of_true ⟨continues_end [], fun c rest split => ?_⟩ rfl
    cases split
  | cons y b => exact iff_of_false (fun told => told.1 ⟨y, b, rfl⟩) (List.cons_ne_nil y b)

theorem tellsOrder_ended (nonzero : x ≠ 0) : TellsOrder (x :: a) [] ↔ 0 < x := by
  have result := kstrcmp_ended (a := a) nonzero
  have greater : ([] : List Int8) < x :: a := List.nil_lt_cons x a
  constructor
  · rintro ⟨-, -, after⟩
    by_contra small
    rw [result, if_neg small] at after
    exact absurd (after.mpr greater) (by decide)
  · intro positive
    rw [if_pos positive] at result
    constructor
    · rw [result]
      exact iff_of_false (by decide) (List.cons_ne_nil x a)
    · rw [result]
      exact iff_of_false (by decide) (List.not_lt_nil (x :: a))
    · exact iff_of_true result greater

theorem endsTold_ended : EndsTold (x :: a) [] ↔ 0 < x := by
  constructor
  · rintro ⟨-, positive⟩
    exact positive x a rfl
  · intro positive
    refine ⟨continues_end _, fun c rest split => ?_⟩
    rw [(List.cons.inj split).1] at positive
    exact positive

theorem tellsOrder_iff (plain : 0 ∉ a) : TellsOrder a b ↔ EndsTold a b := by
  induction a generalizing b with
  | nil => rw [tellsOrder_empty, endsTold_empty]
  | cons x a ih =>
    obtain ⟨nonzero, rest⟩ := plain_cons plain
    cases b with
    | nil => rw [tellsOrder_ended nonzero, endsTold_ended]
    | cons y b =>
      by_cases same : x = y
      · subst same
        rw [tellsOrder_cons nonzero, endsTold_cons]
        exact ih rest
      · exact iff_of_true (tellsOrder_differ nonzero same) (endsTold_differ same)

/-- The empty string is taken for equal to any other, which is not so the other way. -/
theorem opposite_empty (plain : 0 ∉ b) : Opposite [] b ↔ b = [] := by
  constructor
  · rintro ⟨r, forth, back⟩
    rw [kstrcmp_empty, Option.some.injEq] at forth
    subst forth
    cases b with
    | nil => rfl
    | cons y b =>
      rw [kstrcmp_ended (plain_cons plain).1] at back
      split at back
      · exact absurd back (by decide)
      · exact absurd back (by decide)
  · rintro rfl
    exact ⟨0, rfl, rfl⟩

theorem Opposite.symm (opposite : Opposite a b) : Opposite b a := by
  obtain ⟨r, forth, back⟩ := opposite
  refine ⟨-r, back, ?_⟩
  rw [forth, Int32.neg_neg]

theorem opposite_iff (plain : 0 ∉ a) (plain' : 0 ∉ b) : Opposite a b ↔ ¬Continues a b ∧ ¬Continues b a := by
  induction a generalizing b with
  | nil =>
    rw [opposite_empty plain']
    cases b with
    | nil => exact iff_of_true rfl ⟨continues_end [], continues_end []⟩
    | cons y b => exact iff_of_false (List.cons_ne_nil y b) fun neither => neither.1 ⟨y, b, rfl⟩
  | cons x a ih =>
    obtain ⟨nonzero, rest⟩ := plain_cons plain
    cases b with
    | nil =>
      refine iff_of_false (fun opposite => ?_) fun neither => neither.2 ⟨x, a, rfl⟩
      cases (opposite_empty plain).mp opposite.symm
    | cons y b =>
      obtain ⟨nonzero', rest'⟩ := plain_cons plain'
      by_cases same : x = y
      · subst same
        rw [opposite_cons nonzero, continues_cons, continues_cons]
        exact ih rest rest'
      · refine iff_of_true ?_ ⟨continues_differ same, continues_differ (Ne.symm same)⟩
        rcases char_order x y with less | same | greater
        · exact ⟨-1, kstrcmp_less nonzero less, kstrcmp_greater nonzero' less⟩
        · contradiction
        · exact ⟨1, kstrcmp_greater nonzero greater, kstrcmp_less nonzero' greater⟩

/-- Zero is returned for a prefix. -/
theorem kstrcmp_zero_iff (plain : 0 ∉ a) : kstrcmp (a ++ [0]) (b ++ [0]) = some 0 ↔ a = b ∨ Continues a b := by
  induction a generalizing b with
  | nil =>
    refine iff_of_true (kstrcmp_empty _) ?_
    cases b with
    | nil => exact Or.inl rfl
    | cons y b => exact Or.inr ⟨y, b, rfl⟩
  | cons x a ih =>
    obtain ⟨nonzero, rest⟩ := plain_cons plain
    cases b with
    | nil =>
      refine iff_of_false (fun zero => ?_) (not_or.mpr ⟨List.cons_ne_nil x a, continues_end _⟩)
      rw [kstrcmp_ended nonzero] at zero
      split at zero
      · exact absurd zero (by decide)
      · exact absurd zero (by decide)
    | cons y b =>
      by_cases same : x = y
      · subst same
        rw [continues_cons, List.cons.injEq, and_iff_right rfl, ← ih rest]
        exact Eq.congr_left (kstrcmp_same nonzero)
      · have unlike : x :: a ≠ y :: b := fun whole => same (List.cons.inj whole).1
        refine iff_of_false (fun zero => ?_) (not_or.mpr ⟨unlike, continues_differ same⟩)
        exact unlike ((tellsOrder_differ nonzero same).equal.mp zero)

end

/-- The only console is returned when the comparison with its name gives zero. -/
theorem getConsole_some (name : CString) (p : ConsoleEntry) : getConsole name.bytes contab = some (some p) ↔
    kstrcmp name.bytes bconName.bytes = some 0 ∧ p = ⟨bconName, bconWrite, 1⟩ := by
  cases result : kstrcmp name.bytes bconName.bytes with
  | none => simp [getConsole, contab, result]
  | some r =>
    by_cases zero : r = 0
    · simp [getConsole, contab, result, zero, eq_comm]
    · simp [getConsole, contab, result, zero]

/-- Only a proper prefix of the name of the console finds it under another name. -/
theorem getConsole_iff (name : CString) : (∀ p, getConsole name.bytes contab = some (some p) → p.name = name) ↔
    ¬Continues name.chars bconName.chars := by
  have zero := kstrcmp_zero_iff (b := bconName.chars) name.plain
  constructor
  · intro named continues
    have same : bconName = name := named _ ((getConsole_some name _).mpr ⟨zero.mpr (Or.inr continues), rfl⟩)
    obtain ⟨c, rest, split⟩ := continues
    rw [same] at split
    exact absurd split (by simp)
  · intro whole p found
    obtain ⟨result, rfl⟩ := (getConsole_some name p).mp found
    exact CString.ext ((zero.mp result).resolve_right whole).symm

/-- The result of a comparison tells the order if and only if the first string does not end within
the second one, and the second one does not end before a character that is less than NUL. It has
the opposite result the other way if and only if neither ends within the other. Every result is
passed on; and a console is found under its own name alone, but for the proper prefixes of it. -/
theorem kstrcmp_tells_iff (a b c name : CString) :
    (TellsOrder a.chars b.chars ↔ EndsTold a.chars b.chars) ∧
    (Opposite a.chars b.chars ↔ ¬Continues a.chars b.chars ∧ ¬Continues b.chars a.chars) ∧
    (∀ r, kstrcmp a.bytes b.bytes = some r → kstrcmp b.bytes c.bytes = some r →
      kstrcmp a.bytes c.bytes = some r) ∧
    ((∀ p, getConsole name.bytes contab = some (some p) → p.name = name) ↔
      ¬Continues name.chars bconName.chars) :=
  ⟨tellsOrder_iff a.plain, opposite_iff a.plain b.plain, fun _ => kstrcmp_trans, getConsole_iff name⟩

/-- "a" and "ab" compare as equal, which they are not, and "b" finds "bconsole". -/
theorem kstrcmp_prefix_equal : kstrcmp [97, 0] [97, 98, 0] = some 0 ∧ ¬TellsOrder [97] [97, 98] ∧
    ∃ p, getConsole [98, 0] contab = some (some p) ∧ p.name.chars ≠ [98] := by
  refine ⟨by decide, fun tells => ?_, ⟨bconName, bconWrite, 1⟩, rfl, by decide⟩
  exact absurd (tells.equal.mp (by decide)) (by decide)

end Sos.Kernel
