import Sos.Efs.Integrity
import Sos.Efs.Names

/-! Base names of any length. Eleven bytes of a name are copied to the stack and to an entry, and
twelve are compared: of a longer name the twelfth is what the stack held. -/

namespace Sos.Efs
open Sos.Lib Sos.Lib.Bytes

/-- `writeefs` runs under names that are neither empty nor ".". -/
abbrev ProperRuns : Device → List (Command × CopyResult) → Device → Prop :=
  Runs Command.run fun c _ => c.name.Proper

/-- The name passed on depends on the base name only; a file that was made is found with its inode
as long as it is copied; and after any other runs a run on the same path has the same inode and
leaves the entries as they are. -/
structure Consistent (file : List UInt8) : Prop where
  name : ∀ s t : Name, (fileName s (baseName file)).str = (fileName t (baseName file)).str
  found : ∀ (stack : Name) (entries : Block) cnt d d₁, Steady entries cnt d →
    newFile (fileName stack (baseName file)) d = .done 0 d₁ → ∃ i, Takes (fileName stack (baseName file)) d i ∧
      ∀ results r e, copyLoop (fileName stack (baseName file)) results d₁ = .done r e →
        findFile (fileName stack (baseName file)) e = .done (some i) e
  again : ∀ (c : Command) (entries : Block) cnt d d₁ r e log e', c.file = file → Steady entries cnt d →
    newFile c.name d = .done 0 d₁ → c.run d = .done r e → ProperRuns e log e' → ∃ i, Takes c.name d i ∧
      ∀ c' : Command, c'.file = file → findFile c'.name e' = .done (some i) e' ∧
        ∃ r' e'', c'.run e' = .done r' e'' ∧ e''.data 0 = e'.data 0 ∧ (e''.inode 0).size = (e'.inode 0).size

theorem cstr_whole (n : Nat) (a : Nat → UInt8) (bytes : ∀ i, i < n → a i ≠ 0) : (cstr n a).length = n := by
  induction n generalizing a with
  | zero => rfl
  | succ n ih =>
    rw [cstr_succ, if_neg (bytes 0 (Nat.succ_pos n)), List.length_cons, ih _ fun i inside => bytes (i + 1) (by omega)]

section
variable {base : List UInt8} (text : 0 ∉ base) (long : 11 ≤ base.length) (stack : Name)
include text

/-- The first eleven bytes are those of the base name, and the last one is left as it was. -/
theorem byte_fileName (i : Nat) (inside : i < 12) :
    (fileName stack base).byte i = if i < 11 then base.getD i 0 else stack.byte i := by
  rw [fileName]
  split
  · rw [Buf.byte_blit_inside _ _ _ _ (by omega) (by omega) (by omega)]
    exact strncpy_text base text _
  · rw [Buf.byte_blit_outside _ _ _ _ (by omega)]

include long

/-- A long name is cut after eleven bytes if the twelfth happens to be zero. -/
theorem fileName_cut (ended : stack.byte 11 = 0) : (fileName stack base).str = base.take 11 := by
  have length : (base.take 11).length = 11 := List.length_take_of_le long
  refine cstr_eq 12 _ _ (by omega) (fun i inside => ?_) (fun member => text (List.mem_of_mem_take member)) ?_
  · rw [length] at inside
    rw [byte_fileName text stack i (by omega), if_pos inside, List.getD_eq_getElem _ _ (by omega),
      List.getD_eq_getElem _ _ (by omega), List.getElem_take]
  · rw [length, byte_fileName text stack 11 (by decide), if_neg (by decide), ended]

theorem fileName_whole (going : stack.byte 11 ≠ 0) : (fileName stack base).str.length = 12 := by
  refine cstr_whole 12 _ fun i inside => ?_
  rw [byte_fileName text stack i inside]
  split
  next early =>
    rw [List.getD_eq_getElem _ _ (by omega)]
    exact fun zero => text (zero ▸ List.getElem_mem _)
  next last =>
    have same : i = 11 := by omega
    rw [same]
    exact going

/-- The twelfth byte tells two names apart that were one. -/
theorem not_consistent_long {file : List UInt8} (same : baseName file = base) : ¬Consistent file := by
  intro consistent
  subst same
  have equal := congrArg List.length (consistent.name Buf.zero fun _ => 1)
  rw [fileName_cut text long _ rfl, fileName_whole text long _ (by decide), List.length_take] at equal
  omega

end

theorem Created.keeps {d d' : Device} {filename : Name} {i : UInt32} (c : Created d d' filename i)
    {s : List UInt8} (nonempty : s ≠ []) (short : s.length ≤ 10) {j : UInt32} (found : d.lookup s = some j) :
    d'.lookup s = some j := by
  by_cases same : s = filename.str.take 11
  · have whole : filename.str = s := by
      rw [same, List.length_take] at short
      rw [same, List.take_of_length_le (by omega)]
    have listed := c.listed (by rw [whole]; omega)
    rw [whole] at listed
    rcases c.origin with old | ⟨missing, -⟩
    · rw [whole, found] at old
      rw [listed, old]
    · rw [whole, found] at missing
      cases missing
  · rw [c.kept s nonempty same, found]

namespace Steady
variable {entries : Block} {cnt : Nat} {d : Device} (steady : Steady entries cnt d)
include steady

/-- A run on a file that is listed leaves the entries as they are. -/
theorem run_again {c : Command} (proper : c.name.Proper) {i : UInt32} (found : d.lookup c.name.str = some i) :
    ∃ r e, c.run d = .done r e ∧ Steady entries cnt e := by
  have f := steady.formatted
  have dir := steady.directory
  have created := created_found dir proper f found
  have made := newFile_found f.rooted dir c.name proper found
  have later := created.steady (directory_found dir proper found) steady
  rw [Device.data_putInode _ _ _ _ created.file.2, steady.entries] at later
  rw [Command.run, writeefs_formatted f]
  cases opened : c.reads with
  | none => exact ⟨_, _, readWrite_unopened made, later⟩
  | some results =>
    obtain ⟨r, e, run, last⟩ := later.copyLoop proper results
    exact ⟨r, e, (readWrite_created made results).trans run, last⟩

end Steady

/-- A short name keeps its inode, whatever the other runs are. -/
theorem ProperRuns.lookup {d e : Device} {log : List (Command × CopyResult)} (runs : ProperRuns d log e)
    {cnt : Nat} (steady : Steady (d.data 0) cnt d) {s : List UInt8} (nonempty : s ≠ []) (short : s.length ≤ 10)
    {i : UInt32} (found : d.lookup s = some i) : ∃ cnt', Steady (e.data 0) cnt' e ∧ e.lookup s = some i := by
  refine runs.invariant (fun _ e => ∃ cnt', Steady (e.data 0) cnt' e ∧ e.lookup s = some i) ⟨cnt, steady, found⟩ ?_
  rintro log d₀ c r e ⟨cnt₀, steady₀, found₀⟩ proper run
  rcases steady₀.run proper with ⟨-, refused⟩ | ⟨d₁, j, cnt', r', e', -, -, created, run', later⟩
  · rw [refused, Outcome.done.injEq] at run
    obtain ⟨-, rfl⟩ := run
    exact ⟨cnt₀, steady₀, found₀⟩
  · rw [run', Outcome.done.injEq] at run
    obtain ⟨-, rfl⟩ := run
    refine ⟨cnt', by rw [later.entries]; exact later, ?_⟩
    rw [Device.lookup_congr later.entries, created.keeps nonempty short found₀]

theorem consistent_short {file : List UInt8} (short : ShortName (baseName file)) : Consistent file where
  name := by
    intro s t
    rw [short.str s, short.str t]
  found := by
    intro stack entries cnt d d₁ steady made
    have proper := short.proper stack
    have upper := short.upper
    rcases steady.newFile proper with refused | ⟨d', i, cnt', made', takes, c, later, -⟩
    · rw [made] at refused
      cases refused
    · rw [made, Outcome.done.injEq] at made'
      obtain ⟨-, rfl⟩ := made'
      refine ⟨i, takes, fun results r e run => ?_⟩
      obtain ⟨r', e', run', last⟩ := later.copyLoop proper results
      rw [run, Outcome.done.injEq] at run'
      obtain ⟨-, rfl⟩ := run'
      rw [findFile_done last.formatted.rooted last.directory, later.lookup last,
        c.listed (by rw [short.str]; omega)]
  again := by
    rintro c entries cnt d d₁ r e log e' rfl steady made run runs
    have str : ∀ c' : Command, c'.file = c.file → c'.name.str = baseName c.file := by
      intro c' same
      rw [Command.name, same, short.str]
    have upper := short.upper
    rcases steady.run (short.proper c.stack) with ⟨refused, -⟩ | ⟨d', i, cnt', r', e₁, made', takes, created, run', later⟩
    · rw [made] at refused
      cases refused
    · rw [made, Outcome.done.injEq] at made'
      obtain ⟨-, rfl⟩ := made'
      rw [run, Outcome.done.injEq] at run'
      obtain ⟨-, rfl⟩ := run'
      have listed := created.listed (by rw [str c rfl]; omega)
      rw [str c rfl] at listed
      obtain ⟨cnt₂, steady₂, found₂⟩ := ProperRuns.lookup runs (by rw [later.entries]; exact later) short.nonempty upper
        ((Device.lookup_congr later.entries _).trans listed)
      refine ⟨i, takes, fun c' same => ?_⟩
      have found : e'.lookup c'.name.str = some i := by rw [str c' same, found₂]
      have proper : c'.name.Proper := by
        rw [Name.Proper, str c' same]
        exact ⟨short.nonempty, short.root⟩
      obtain ⟨r'', e'', run'', last⟩ := steady₂.run_again proper found
      refine ⟨by rw [findFile_done steady₂.formatted.rooted steady₂.directory, found], r'', e'', run'', last.entries, ?_⟩
      rw [← UInt32.toNat_inj, last.directory.size, steady₂.directory.size]

/-- Names are handled consistently if and only if they have at most ten bytes. -/
theorem consistent_iff {file : List UInt8} (text : 0 ∉ baseName file) (nonempty : baseName file ≠ [])
    (other : baseName file ≠ [0x2E]) : Consistent file ↔ (baseName file).length ≤ 10 := by
  constructor
  · intro consistent
    by_contra long
    exact not_consistent_long text (by omega) rfl consistent
  · intro short
    exact consistent_short ⟨List.length_pos_iff.mpr nonempty, short, text, other⟩

theorem consistent_iff_a : Consistent [0x61] ↔ (baseName [0x61]).length ≤ 10 :=
  consistent_iff (by decide) (by decide) (by decide)

/-- A name of eleven bytes on a stack of ones: the file is made, and is not found afterwards. -/
theorem newFile_not_found : ∃ d, newFile (fileName (fun _ => 1) (List.replicate 11 0x61)) (freshImage 1440 floppy) =
      .done 0 d ∧
    findFile (fileName (fun _ => 1) (List.replicate 11 0x61)) d = .done none d ∧ ¬Consistent (List.replicate 11 0x61) := by
  have str : (fileName (fun _ => 1) (List.replicate 11 0x61)).str = List.replicate 11 0x61 ++ [1] := by decide
  have proper : (fileName (fun _ => 1) (List.replicate 11 0x61)).Proper := by
    rw [Name.Proper, str]
    decide
  have dir := directory_freshImage 1440 floppy
  have first : ∃ d, newFile (fileName (fun _ => 1) (List.replicate 11 0x61)) (freshImage 1440 floppy) = .done 0 d ∧
      Created (freshImage 1440 floppy) d (fileName (fun _ => 1) (List.replicate 11 0x61)) 1 :=
    newFile_freshImage (by decide) (by decide) (by decide) proper
  obtain ⟨d, made, -⟩ := first
  rcases newFile_cases formatted_floppy dir proper with ⟨-, refused⟩ | ⟨d', i, cnt, made', c, dir'⟩
  · rw [made] at refused
    cases refused
  rw [made, Outcome.done.injEq] at made'
  obtain ⟨-, rfl⟩ := made'
  refine ⟨d, made, ?_, not_consistent_long (by decide) (by decide) rfl⟩
  rw [findFile_done c.formatted.rooted dir', c.kept _ proper.1 (cut_ne (by rw [str]; decide)),
    dir.lookup_only proper.1 proper.2]

end Sos.Efs
