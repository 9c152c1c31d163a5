import Sos.Efs.Integrity
import Sos.Efs.Names

/-! The check of the ident bytes, with which `writeefs` begins. -/

namespace Sos.Efs
open Sos.Lib Sos.Lib.Bytes

/-- A foreign device is reported, with exit status 1, and left as it is; one with the ident bytes
passes the check. -/
structure Checks (c : Command) (d : Device) : Prop where
  foreign : d.sb.ident ≠ newSuperblock.ident → ∃ blocks, c.run d = .done ⟨1, blocks⟩ d
  own : d.sb.ident = newSuperblock.ident → validateEfs d = .done 0 d

/-- A copy reports nothing but its own success or failure. -/
theorem copyLoop_ret (fName : Name) (results : List ReadResult) :
    (copyLoop fName results).Yields fun r => r.ret ≠ 1 := by
  induction results with
  | nil => exact Prog.Yields.pure (by decide)
  | cons result results ih =>
    rw [copyLoop]
    refine Prog.Yields.ite (Prog.Yields.pure (by decide)) (Prog.Yields.bind fun copied => ?_)
    cases copied with
    | none => exact Prog.Yields.pure (by decide)
    | some block =>
      intro d r d' run
      obtain ⟨rest, d'', run', last⟩ := Prog.of_bind_done run
      cases last
      exact ih d rest _ run'

theorem readWrite_ret (stack : Name) (file : List UInt8) (reads : Option (List ReadResult)) :
    (readWrite stack file reads).Yields fun r => r.ret ≠ 1 := by
  refine Prog.Yields.bind fun made => Prog.Yields.ite (Prog.Yields.pure (by decide)) ?_
  cases reads with
  | none => exact Prog.Yields.pure (by decide)
  | some results => exact copyLoop_ret _ results

/-- No ident byte is the right one. -/
def AllDiffer (ident : Buf 4) : Prop :=
  ident.byte 0 ≠ 0xFF ∧ ident.byte 1 ≠ 0x45 ∧ ident.byte 2 ≠ 0x66 ∧ ident.byte 3 ≠ 0x53

instance (ident : Buf 4) : Decidable (AllDiffer ident) := inferInstanceAs (Decidable (_ ∧ _ ∧ _ ∧ _))

section
variable {d : Device} (some_ : 0 < d.count)
include some_

theorem validateEfs_done : validateEfs d = .done (if AllDiffer d.sb.ident then -1 else 0) d := by
  rw [validateEfs, Prog.bind_done _ (getSuperblock_some some_)]
  simp only
  by_cases all : AllDiffer d.sb.ident
  · rw [if_pos all]
    unfold AllDiffer at all
    rw [if_pos all]
    rfl
  · rw [if_neg all]
    unfold AllDiffer at all
    rw [if_neg all]
    rfl

/-- Where some ident bytes are right and some are not, the run goes on. -/
theorem not_checks_mixed {c : Command} (foreign : d.sb.ident ≠ newSuperblock.ident)
    (mixed : ¬AllDiffer d.sb.ident) : ¬Checks c d := by
  intro checks
  obtain ⟨blocks, run⟩ := checks.foreign foreign
  have valid := validateEfs_done some_
  rw [if_neg mixed] at valid
  rw [Command.run, writeefs, Prog.bind_done _ valid, if_neg (by decide)] at run
  exact readWrite_ret _ _ _ _ _ _ run rfl

/-- The check does what it should exactly where the ident bytes are all right or all wrong. -/
theorem writeefs_checks_iff (c : Command) :
    Checks c d ↔ d.sb.ident = newSuperblock.ident ∨ AllDiffer d.sb.ident := by
  have valid := validateEfs_done some_
  constructor
  · intro checks
    by_contra mixed
    rw [not_or] at mixed
    exact not_checks_mixed some_ mixed.1 mixed.2 checks
  · rintro (same | all)
    · have passed : validateEfs d = .done 0 d := by
        rw [valid, same, if_neg (by decide)]
      exact ⟨fun differ => absurd same differ, fun _ => passed⟩
    · rw [if_pos all] at valid
      refine ⟨fun _ => ⟨[], ?_⟩, fun same => ?_⟩
      · rw [Command.run, writeefs, Prog.bind_done _ valid, if_pos (by decide)]
        rfl
      · rw [same] at all
        exact absurd all (by decide)

end

theorem writeefs_checks_iff_floppy : Checks (touch [0x61]) floppy ↔
    floppy.sb.ident = newSuperblock.ident ∨ AllDiffer floppy.sb.ident :=
  writeefs_checks_iff (by decide) (touch [0x61])

/-- A disk of zeros, but for the first ident byte. -/
def foreignDisk : Device := floppy.put 0 ((Buf.zero : Block).blit bootcodeLen 1 fun _ => 0xFF)

/-- One right byte is enough to pass. -/
theorem writeefs_passes : foreignDisk.sb.ident ≠ newSuperblock.ident ∧
    validateEfs foreignDisk = .done 0 foreignDisk ∧ ¬Checks (touch [0x61]) foreignDisk := by
  have some_ : 0 < foreignDisk.count := by decide
  have first : foreignDisk.sb.ident.byte 0 = 0xFF := by decide
  have second : foreignDisk.sb.ident.byte 1 = 0 := by decide
  have foreign : foreignDisk.sb.ident ≠ newSuperblock.ident := by
    intro same
    rw [same] at second
    exact absurd second (by decide)
  have mixed : ¬AllDiffer foreignDisk.sb.ident := fun all => all.1 first
  refine ⟨foreign, ?_, not_checks_mixed some_ foreign mixed⟩
  rw [validateEfs_done some_, if_neg mixed]

end Sos.Efs
