import Sos.Efs.Integrity
import Sos.Efs.Names

/-! The root directory under `new_file` calls with any names. "." and the empty name are found in
it too, and the number found with them is the directory's own. -/

namespace Sos.Efs
open Sos.Lib Sos.Lib.Bytes

/-- Inode 0 has not become smaller, and what was found, by any name but ".", is found as before. -/
structure RootKept (d e : Device) : Prop where
  size : (d.inode 0).size ≤ (e.inode 0).size
  found : ∀ (b : Name) i, b.str ≠ [0x2E] → findFile b d = .done (some i) d → findFile b e = .done (some i) e

def KeepsRoot (a : Name) (d : Device) : Prop := ∃ r e, newFile a d = .done r e ∧ RootKept d e

/-- The name is not "."; it is empty only where the directory has no slot left. -/
def Benign (a : Name) (d : Device) : Prop := a.str ≠ [0x2E] ∧ (a.str = [] → (d.inode 0).size = 1024)

/-- A new file would get the last slot of the directory. -/
def TakesLast (a : Name) (d : Device) : Prop :=
  (d.inode 0).size = 1008 ∧ findFile a d = .done none d ∧ ∃ m, m < 64 ∧ (d.inode m).refs = 0

/-- The images that `mkefs` makes, and what `new_file` calls and `writeefs` runs with benign names
make of them. -/
inductive Reached : Device → Prop
  | mkefs {blockCount : UInt32} {disk image : Device} (room : 6 ≤ disk.count)
      (made : mkefs blockCount disk = .done 0 image) : Reached image
  | newFile {d e : Device} {a : Name} {r : Int} (before : Reached d) (benign : Benign a d)
      (run : newFile a d = .done r e) : Reached e
  | writeefs {d e : Device} {c : Command} {r : CopyResult} (before : Reached d) (formatted : Formatted d)
      (benign : Benign c.name d) (run : c.run d = .done r e) : Reached e

/-- A root directory of `cnt` entries, on an image with or without a bitmap that fits. -/
structure RootSound (d : Device) (cnt : Nat) : Prop where
  rooted : Rooted d
  directory : Directory d cnt
  steady : Formatted d → Steady (d.data 0) cnt d

namespace RootKept
variable {d e f : Device}

theorem refl (d : Device) : RootKept d d := ⟨UInt32.le_refl _, fun _ _ _ found => found⟩

theorem trans (first : RootKept d e) (second : RootKept e f) : RootKept d f where
  size := UInt32.le_trans first.size second.size
  found := fun b i other found => second.found b i other (first.found b i other found)

end RootKept

namespace RootSound
variable {d : Device} {cnt : Nat} (sound : RootSound d cnt)
include sound

theorem found_iff {b : Name} {i : UInt32} : findFile b d = .done (some i) d ↔ d.lookup b.str = some i := by
  rw [findFile_done sound.rooted sound.directory, Outcome.done.injEq]
  exact and_iff_left rfl

theorem size_iff {n : Nat} (small : n ≤ 64) : (d.inode 0).size = UInt32.ofNat (16 * n) ↔ cnt = n := by
  have size := sound.directory.size
  rw [← UInt32.toNat_inj, size, UInt32.toNat_ofNat']
  omega

/-- Looking up is all that finding a file is. -/
theorem kept {e : Device} {cnt' : Nat} (later : RootSound e cnt') (grown : cnt ≤ cnt')
    (lookup : ∀ s i, s ≠ [0x2E] → d.lookup s = some i → e.lookup s = some i) : RootKept d e where
  size := by
    rw [UInt32.le_iff_toNat_le, sound.directory.size, later.directory.size]
    omega
  found := fun b i other found => later.found_iff.mpr (lookup b.str i other (sound.found_iff.mp found))

theorem proper_of_benign {a : Name} (benign : Benign a d) : a.Proper ∨ a.str = [] ∧ cnt = 64 := by
  by_cases empty : a.str = []
  · exact Or.inr ⟨empty, (sound.size_iff (n := 64) le_rfl).mp (benign.2 empty)⟩
  · exact Or.inl ⟨empty, benign.1⟩

/-- With all slots in use there is no inode left either. -/
theorem newFile_empty {a : Name} (empty : a.str = []) (whole : cnt = 64) : Efs.newFile a d = .done (-1) d := by
  have dir := sound.directory
  refine newFile_full sound.rooted dir a ?_ fun m upper unused => ?_
  · rw [empty, dir.lookup_empty, if_neg (by omega)]
  · have room := dir.not_full m upper unused
    omega

/-- A call with a benign name keeps what was found, unless the directory becomes full. -/
theorem newFile {a : Name} (benign : Benign a d) : ∃ r e cnt', Efs.newFile a d = .done r e ∧
    RootSound e cnt' ∧ (¬TakesLast a d → RootKept d e) := by
  have r := sound.rooted
  have dir := sound.directory
  rcases sound.proper_of_benign benign with proper | ⟨empty, whole⟩
  · rcases newFile_outcomes r dir proper with
      ⟨i, found, made⟩ | ⟨missing, ⟨-, refused⟩ | ⟨i, bound, unused, -, made⟩⟩
    · have upper := (dir.lookup_inode proper found).2.1
      have entries := Device.data_putInode d i.toNat { d.inode i.toNat with size := 0 } 0 upper
      have later : RootSound (d.putInode i.toNat { d.inode i.toNat with size := 0 }) cnt := by
        refine ⟨r.putInode _ _, directory_found dir proper found, fun f => ?_⟩
        have f₀ := f.congr (Device.sb_putInode _ _ _).symm rfl
        exact (created_found dir proper f₀ found).steady (directory_found dir proper found) (sound.steady f₀)
      refine ⟨0, _, cnt, made, later, fun _ => sound.kept later le_rfl fun s i _ found => ?_⟩
      rw [Device.lookup_congr entries, found]
    · exact ⟨-1, d, cnt, refused, sound, fun _ => .refl d⟩
    · have dir' := dir.directory_fresh unused bound proper
      have later : RootSound (d.fresh cnt a i) (cnt + 1) := by
        refine ⟨((r.putData _ _).putInode _ _).putInode _ _, dir', fun f => ?_⟩
        have f₀ := f.congr (e := d) (by simp [Device.fresh, Device.addEntry]) rfl
        exact (dir.created_fresh unused bound f₀ proper missing).steady dir' (sound.steady f₀)
      refine ⟨0, _, cnt + 1, made, later, fun spared => sound.kept later (Nat.le_succ cnt) ?_⟩
      intro s j _ found
      by_cases empty : s = []
      · subst empty
        have more : cnt + 1 < 64 := by
          by_contra last
          have room := dir.not_full i.toNat bound unused
          refine spared ⟨(sound.size_iff (n := 63) (by decide)).mpr (by omega), ?_, i.toNat, bound, unused⟩
          rw [findFile_done r dir, missing]
        rw [dir.lookup_empty, if_pos (by omega)] at found
        rw [dir'.lookup_empty, if_pos more, found]
      · rw [dir.lookup_fresh unused bound s empty, found, Option.some_or]
  · exact ⟨-1, d, cnt, sound.newFile_empty empty whole, sound, fun _ => .refl d⟩

/-- "." is found, and cut to size 0. -/
theorem cuts {a : Name} (found : d.lookup a.str = some 0) : ¬KeepsRoot a d := by
  rintro ⟨r, e, run, kept⟩
  rw [newFile_cut sound.rooted sound.directory a (by decide) found, Outcome.done.injEq] at run
  obtain ⟨-, rfl⟩ := run
  have size := kept.size
  rw [UInt32.le_iff_toNat_le, Device.inode_putInode, if_pos UInt32.toNat_zero.symm, sound.directory.size] at size
  change 16 * cnt ≤ 0 at size
  have first := sound.directory.first
  omega

/-- The empty name is found no more once the last slot is in use. -/
theorem loses_empty {a : Name} (last : TakesLast a d) : ¬KeepsRoot a d := by
  obtain ⟨size, search, free⟩ := last
  have dir := sound.directory
  obtain rfl : cnt = 63 := (sound.size_iff (n := 63) (by decide)).mp size
  have missing : d.lookup a.str = none := by
    rw [findFile_done sound.rooted dir, Outcome.done.injEq] at search
    exact search.1
  have proper : a.Proper := by
    constructor
    · intro empty
      rw [empty, dir.lookup_empty] at missing
      cases missing
    · intro root
      rw [root, dir.lookup_self] at missing
      cases missing
  have blank : Name.str Buf.zero = [] := rfl
  rintro ⟨r, e, run, kept⟩
  rcases newFile_outcomes sound.rooted dir proper with
    ⟨i, found, -⟩ | ⟨-, ⟨full, -⟩ | ⟨i, bound, unused, -, made⟩⟩
  · rw [missing] at found
    cases found
  · obtain ⟨m, inside, unused⟩ := free
    exact full m inside unused
  · rw [made, Outcome.done.injEq] at run
    obtain ⟨-, rfl⟩ := run
    have dir' := dir.directory_fresh unused bound proper
    have rooted : Rooted (d.fresh 63 a i) := ((sound.rooted.putData _ _).putInode _ _).putInode _ _
    have still := kept.found Buf.zero 0 (by decide) (by
      rw [findFile_done sound.rooted dir, blank, dir.lookup_empty, if_pos (by decide)])
    rw [findFile_done rooted dir', blank, dir'.lookup_empty, if_neg (by decide), Outcome.done.injEq] at still
    cases still.1

theorem keepsRoot_iff (a : Name) : KeepsRoot a d ↔ Benign a d ∧ ¬TakesLast a d := by
  constructor
  · intro keeps
    refine ⟨⟨fun root => ?_, fun empty => ?_⟩, fun last => sound.loses_empty last keeps⟩
    · exact sound.cuts (by rw [root, sound.directory.lookup_self]) keeps
    · have last := sound.directory.last
      by_contra room
      refine sound.cuts ?_ keeps
      have below : cnt ≠ 64 := fun full => room ((sound.size_iff (n := 64) le_rfl).mpr full)
      rw [empty, sound.directory.lookup_empty, if_pos (by omega)]
  · rintro ⟨benign, spared⟩
    obtain ⟨r, e, -, run, -, kept⟩ := sound.newFile benign
    exact ⟨r, e, run, kept spared⟩

end RootSound

theorem rootSound_freshImage (blockCount : UInt32) {disk : Device} (room : 6 ≤ disk.count) :
    RootSound (freshImage blockCount disk) 1 where
  rooted := rooted_freshImage room
  directory := directory_freshImage blockCount disk
  steady := by
    intro f
    refine ⟨f, directory_freshImage blockCount disk, rfl, by rw [bit_freshImage]; rfl, fun i inside => ?_⟩
    have absent : ((freshImage blockCount disk).inode i).indirectData = 0 := by
      rw [inode_freshImage _ _ _ inside]
      split <;> rfl
    rw [absent]
    exact f.root

theorem Reached.rootSound {d : Device} (reached : Reached d) : ∃ cnt, RootSound d cnt := by
  induction reached with
  | mkefs room made =>
    rw [mkefs_done room, Outcome.done.injEq] at made
    obtain ⟨-, rfl⟩ := made
    exact ⟨1, rootSound_freshImage _ room⟩
  | newFile before benign run ih =>
    obtain ⟨cnt, sound⟩ := ih
    obtain ⟨r, e, cnt', run', later, -⟩ := sound.newFile benign
    rw [run', Outcome.done.injEq] at run
    obtain ⟨-, rfl⟩ := run
    exact ⟨cnt', later⟩
  | writeefs before f benign run ih =>
    obtain ⟨cnt, sound⟩ := ih
    have steady := sound.steady f
    rcases sound.proper_of_benign benign with proper | ⟨empty, whole⟩
    · rcases steady.run proper with ⟨-, refused⟩ | ⟨d₁, i, cnt', r', e', -, -, -, run', later⟩
      · rw [refused, Outcome.done.injEq] at run
        obtain ⟨-, rfl⟩ := run
        exact ⟨cnt, sound⟩
      · rw [run', Outcome.done.injEq] at run
        obtain ⟨-, rfl⟩ := run
        refine ⟨cnt', later.formatted.rooted, later.directory, fun _ => ?_⟩
        rw [later.entries]
        exact later
    · rw [Command.run, writeefs_formatted f, readWrite_refused (sound.newFile_empty empty whole),
        Outcome.done.injEq] at run
      obtain ⟨-, rfl⟩ := run
      exact ⟨cnt, sound⟩

/-- As long as no name is "." and none is empty, unless the directory is full, no `new_file` call
cuts the root directory short; and nothing that was found is lost but the empty name. -/
theorem root_kept_iff {d : Device} (reached : Reached d) {log : List (Name × Int)} {e : Device}
    (runs : Runs newFile (fun a d => Benign a d ∧ ¬TakesLast a d) d log e) :
    RootKept d e ∧ ∀ a, KeepsRoot a e ↔ Benign a e ∧ ¬TakesLast a e := by
  have both : RootKept d e ∧ Reached e := by
    refine runs.invariant (fun _ e => RootKept d e ∧ Reached e) ⟨.refl d, reached⟩ ?_
    rintro log s a r t ⟨kept, before⟩ ⟨benign, spared⟩ run
    obtain ⟨cnt, sound⟩ := before.rootSound
    obtain ⟨r', t', run', still⟩ := (sound.keepsRoot_iff a).mpr ⟨benign, spared⟩
    have same := run'
    rw [run, Outcome.done.injEq] at same
    obtain ⟨-, rfl⟩ := same
    exact ⟨kept.trans still, before.newFile benign run⟩
  obtain ⟨cnt, sound⟩ := both.2.rootSound
  exact ⟨both.1, sound.keepsRoot_iff⟩

theorem reached_floppy : Reached (freshImage 1440 floppy) := .mkefs (by decide) (mkefs_done (by decide))

theorem root_kept_iff_floppy : RootKept (freshImage 1440 floppy) (freshImage 1440 floppy) ∧
    ∀ a, KeepsRoot a (freshImage 1440 floppy) ↔
      Benign a (freshImage 1440 floppy) ∧ ¬TakesLast a (freshImage 1440 floppy) :=
  root_kept_iff reached_floppy .nil

/-- `new_file` called for "." leaves a root directory of size 0. -/
theorem newFile_truncates_root : Reached (freshImage 1440 floppy) ∧
    (∃ e, newFile (fileName Buf.zero [0x2E]) (freshImage 1440 floppy) = .done 0 e ∧ (e.inode 0).size = 0) ∧
    ¬KeepsRoot (fileName Buf.zero [0x2E]) (freshImage 1440 floppy) := by
  have sound : RootSound (freshImage 1440 floppy) 1 := rootSound_freshImage 1440 (by decide)
  have str : (fileName Buf.zero [0x2E]).str = [0x2E] := fileName_str _ _ (by decide) (by decide)
  have found : (freshImage 1440 floppy).lookup (fileName Buf.zero [0x2E]).str = some 0 := by
    rw [str, sound.directory.lookup_self]
  refine ⟨reached_floppy, ⟨_, newFile_cut sound.rooted sound.directory _ (by decide) found, ?_⟩, sound.cuts found⟩
  rw [Device.inode_putInode, if_pos UInt32.toNat_zero.symm]

end Sos.Efs
