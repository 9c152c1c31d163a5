import Sos.Efs.Integrity

/-! Marked blocks without an owner: what a round, a loop and a truncation do to them. -/

namespace Sos.Efs
open Sos.Lib Sos.Lib.Bytes

/-- Every marked block has an owner. -/
def Accounted (d : Device) : Prop :=
  ∀ m : UInt32, m.toNat < d.sb.dataCount.toNat → checkBlock m d = .done 1 d →
    ∃ a : Ref, a.Live d ∧ a.target d = m.toNat

/-- Block `m` is marked for nobody. -/
def Device.Lost (d : Device) (m : Nat) : Prop :=
  d.bit m = true ∧ ∀ a : Ref, a.Live d → a.target d ≠ m

theorem accounted_iff {d : Device} (f : Formatted d) :
    Accounted d ↔ ∀ m, m < d.dataCount → ¬d.Lost m := by
  have bound := f.dataCount
  have mark : ∀ m : UInt32, m.toNat < d.dataCount →
      (checkBlock m d = .done 1 d ↔ d.bit m.toNat = true) := by
    intro m inside
    rw [checkBlock_done f.some_ m (inside.trans_le f.dataCount)]
    cases d.bit m.toNat <;> simp
  constructor
  · intro accounted m inside lost
    have number : (UInt32.ofNat m).toNat = m := by
      rw [UInt32.toNat_ofNat']
      omega
    obtain ⟨a, live, target⟩ := accounted (UInt32.ofNat m) (by rwa [number])
      ((mark _ (by rwa [number])).mpr (by rw [number]; exact lost.1))
    rw [number] at target
    exact lost.2 a live target
  · intro none m inside marked
    by_contra nobody
    exact none m.toNat inside
      ⟨(mark m inside).mp marked, fun a live target => nobody ⟨a, live, target⟩⟩

/-- A lone block is not enough where an indirect block is needed as well, and no pointer
is recorded past the 257th block. -/
def Fits (free : Nat) (indirect : UInt32) (n : Nat) : Prop :=
  ¬(indirect = 0 ∧ 6 ≤ n ∧ free = 6) ∧ (n ≤ 257 ∨ free ≤ 257 + if indirect = 0 then 1 else 0)

theorem Device.freeCount_one {d : Device} {b : UInt32} (bound : b.toNat < 3936)
    (inside : b.toNat < d.dataCount) (free : d.bit b.toNat = false) (full : (d.mark b).Full) :
    d.freeCount = 1 := by
  rw [freeCount, Finset.card_eq_one]
  refine ⟨b.toNat, ?_⟩
  ext m
  simp only [Finset.mem_filter, Finset.mem_range, Finset.mem_singleton]
  constructor
  · rintro ⟨below, unmarked⟩
    have marked := full m (by simpa [dataCount] using below)
    rw [bit_mark _ _ _ bound, unmarked] at marked
    simpa using marked
  · rintro rfl
    exact ⟨inside, free⟩

/-- A round loses nothing. -/
theorem Grown.not_lost {d d' : Device} {i k : Nat} {b : UInt32} {t : Option UInt32} {buff : Block}
    {len : Nat} (g : Grown d d' i k b t buff len) (own : Owned d) (positive : 0 < len)
    (bound : len ≤ 1024) {m : Nat} (kept : ¬d.Lost m) : ¬d'.Lost m := by
  rintro ⟨marked, nobody⟩
  rcases (g.bits m).mp marked with old | new | ⟨x, taken, value⟩
  · refine kept ⟨old, fun a live => ?_⟩
    rw [← g.target_live own a live]
    exact nobody a (g.live_mono positive bound a live)
  · refine nobody (.slot i k) ⟨g.file.1, g.file.2, ?_⟩ ?_
    · rw [g.blocks_after positive bound]
      omega
    · rw [new, ← g.ptr]
      rfl
  · obtain ⟨high, _, indirect, _⟩ := g.taken x taken
    refine nobody (.indirect i) ⟨g.file.2, g.used high⟩ ?_
    rw [value, ← indirect]
    rfl

theorem Grown.lost {d d' : Device} {i k : Nat} {b : UInt32} {t : Option UInt32} {buff : Block}
    {len : Nat} (g : Grown d d' i k b t buff len) (own : Owned d) (positive : 0 < len)
    (bound : len ≤ 1024) {m : Nat} (lost : d.Lost m) : d'.Lost m := by
  refine ⟨(g.bits m).mpr (Or.inl lost.1), ?_⟩
  intro a live target
  rcases g.live_cases positive bound a live with old | new
  · rw [g.target_live own a old] at target
    exact lost.2 a old target
  · obtain ⟨v, value, _, free, _⟩ := g.target_new a new
    rw [← value, target, lost.1] at free
    cases free

namespace Copying
variable {i k : Nat} {d d' : Device} {chunks : List Chunk} {r : CopyResult}

/-- The loop loses nothing when it does not stop halfway through a block. -/
theorem not_lost (copying : Copying i k d chunks r d') (file : 1 ≤ i ∧ i < 64) (sound : Sound d)
    (referenced : (d.inode i).refs ≠ 0) (blocks : d.blocks i = k)
    (fits : (d.inode i).indirectData = 0 → 6 ≤ k + chunks.length → k ≤ 5 → k + d.freeCount ≠ 6)
    {m : Nat} (kept : ¬d.Lost m) : ¬d'.Lost m := by
  induction copying with
  | finished => exact kept
  | full => exact kept
  | stuck k d c cs b inside free full high absent =>
    exfalso
    have low : k ≤ 5 := by
      by_contra more
      exact sound.owned.indirect i file.1 file.2 (by omega) absent
    have count := d.freeCount_one (by have := sound.formatted.dataCount; omega) inside free full
    exact fits absent (by simp; omega) low (by omega)
  | round k d d1 d2 c cs b t r grown direct some_ rest ih =>
    have bound := c.property
    apply ih (grown.sound sound referenced direct some_ bound) (by rw [grown.refs]; exact referenced)
      (grown.blocks_after some_ bound) ?_ (grown.not_lost sound.owned some_ bound kept)
    intro absent more low
    have count := grown.freeCount
    have plain : t = none := by
      cases taken : t with
      | none => rfl
      | some x =>
        have high := (grown.taken x taken).1
        omega
    rw [if_pos plain] at count
    rw [grown.kept plain] at absent
    have fits := fits absent (by rw [List.length_cons]; omega) (by omega)
    omega

theorem lost (copying : Copying i k d chunks r d') (sound : Sound d)
    (referenced : (d.inode i).refs ≠ 0) {m : Nat} (lost : d.Lost m) : d'.Lost m := by
  induction copying with
  | finished => exact lost
  | full => exact lost
  | stuck k d c cs b inside =>
    have bound := sound.formatted.dataCount
    refine ⟨?_, ?_⟩
    · rw [Device.bit_mark _ _ _ (by omega), lost.1, Bool.or_true]
    · intro a live
      rw [Ref.target_mark]
      exact lost.2 a ((Ref.live_mark d b a).mp live)
  | round k d d1 d2 c cs b t r grown direct some_ rest ih =>
    have bound := c.property
    exact ih (grown.sound sound referenced direct some_ bound) (by rw [grown.refs]; exact referenced)
      (grown.lost sound.owned some_ bound lost)

end Copying

namespace Created
variable {d d' : Device} {filename : Name} {i : UInt32} (c : Created d d' filename i)
include c

/-- Making an empty file out of an empty one drops no reference. -/
theorem not_lost {cnt : Nat} (dir : Directory d cnt) (own : Owned d)
    (empty : (d.inode i.toNat).size = 0) {m : Nat} (kept : ¬d.Lost m) : ¬d'.Lost m := by
  rintro ⟨marked, nobody⟩
  rw [c.bits] at marked
  refine kept ⟨marked, ?_⟩
  intro a live target
  cases a with
  | root => exact nobody .root trivial target
  | indirect j =>
    have lower : 1 ≤ j := by
      by_contra root
      have zero : j = 0 := by omega
      subst zero
      exact live.2 dir.indirect
    have same : (d'.inode j).indirectData = (d.inode j).indirectData := by
      by_cases self : j = i.toNat
      · rw [self, c.indirect]
      · rw [c.others j lower live.1 self]
    refine nobody (.indirect j) ⟨live.1, by rw [same]; exact live.2⟩ ?_
    rw [← target]
    exact congrArg UInt32.toNat same
  | slot j s =>
    obtain ⟨lower, upper, inside⟩ := live
    have differ : j ≠ i.toNat := by
      rintro rfl
      rw [Device.blocks, empty] at inside
      simp at inside
    have blocks : d'.blocks j = d.blocks j := by
      unfold Device.blocks
      rw [c.others j lower upper differ]
    refine nobody (.slot j s) ⟨lower, upper, by rwa [blocks]⟩ ?_
    rw [← target]
    exact congrArg UInt32.toNat (c.ptr_other own j s lower upper differ inside)

/-- Truncation loses the blocks the file had. -/
theorem lost {cnt : Nat} (dir : Directory d' cnt) (own : Owned d) {s : Nat}
    (had : s < d.blocks i.toNat) : d'.Lost (d.ptr i.toNat s).toNat := by
  have live : Ref.Live d (.slot i.toNat s) := ⟨c.file.1, c.file.2, had⟩
  have held : d.bit (d.ptr i.toNat s).toNat = true := own.marked (.slot i.toNat s) live
  refine ⟨by rw [c.bits, held], ?_⟩
  intro a now target
  obtain ⟨old, same⟩ := c.live dir own a now
  rw [same] at target
  have eq := own.unique a (.slot i.toNat s) old live target
  subst eq
  have inside := now.2.2
  rw [c.blocks_self] at inside
  omega

end Created

end Sos.Efs
