import Sos.Boot.Chs
import Sos.Boot.LoadKernel

/-! The first boot stage: it finds out how the disk is divided and reads the second stage. -/

namespace Sos.Boot
open Sos.Lib.Bytes Sos.Efs

/-- A disk behind `int $0x13`: how it is divided, and its sectors in their order. -/
structure Drive where
  geometry : DiskGeometry
  sector : Nat → Buf 512

/-- One sector, or the carry flag for a place that is not on the disk. -/
def Drive.read (v : Drive) (c : Chs) : Option (Buf 512) :=
  if c.cylinder < v.geometry.cylinders.toNat ∧ c.head < v.geometry.heads.toNat ∧ 0 < c.sector ∧
      c.sector ≤ v.geometry.sectors.toNat then
    some (v.sector ((c.cylinder * v.geometry.heads.toNat + c.head) * v.geometry.sectors.toNat + (c.sector - 1)))
  else none

/-- A sector at a linear address. -/
def Phys.load (p : Phys) (x : Nat) (b : Buf 512) : Phys := fun y =>
  if x ≤ y ∧ y < x + 512 then b.byte (y - x) else p y

/-- Where `floppy_probe` reads to: the offset 0x7000 in the segment 0x7C0. -/
def probeAddr : Nat := 0x07C0 * 16 + 0x7000

/-- `_count_loop`: CL at the first sector that cannot be read, less one. -/
def countLoop (v : Drive) : Nat → UInt8 → Phys → Option (UInt8 × Phys)
  | 0, _, _ => none
  | fuel + 1, cl, p =>
    let cl := cl + 1
    match v.read ⟨0, cl, 0⟩ with
    | some b => countLoop v fuel cl (p.load probeAddr b)
    | none => some (cl - 1, p)

def floppyProbe (v : Drive) (fuel : Nat) (p : Phys) : Option (UInt8 × Phys) := countLoop v fuel 0 p

/-- `stage2_size`. -/
def stage2Size : Nat := 4

/-- `_read_loop`, to the segment `STAGE2_LOAD_SEG`. A division by zero ends it, and so does an error. -/
def readLoop (v : Drive) (g : Geometry) : Nat → UInt16 → UInt16 → Phys → Option Phys
  | 0, _, _, p => some p
  | bp + 1, ax, bx, p =>
    if g.sectors = 0 ∨ g.heads = 0 then none
    else match v.read (g.chs ax) with
      | some b => readLoop v g bp (ax + 1) (bx + 0x200) (p.load (stage2LoadAddr + bx.toNat) b)
      | none => none

/-- From `real_begin` to the jump, with what the BIOS says is the last place on the disk. The number of sectors
is not believed for a floppy disk. -/
def stage1 (v : Drive) (last : Chs) (dl : UInt8) (fuel : Nat) (p : Phys) : Option (DiskGeometry × Phys) :=
  let g := DiskGeometry.ofBios last
  if dl &&& 0x80 = 0 then
    match floppyProbe v fuel p with
    | some (cl, p) =>
      let g := { g with sectors := cl.toUInt16 }
      (readLoop v g.toGeometry stage2Size 2874 0 p).map fun p => (g, p)
    | none => none
  else (readLoop v g.toGeometry stage2Size 2874 0 p).map fun p => (g, p)

theorem Drive.read_names {v : Drive} {c : Chs} {n : Nat} (names : Names v.geometry c n) :
    v.read c = some (v.sector n) := by
  rw [Drive.read, if_pos ⟨names.cylinder, names.head, names.sector⟩, names.number]

section
variable {v : Drive} (proper : v.geometry.Proper)
include proper

/-- The sectors of the first track can be read, and the one behind them cannot. -/
theorem read_track (track : 0 < v.geometry.cylinders.toNat) {k : Nat} (bound : k ≤ v.geometry.sectors.toNat) :
    (v.read ⟨0, UInt8.ofNat (k + 1), 0⟩).isSome = decide (k < v.geometry.sectors.toNat) := by
  have most := proper.sectors.2
  have head : (⟨0, UInt8.ofNat (k + 1), 0⟩ : Chs).head = 0 := rfl
  have value : (UInt8.ofNat (k + 1)).toNat = k + 1 := by
    rw [UInt8.toNat_ofNat']
    omega
  have sector : (⟨0, UInt8.ofNat (k + 1), 0⟩ : Chs).sector = (k + 1) % 64 := by
    rw [Chs.sector, value]
  unfold Drive.read
  rw [head, sector]
  by_cases inside : k < v.geometry.sectors.toNat
  · have cylinder : (⟨0, UInt8.ofNat (k + 1), 0⟩ : Chs).cylinder = 0 := by
      change (0 : UInt8).toNat + 256 * ((UInt8.ofNat (k + 1)).toNat / 64) = 0
      rw [value]
      change 0 + 256 * ((k + 1) / 64) = 0
      omega
    rw [cylinder, if_pos ⟨track, proper.heads.1, by omega, by omega⟩, decide_eq_true inside]
    rfl
  · rw [if_neg (by omega), decide_eq_false inside]
    rfl

/-- From sector `k` on the probe counts up to the last one of the track, and spoils its buffer. -/
theorem countLoop_done (track : 0 < v.geometry.cylinders.toNat) {left k : Nat}
    (rest : k + left = v.geometry.sectors.toNat) {fuel : Nat} (enough : left < fuel) (p : Phys) :
    ∃ p', countLoop v fuel (UInt8.ofNat k) p =
      some (UInt8.ofNat v.geometry.sectors.toNat, p') ∧
      ∀ y, y < probeAddr ∨ probeAddr + 512 ≤ y → p' y = p y := by
  have next : UInt8.ofNat k + 1 = UInt8.ofNat (k + 1) := (UInt8.ofNat_add k 1).symm
  induction left generalizing k fuel p with
  | zero =>
    obtain ⟨fuel, rfl⟩ := Nat.exists_eq_add_one_of_ne_zero (Nat.ne_of_gt enough)
    have failed := read_track proper track (k := k) (by omega)
    rw [decide_eq_false (by omega), Option.isSome_eq_false_iff, Option.isNone_iff_eq_none] at failed
    have back : UInt8.ofNat (k + 1) - 1 = UInt8.ofNat v.geometry.sectors.toNat := by
      rw [← next, UInt8.add_sub_cancel, ← rest]
      rfl
    simp only [countLoop, next, failed, back]
    exact ⟨p, rfl, fun _ _ => rfl⟩
  | succ left ih =>
    obtain ⟨fuel, rfl⟩ := Nat.exists_eq_add_one_of_ne_zero (Nat.ne_of_gt (Nat.zero_lt_of_lt enough))
    have succeeded := read_track proper track (k := k) (by omega)
    rw [decide_eq_true (by omega), Option.isSome_iff_exists] at succeeded
    obtain ⟨b, read⟩ := succeeded
    obtain ⟨p', run, same⟩ := ih (k := k + 1) (by omega) (Nat.lt_of_succ_lt_succ enough)
      (p.load probeAddr b) (UInt8.ofNat_add (k + 1) 1).symm
    simp only [countLoop, next, read]
    refine ⟨p', run, fun y outside => ?_⟩
    rw [same y outside, Phys.load, if_neg (by omega)]

/-- The sectors of the second stage come one behind the other. -/
theorem readLoop_done {g : Geometry} (sectors : g.sectors = v.geometry.sectors)
    (heads : g.heads = v.geometry.heads) {n : Nat} (bp k : Nat) (low : n + k + bp ≤ 256 * v.geometry.cylinderSize)
    (valid : n + k + bp ≤ v.geometry.size) (small : n + k + bp ≤ 65536) (room : k + bp ≤ 128) (p : Phys) :
    ∃ p', readLoop v g bp (UInt16.ofNat (n + k)) (UInt16.ofNat (512 * k)) p = some p' ∧
      (∀ x, x < 512 * bp → p' (stage2LoadAddr + 512 * k + x) = (v.sector (n + k + x / 512)).byte (x % 512)) ∧
      ∀ y, y < stage2LoadAddr + 512 * k ∨ stage2LoadAddr + 512 * (k + bp) ≤ y → p' y = p y := by
  induction bp generalizing k p with
  | zero => exact ⟨p, rfl, fun x none => absurd none (by omega), fun _ _ => rfl⟩
  | succ bp ih =>
    have value : (UInt16.ofNat (n + k)).toNat = n + k := by
      rw [UInt16.toNat_ofNat']
      omega
    have offset : (UInt16.ofNat (512 * k)).toNat = 512 * k := by
      rw [UInt16.toNat_ofNat']
      omega
    have same : g = v.geometry.toGeometry := by
      obtain ⟨s, h⟩ := g
      exact congrArg₂ Geometry.mk sectors heads
    have some_ : ¬(g.sectors = 0 ∨ g.heads = 0) := by
      rw [sectors, heads]
      rintro (zero | zero)
      · exact absurd (congrArg UInt16.toNat zero) (Nat.ne_of_gt proper.sectors.1)
      · exact absurd (congrArg UInt16.toNat zero) (Nat.ne_of_gt proper.heads.1)
    have names : Names v.geometry (g.chs (UInt16.ofNat (n + k))) (n + k) := by
      have named := (proper.names_iff (n := UInt16.ofNat (n + k)) (by omega)).mpr (by omega)
      rwa [value, ← same] at named
    have on : UInt16.ofNat (n + k) + 1 = UInt16.ofNat (n + (k + 1)) := (UInt16.ofNat_add (n + k) 1).symm
    have behind : UInt16.ofNat (512 * k) + 0x200 = UInt16.ofNat (512 * (k + 1)) :=
      (UInt16.ofNat_add (512 * k) 512).symm
    obtain ⟨p', run, bytes, kept⟩ := ih (k + 1) (by omega) (by omega) (by omega) (by omega)
      (p.load (stage2LoadAddr + 512 * k) (v.sector (n + k)))
    refine ⟨p', ?_, fun x inside => ?_, fun y outside => ?_⟩
    · rw [readLoop, if_neg some_, v.read_names names, offset, on, behind]
      exact run
    · by_cases first : x < 512
      · rw [kept _ (Or.inl (by omega)), Phys.load, if_pos (by omega), Nat.div_eq_of_lt first, Nat.mod_eq_of_lt first,
          Nat.add_sub_cancel_left]
        rfl
      · have later := bytes (x - 512) (by omega)
        have place : stage2LoadAddr + 512 * (k + 1) + (x - 512) = stage2LoadAddr + 512 * k + x := by omega
        have number : n + (k + 1) + (x - 512) / 512 = n + k + x / 512 := by omega
        have offset' : (x - 512) % 512 = x % 512 := by omega
        rw [place, number, offset'] at later
        exact later
    · rw [kept y (by omega), Phys.load, if_neg (by omega)]

/-- The second stage is where the jump goes, byte for byte, and the geometry is the disk's. -/
theorem stage1_done (track : 0 < v.geometry.cylinders.toNat) (named : 2878 ≤ 256 * v.geometry.cylinderSize)
    (valid : 2878 ≤ v.geometry.size) {last : Chs} (heads : (DiskGeometry.ofBios last).heads = v.geometry.heads)
    {dl : UInt8} (sectors : dl &&& 0x80 ≠ 0 → (DiskGeometry.ofBios last).sectors = v.geometry.sectors) {fuel : Nat}
    (enough : 64 ≤ fuel) (p : Phys) : ∃ g p', stage1 v last dl fuel p = some (g, p') ∧
      g.sectors = v.geometry.sectors ∧ g.heads = v.geometry.heads ∧
      ∀ x, x < 2048 → p' (stage2LoadAddr + x) = (v.sector (2874 + x / 512)).byte (x % 512) := by
  by_cases floppy : dl &&& 0x80 = 0
  · have most := proper.sectors.2
    have rest : v.geometry.sectors.toNat < fuel := by omega
    obtain ⟨p₁, probed, -⟩ := countLoop_done proper track (Nat.zero_add _) rest p
    have count : (UInt8.ofNat v.geometry.sectors.toNat).toUInt16 = v.geometry.sectors := by
      apply UInt16.toNat_inj.mp
      rw [UInt8.toNat_toUInt16, UInt8.toNat_ofNat']
      omega
    have found : floppyProbe v fuel p = some (UInt8.ofNat v.geometry.sectors.toNat, p₁) := probed
    obtain ⟨p', run, bytes, -⟩ := readLoop_done proper (g := ⟨v.geometry.sectors, (DiskGeometry.ofBios last).heads⟩)
      rfl heads (n := 2874) 4 0 named valid (by decide) (by decide) p₁
    refine ⟨{ DiskGeometry.ofBios last with sectors := v.geometry.sectors }, p', ?_, rfl, heads, bytes⟩
    simp only [stage1, if_pos floppy, found, count]
    exact congrArg (Option.map _) run
  · obtain ⟨p', run, bytes, -⟩ := readLoop_done proper (g := (DiskGeometry.ofBios last).toGeometry) (sectors floppy)
      heads (n := 2874) 4 0 named valid (by decide) (by decide) p
    refine ⟨DiskGeometry.ofBios last, p', ?_, sectors floppy, heads, bytes⟩
    simp only [stage1, if_neg floppy]
    exact congrArg (Option.map _) run

end

end Sos.Boot
