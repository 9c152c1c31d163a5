import Sos.Boot.Search
import Mathlib.Tactic.Ring

/-! The place of a sector as `read_sector` gives it to the BIOS: cylinder, head and sector. -/

namespace Sos.Boot

/-- The registers for a place on a disk. -/
structure Chs where
  ch : UInt8
  cl : UInt8
  dh : UInt8
deriving DecidableEq

namespace Chs
variable (c : Chs)

/-! The layout: two bits of the cylinder stand above the sector. -/

def cylinder : Nat := c.ch.toNat + 256 * (c.cl.toNat / 64)

def head : Nat := c.dh.toNat

def sector : Nat := c.cl.toNat % 64

end Chs

/-- The words `sectors`, `heads` and `cylinders`. -/
structure DiskGeometry extends Geometry where
  cylinders : UInt16

namespace DiskGeometry

/-- What the first stage makes of the last place on the disk, which the BIOS returns. -/
def ofBios (c : Chs) : DiskGeometry :=
  let dx := c.cl.toUInt16 <<< 2
  { heads := c.dh.toUInt16 + 1
    cylinders := 256 * (dx / 256) + c.ch.toUInt16 + 1
    sectors := (dx.toUInt8 >>> 2).toUInt16 }

/-- The sectors of a cylinder. -/
def cylinderSize (g : DiskGeometry) : Nat := g.heads.toNat * g.sectors.toNat

/-- The sectors of the disk. -/
def size (g : DiskGeometry) : Nat := g.cylinders.toNat * g.cylinderSize

end DiskGeometry

/-- The registers at `int $0x13` in `read_sector`, which gets the sector in AX. -/
def Geometry.chs (g : Geometry) (ax : UInt16) : Chs where
  ch := (g.cx ax / 256).toUInt8
  cl := (g.cx ax).toUInt8
  dh := (ax / g.sectors % g.heads).toUInt8

/-- The place is on the disk, and it is the one of this sector. -/
structure Names (g : DiskGeometry) (c : Chs) (n : Nat) : Prop where
  cylinder : c.cylinder < g.cylinders.toNat
  head : c.head < g.heads.toNat
  sector : 0 < c.sector ∧ c.sector ≤ g.sectors.toNat
  number : (c.cylinder * g.heads.toNat + c.head) * g.sectors.toNat + (c.sector - 1) = n

section
variable (c : Chs)

theorem shifted_toNat : (c.cl.toUInt16 <<< 2).toNat = 4 * c.cl.toNat := by
  have small := c.cl.toNat_lt
  have two : (2 : UInt16).toNat % 16 = 2 := rfl
  rw [UInt16.toNat_shiftLeft, UInt8.toNat_toUInt16, two, Nat.shiftLeft_eq]
  omega

theorem ofBios_sectors : (DiskGeometry.ofBios c).sectors.toNat = c.sector := by
  have two : (2 : UInt8).toNat % 8 = 2 := rfl
  change ((c.cl.toUInt16 <<< 2).toUInt8 >>> 2).toUInt16.toNat = c.cl.toNat % 64
  rw [UInt8.toNat_toUInt16, UInt8.toNat_shiftRight, UInt16.toNat_toUInt8, shifted_toNat, two,
    Nat.shiftRight_eq_div_pow]
  omega

theorem ofBios_heads : (DiskGeometry.ofBios c).heads.toNat = c.head + 1 := by
  have small := c.dh.toNat_lt
  have one : (1 : UInt16).toNat = 1 := rfl
  change (c.dh.toUInt16 + 1).toNat = c.dh.toNat + 1
  rw [UInt16.toNat_add, UInt8.toNat_toUInt16, one]
  omega

theorem ofBios_cylinders : (DiskGeometry.ofBios c).cylinders.toNat = c.cylinder + 1 := by
  have low := c.ch.toNat_lt
  have high := c.cl.toNat_lt
  have one : (1 : UInt16).toNat = 1 := rfl
  have page : (256 : UInt16).toNat = 256 := rfl
  have shifted := shifted_toNat c
  unfold DiskGeometry.ofBios Chs.cylinder
  generalize c.cl.toUInt16 <<< 2 = dx at shifted ⊢
  change UInt16.toNat (256 * (dx / 256) + c.ch.toUInt16 + 1) = c.ch.toNat + 256 * (c.cl.toNat / 64) + 1
  rw [UInt16.toNat_add, UInt16.toNat_add, UInt16.toNat_mul, UInt16.toNat_div, UInt8.toNat_toUInt16, shifted,
    one, page]
  omega

end

section
variable {g : Geometry} {ax : UInt16}

/-- The bits of the cylinder above the lowest eight come into the sector. -/
theorem cx_toNat (track : g.sectors.toNat ≤ 63) (track_pos : 0 < g.sectors.toNat)
    (near : ax.toNat / g.sectors.toNat / g.heads.toNat < 1024) : (g.cx ax).toNat =
      256 * (ax.toNat / g.sectors.toNat / g.heads.toNat % 256) +
        (ax.toNat / g.sectors.toNat / g.heads.toNat / 256 ||| (ax.toNat % g.sectors.toNat + 1)) := by
  have one : (1 : UInt16).toNat = 1 := rfl
  have page : (256 : UInt16).toNat = 256 := rfl
  have small := ax.toNat_lt
  have rest := Nat.mod_lt ax.toNat track_pos
  have sector : (ax % g.sectors + 1).toNat = ax.toNat % g.sectors.toNat + 1 := by
    rw [UInt16.toNat_add, UInt16.toNat_mod, one]
    omega
  have quotient : (ax / g.sectors / g.heads).toNat = ax.toNat / g.sectors.toNat / g.heads.toNat := by
    rw [UInt16.toNat_div, UInt16.toNat_div]
  generalize ax.toNat / g.sectors.toNat / g.heads.toNat = cylinder at quotient near ⊢
  have bytes : (256 * (ax / g.sectors / g.heads) + ax / g.sectors / g.heads / 256).toNat =
      256 * (cylinder % 256) + cylinder / 256 := by
    rw [UInt16.toNat_add, UInt16.toNat_mul, UInt16.toNat_div _ 256, quotient, page]
    omega
  have high : cylinder / 256 < 2 ^ 8 := by omega
  have low : cylinder / 256 ||| (ax.toNat % g.sectors.toNat + 1) < 2 ^ 8 :=
    Nat.or_lt_two_pow high (by omega)
  change (256 * (ax / g.sectors / g.heads) + ax / g.sectors / g.heads / 256 ||| (ax % g.sectors + 1)).toNat = _
  calc
    _ = (2 ^ 8 * (cylinder % 256) + cylinder / 256) ||| (ax.toNat % g.sectors.toNat + 1) := by
      rw [UInt16.toNat_or, bytes, sector]
      rfl
    _ = 2 ^ 8 * (cylinder % 256) ||| (cylinder / 256 ||| (ax.toNat % g.sectors.toNat + 1)) := by
      rw [Nat.two_pow_add_eq_or_of_lt high, Nat.or_assoc]
    _ = _ := (Nat.two_pow_add_eq_or_of_lt low _).symm

theorem dh_toNat (heads : g.heads.toNat ≤ 256) (heads_pos : 0 < g.heads.toNat) :
    (ax / g.sectors % g.heads).toUInt8.toNat = ax.toNat / g.sectors.toNat % g.heads.toNat := by
  have inside := Nat.mod_lt (ax.toNat / g.sectors.toNat) heads_pos
  rw [UInt16.toNat_toUInt8, UInt16.toNat_mod, UInt16.toNat_div]
  omega

end

/-- The bounds of a geometry. -/
structure DiskGeometry.Proper (g : DiskGeometry) : Prop where
  sectors : 0 < g.sectors.toNat ∧ g.sectors.toNat ≤ 63
  heads : 0 < g.heads.toNat ∧ g.heads.toNat ≤ 256
  cylinders : g.cylinders.toNat ≤ 1024

theorem ofBios_proper (c : Chs) (track : 0 < c.sector) : (DiskGeometry.ofBios c).Proper := by
  have low := c.ch.toNat_lt
  have high := c.cl.toNat_lt
  have head := c.dh.toNat_lt
  constructor
  · rw [ofBios_sectors]
    unfold Chs.sector at track ⊢
    omega
  · rw [ofBios_heads]
    unfold Chs.head
    omega
  · rw [ofBios_cylinders]
    unfold Chs.cylinder
    omega

/-- A sector from its cylinder, its head and its place on the track. -/
theorem DiskGeometry.split (g : DiskGeometry) (n : UInt16) : n.toNat = n.toNat / g.sectors.toNat / g.heads.toNat * g.cylinderSize +
    n.toNat / g.sectors.toNat % g.heads.toNat * g.sectors.toNat + n.toNat % g.sectors.toNat := by
  have track := Nat.div_add_mod n.toNat g.sectors.toNat
  have cylinder := Nat.div_add_mod (n.toNat / g.sectors.toNat) g.heads.toNat
  generalize n.toNat / g.sectors.toNat = q at track cylinder ⊢
  generalize q / g.heads.toNat = c at cylinder ⊢
  calc
    n.toNat = g.sectors.toNat * q + n.toNat % g.sectors.toNat := track.symm
    _ = g.sectors.toNat * (g.heads.toNat * c + q % g.heads.toNat) + n.toNat % g.sectors.toNat := by rw [cylinder]
    _ = _ := by
      rw [cylinderSize]
      ring

namespace DiskGeometry.Proper
variable {g : DiskGeometry} (proper : g.Proper) {n : UInt16}
include proper

theorem cylinderSize_pos : 0 < g.cylinderSize := Nat.mul_pos proper.heads.1 proper.sectors.1

/-- The cylinder of a sector. -/
theorem cylinder_lt_iff (k : Nat) :
    n.toNat / g.sectors.toNat / g.heads.toNat < k ↔ n.toNat < k * g.cylinderSize := by
  rw [Nat.div_lt_iff_lt_mul proper.heads.1, Nat.div_lt_iff_lt_mul proper.sectors.1, cylinderSize, Nat.mul_assoc]

theorem cx (valid : n.toNat < g.size) : (g.cx n).toNat =
    256 * (n.toNat / g.sectors.toNat / g.heads.toNat % 256) +
      (n.toNat / g.sectors.toNat / g.heads.toNat / 256 ||| (n.toNat % g.sectors.toNat + 1)) := by
  have cylinder := (proper.cylinder_lt_iff g.cylinders.toNat).mpr valid
  have near := proper.cylinders
  exact cx_toNat proper.sectors.2 proper.sectors.1 (by omega)

/-- What the registers are decoded to. -/
theorem place (valid : n.toNat < g.size) :
    (g.chs n).cylinder = n.toNat / g.sectors.toNat / g.heads.toNat % 256 ∧
    (g.chs n).head = n.toNat / g.sectors.toNat % g.heads.toNat ∧
    (g.chs n).sector =
      n.toNat / g.sectors.toNat / g.heads.toNat / 256 ||| (n.toNat % g.sectors.toNat + 1) := by
  have cylinder := (proper.cylinder_lt_iff g.cylinders.toNat).mpr valid
  have near := proper.cylinders
  have rest := Nat.mod_lt n.toNat proper.sectors.1
  have track := proper.sectors.2
  have packed := proper.cx valid
  have small : n.toNat / g.sectors.toNat / g.heads.toNat / 256 ||| (n.toNat % g.sectors.toNat + 1) < 2 ^ 6 :=
    Nat.or_lt_two_pow (by omega) (by omega)
  have page : (256 : UInt16).toNat = 256 := rfl
  have high : (g.cx n / 256).toUInt8.toNat = (g.cx n).toNat / 256 % 256 := by
    rw [UInt16.toNat_toUInt8, UInt16.toNat_div, page]
  have low : (g.cx n).toUInt8.toNat = (g.cx n).toNat % 256 := UInt16.toNat_toUInt8 _
  refine ⟨?_, dh_toNat proper.heads.2 proper.heads.1, ?_⟩
  · change (g.cx n / 256).toUInt8.toNat + 256 * ((g.cx n).toUInt8.toNat / 64) = _
    omega
  · change (g.cx n).toUInt8.toNat % 64 = _
    omega

theorem names_iff (valid : n.toNat < g.size) : Names g (g.chs n) n.toNat ↔ n.toNat < 256 * g.cylinderSize := by
  obtain ⟨cylinder, head, sector⟩ := proper.place valid
  have whole := g.split n
  have last := (proper.cylinder_lt_iff g.cylinders.toNat).mpr valid
  have track := Nat.mod_lt n.toNat proper.sectors.1
  have inside := Nat.mod_lt (n.toNat / g.sectors.toNat) proper.heads.1
  rw [← proper.cylinder_lt_iff]
  generalize n.toNat / g.sectors.toNat / g.heads.toNat = c at cylinder sector whole last ⊢
  generalize n.toNat / g.sectors.toNat % g.heads.toNat = h at head whole inside ⊢
  generalize n.toNat % g.sectors.toNat = r at sector whole track
  have number : ((g.chs n).cylinder * g.heads.toNat + (g.chs n).head) * g.sectors.toNat =
      (g.chs n).cylinder * g.cylinderSize + h * g.sectors.toNat := by
    rw [head, cylinderSize]
    ring
  constructor
  · intro names
    by_contra above
    have near : (g.chs n).sector - 1 < 64 := by
      have decoded := names.sector
      have bound := proper.sectors
      omega
    have lost : 0 < c / 256 * g.cylinderSize := Nat.mul_pos (by omega) proper.cylinderSize_pos
    have parts : c * g.cylinderSize = 256 * (c / 256 * g.cylinderSize) + c % 256 * g.cylinderSize := by
      rw [← Nat.mul_assoc, ← Nat.add_mul, Nat.div_add_mod]
    have named := names.number
    rw [number, cylinder] at named
    omega
  · intro below
    have zero : c / 256 = 0 := by omega
    have same : c % 256 = c := by omega
    rw [zero, Nat.zero_or] at sector
    rw [same] at cylinder
    refine ⟨cylinder ▸ last, head ▸ inside, ⟨by omega, by omega⟩, ?_⟩
    rw [number, cylinder, sector, whole, Nat.add_sub_cancel]

/-- The first sector of a cylinder with the low bits zero and one high bit gives the registers of
the first sector of all. -/
theorem chs_again (m : UInt16) (place : m.toNat = 256 * g.cylinderSize) (valid : m.toNat < g.size) :
    g.chs m = g.chs 0 := by
  have zero : (0 : UInt16).toNat = 0 := rfl
  have tracks : m.toNat / g.sectors.toNat = 256 * g.heads.toNat := by
    rw [place, cylinderSize, ← Nat.mul_assoc, Nat.mul_div_cancel _ proper.sectors.1]
  have rest : m.toNat % g.sectors.toNat = 0 := by
    rw [place, cylinderSize, ← Nat.mul_assoc, Nat.mul_mod_left]
  have cx : g.cx m = g.cx 0 := by
    have first := proper.cx (n := 0) (by omega)
    have packed := proper.cx valid
    rw [tracks, rest, Nat.mul_div_cancel _ proper.heads.1] at packed
    simp only [zero, Nat.zero_div, Nat.zero_mod] at first
    exact UInt16.toNat_inj.mp (packed.trans first.symm)
  have dh : m / g.sectors % g.heads = 0 / g.sectors % g.heads := by
    apply UInt16.toNat_inj.mp
    rw [UInt16.toNat_mod, UInt16.toNat_div, UInt16.toNat_mod, UInt16.toNat_div, tracks, zero, Nat.zero_div,
      Nat.mul_mod_left, Nat.zero_mod]
  unfold Geometry.chs
  rw [cx, dh]

theorem injective_iff :
    (∀ a b : UInt16, a.toNat < g.size → b.toNat < g.size → g.chs a = g.chs b → a = b) ↔
      ∀ n : UInt16, n.toNat < g.size → n.toNat < 256 * g.cylinderSize := by
  constructor
  · intro apart n valid
    by_contra above
    have small := n.toNat_lt
    have place : (UInt16.ofNat (256 * g.cylinderSize)).toNat = 256 * g.cylinderSize := by
      rw [UInt16.toNat_ofNat']
      omega
    have zero : (0 : UInt16).toNat = 0 := rfl
    have pos := proper.cylinderSize_pos
    have again := proper.chs_again (UInt16.ofNat (256 * g.cylinderSize)) place (by omega)
    have same := congrArg UInt16.toNat (apart _ 0 (by omega) (by omega) again)
    omega
  · intro below a b a_valid b_valid same
    have names := (proper.names_iff a_valid).mpr (below a a_valid)
    have names' := (proper.names_iff b_valid).mpr (below b b_valid)
    rw [same] at names
    exact UInt16.toNat_inj.mp (names.number.symm.trans names'.number)

end DiskGeometry.Proper

/-- For every geometry that the BIOS can return: the registers name the sector if and only if it
lies on one of the first 256 cylinders, and no two sectors have the same registers if and only if
that is so for all of them. -/
theorem chs_names_iff (c : Chs) (track : 0 < c.sector) :
    let g := DiskGeometry.ofBios c
    (∀ n : UInt16, n.toNat < g.size → (Names g (g.chs n) n.toNat ↔ n.toNat < 256 * g.cylinderSize)) ∧
    ((∀ a b : UInt16, a.toNat < g.size → b.toNat < g.size → g.chs a = g.chs b → a = b) ↔
      ∀ n : UInt16, n.toNat < g.size → n.toNat < 256 * g.cylinderSize) :=
  ⟨fun _ valid => (ofBios_proper c track).names_iff valid, (ofBios_proper c track).injective_iff⟩

/-- A disk of 615 cylinders, 4 heads and 17 sectors. -/
def smallDisk : Chs := ⟨102, 0x91, 3⟩

/-- Its last sector that is named. -/
theorem chs_names_iff_small :
    let g := DiskGeometry.ofBios smallDisk
    Names g (g.chs 17407) 17407 :=
  ((chs_names_iff smallDisk (by decide)).1 17407 (by decide)).mpr (by decide)

/-- Sector 17408 of it has the registers of sector 0. -/
theorem chs_confused :
    let g := DiskGeometry.ofBios smallDisk
    g.cylinders = 615 ∧ g.heads = 4 ∧ g.sectors = 17 ∧ 17408 < g.size ∧ g.chs 17408 = g.chs 0 ∧
      Names g (g.chs 17408) 0 ∧ ¬Names g (g.chs 17408) 17408 := by
  refine ⟨by decide, by decide, by decide, by decide, by decide, ?_, fun names => ?_⟩
  · exact ⟨by decide, by decide, by decide, by decide⟩
  · exact absurd names.number (by decide)

end Sos.Boot
