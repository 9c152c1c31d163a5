import Sos.Lib.Packed

/-! Segment descriptors, as they are packed from bit-fields and as the processor reads them. -/

namespace Sos.Kernel
open Sos.Lib Sos.Lib.Bytes Sos.Lib.Packed

/-- `global_descriptor`. -/
structure GlobalDescriptor where
  limitLow : UInt32
  baseLow : UInt32
  type : UInt32
  dpl : UInt32
  p : UInt32
  limitHigh : UInt32
  avl : UInt32
  zero : UInt32
  opsize : UInt32
  granularity : UInt32
  baseHigh : UInt32

namespace GlobalDescriptor

/-- The bit-fields with their widths. -/
def fields (desc : GlobalDescriptor) : List (ℕ × ℕ) :=
  [(16, desc.limitLow.toNat), (24, desc.baseLow.toNat), (5, desc.type.toNat), (2, desc.dpl.toNat), (1, desc.p.toNat),
    (3, desc.limitHigh.toNat), (2, desc.avl.toNat), (1, desc.zero.toNat), (1, desc.opsize.toNat),
    (1, desc.granularity.toNat), (8, desc.baseHigh.toNat)]

def toBytes (desc : GlobalDescriptor) : Buf 8 := Buf.tabulate fun i => UInt8.ofNat (pack desc.fields / 256 ^ i)

end GlobalDescriptor

def GlobalDescriptor.setSelector (base limit type dpl opsize gran : UInt32) : GlobalDescriptor where
  limitLow := limit
  baseLow := base
  type := type
  dpl := dpl
  p := 1
  limitHigh := limit >>> 16
  avl := 0
  zero := 0
  opsize := opsize
  granularity := gran
  baseHigh := base >>> 24

/-- What the processor reads in a descriptor. -/
structure Segment where
  base : ℕ
  limit : ℕ
  type : ℕ
  dpl : ℕ
  present : ℕ
  available : ℕ
  opsize : ℕ
  granularity : ℕ
deriving DecidableEq

/-- Byte 6 begins at bit 48: four bits of the limit, the one that is available, and one that is zero
are in front of the operand size. -/
def Segment.ofBytes (b : Buf 8) : Segment :=
  let n := number b.byte 8
  { base := bits n 16 24 + 2 ^ 24 * bits n 56 8
    limit := bits n 0 16 + 2 ^ 16 * bits n 48 4
    type := bits n 40 5
    dpl := bits n 45 2
    present := bits n 47 1
    available := bits n 52 1
    opsize := bits n 54 1
    granularity := bits n 55 1 }

theorem number_toBytes (desc : GlobalDescriptor) : number desc.toBytes.byte 8 = pack desc.fields := by
  have bytes : ∀ i, i < 8 → desc.toBytes.byte i = UInt8.ofNat (pack desc.fields / 256 ^ i) :=
    fun i small => Buf.byte_tabulate _ small
  have total : width desc.fields = 64 := rfl
  have fits := pack_lt desc.fields
  rw [total] at fits
  rw [number_mod bytes, show 256 ^ 8 = 2 ^ 64 by norm_num, Nat.mod_eq_of_lt fits]

/-- The three bits for the top of the limit are the lower ones of the processor's four. -/
theorem ofBytes_setSelector (base limit type dpl opsize gran : UInt32) :
    Segment.ofBytes (GlobalDescriptor.setSelector base limit type dpl opsize gran).toBytes =
      { base := base.toNat
        limit := limit.toNat % 2 ^ 19
        type := type.toNat % 2 ^ 5
        dpl := dpl.toNat % 2 ^ 2
        present := 1
        available := 0
        opsize := opsize.toNat % 2
        granularity := gran.toNat % 2 } := by
  have top : (limit >>> 16).toNat = limit.toNat / 2 ^ 16 := by
    rw [UInt32.toNat_shiftRight, Nat.shiftRight_eq_div_pow]
    rfl
  have high : (base >>> 24).toNat = base.toNat / 2 ^ 24 := by
    rw [UInt32.toNat_shiftRight, Nat.shiftRight_eq_div_pow]
    rfl
  have layout : pack (GlobalDescriptor.setSelector base limit type dpl opsize gran).fields =
      pack [(16, limit.toNat), (24, base.toNat), (5, type.toNat), (2, dpl.toNat), (1, 1),
        (4, (limit >>> 16).toNat % 2 ^ 3), (1, 0), (1, 0), (1, opsize.toNat), (1, gran.toNat),
        (8, (base >>> 24).toNat)] := by
    iterate 5 apply pack_cons_congr
    exact pack_widen 3 (limit >>> 16).toNat 1 1 _
  obtain ⟨packed, list⟩ : ∃ packed, packed = [(16, limit.toNat), (24, base.toNat), (5, type.toNat),
      (2, dpl.toNat), (1, 1), (4, (limit >>> 16).toNat % 2 ^ 3), (1, 0), (1, 0), (1, opsize.toNat), (1, gran.toNat),
      (8, (base >>> 24).toNat)] := ⟨_, rfl⟩
  have field (front : List (ℕ × ℕ)) (lo w v : ℕ) (rest : List (ℕ × ℕ)) (place : width front = lo)
      (split : packed = front ++ (w, v) :: rest) : bits (pack packed) lo w = v % 2 ^ w := by
    rw [← place, split]
    exact bits_pack front w v rest
  have base_low : bits (pack packed) 16 24 = base.toNat % 2 ^ 24 := field [_] _ _ _ _ rfl list
  have base_high : bits (pack packed) 56 8 = (base >>> 24).toNat % 2 ^ 8 :=
    field [_, _, _, _, _, _, _, _, _, _] _ _ _ _ rfl list
  have limit_low : bits (pack packed) 0 16 = limit.toNat % 2 ^ 16 := field [] _ _ _ _ rfl list
  have limit_high : bits (pack packed) 48 4 = (limit >>> 16).toNat % 2 ^ 3 % 2 ^ 4 :=
    field [_, _, _, _, _] _ _ _ _ rfl list
  have type_bits : bits (pack packed) 40 5 = type.toNat % 2 ^ 5 := field [_, _] _ _ _ _ rfl list
  have dpl_bits : bits (pack packed) 45 2 = dpl.toNat % 2 ^ 2 := field [_, _, _] _ _ _ _ rfl list
  have p_bits : bits (pack packed) 47 1 = 1 % 2 ^ 1 := field [_, _, _, _] _ _ _ _ rfl list
  have avl_bits : bits (pack packed) 52 1 = 0 % 2 ^ 1 := field [_, _, _, _, _, _] _ _ _ _ rfl list
  have opsize_bits : bits (pack packed) 54 1 = opsize.toNat % 2 ^ 1 := field [_, _, _, _, _, _, _, _] _ _ _ _ rfl list
  have gran_bits : bits (pack packed) 55 1 = gran.toNat % 2 ^ 1 := field [_, _, _, _, _, _, _, _, _] _ _ _ _ rfl list
  have base_bound := base.toNat_lt
  unfold Segment.ofBytes
  dsimp only
  rw [number_toBytes, layout, ← list, base_low, base_high, limit_low, limit_high, type_bits, dpl_bits, p_bits,
    avl_bits, opsize_bits, gran_bits, top, high]
  rw [Segment.mk.injEq]
  refine ⟨by omega, by omega, rfl, rfl, rfl, rfl, rfl, rfl⟩

/-- The segment that is asked for is the one that the processor finds, up to the top bit of the limit. -/
theorem setSelector_decodes_iff (base limit type dpl opsize gran : UInt32) (limit_bits : limit.toNat < 2 ^ 20)
    (type_bits : type.toNat < 2 ^ 5) (dpl_bits : dpl.toNat < 2 ^ 2) (opsize_bits : opsize.toNat < 2 ^ 1)
    (gran_bits : gran.toNat < 2 ^ 1) :
    Segment.ofBytes (GlobalDescriptor.setSelector base limit type dpl opsize gran).toBytes =
        { base := base.toNat
          limit := limit.toNat
          type := type.toNat
          dpl := dpl.toNat
          present := 1
          available := 0
          opsize := opsize.toNat
          granularity := gran.toNat } ↔ limit.toNat < 2 ^ 19 := by
  rw [ofBytes_setSelector, Segment.mk.injEq]
  omega

/-- A segment of the lower half of the addresses. -/
theorem setSelector_decodes_half :
    Segment.ofBytes (GlobalDescriptor.setSelector 0 0x7ffff 27 0 1 1).toBytes =
      { base := 0, limit := 0x7ffff, type := 27, dpl := 0, present := 1, available := 0, opsize := 1,
        granularity := 1 } :=
  (setSelector_decodes_iff 0 0x7ffff 27 0 1 1 (by decide) (by decide) (by decide) (by decide) (by decide)).mpr
    (by decide)

/-- The kernel's code segment, which is to be all of the addresses. -/
theorem setSelector_short : Segment.ofBytes (GlobalDescriptor.setSelector 0 0xfffff 27 0 1 1).toBytes ≠
    { base := 0, limit := 0xfffff, type := 27, dpl := 0, present := 1, available := 0, opsize := 1,
      granularity := 1 } := by
  rw [ofBytes_setSelector]
  decide

end Sos.Kernel
