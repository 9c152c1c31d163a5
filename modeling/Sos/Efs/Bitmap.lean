import Sos.Efs.Integrity

/-! The bitmap behind the superblock, for every number of blocks that `mkefs` can be given. -/

namespace Sos.Efs
open Sos.Lib Sos.Lib.Bytes

/-- Bit `t` of byte `j` of block `k`. -/
def Device.bitAt (d : Device) (k j t : Nat) : Bool := ((d.block k).byte j).toNat.testBit t

/-- One bit of the device was clear and is set, the one of data block `m`. -/
structure OneBit (m : UInt32) (d d' : Device) : Prop where
  clear : d.bitAt 0 (sectMap + m.toNat / 8) (7 - m.toNat % 8) = false
  set : d'.bitAt 0 (sectMap + m.toNat / 8) (7 - m.toNat % 8) = true
  others : ∀ k j t, t < 8 → ¬(k = 0 ∧ j = sectMap + m.toNat / 8 ∧ t = 7 - m.toNat % 8) →
    d'.bitAt k j t = d.bitAt k j t

/-- What a bitmap of the data blocks is to be. -/
structure BitmapExact (d : Device) : Prop where
  inside : ∀ n, n < d.dataCount → sectMap + n / 8 < 1024
  free : ∀ m : UInt32, m.toNat < d.dataCount → d.bit m.toNat = false → ∃ d',
    markBlockUsed m d = .done 0 d' ∧ OneBit m d d' ∧ ∀ n : UInt32, n.toNat < d.dataCount → ∃ r,
      checkBlock n d = .done r d ∧ checkBlock n d' = .done (if n = m then 1 else r) d'
  used : ∀ m : UInt32, m.toNat < d.dataCount → d.bit m.toNat = true → markBlockUsed m d = .done 1 d
  least : ∃ b : UInt32, findFreeBlock d = .done b d ∧
    (b = 0 ∧ (∀ m, m < d.dataCount → d.bit m = true) ∨
      b ≠ 0 ∧ b.toNat < d.dataCount ∧ d.bit b.toNat = false ∧ ∀ m, m < b.toNat → d.bit m = true)

theorem oneBit_mark {d : Device} {m : UInt32} (bound : m.toNat < 3936) (free : d.bit m.toNat = false) :
    OneBit m d (d.mark m) where
  clear := free
  set := by
    change (d.mark m).bit m.toNat = true
    rw [Device.bit_mark d m _ bound, decide_eq_true rfl, Bool.true_or]
  others := by
    intro k j t low other
    rw [Device.bitAt, Device.bitAt, Device.mark, Device.block_put]
    by_cases front : k = 0
    · subst front
      rw [if_pos rfl]
      by_cases place : j = sectMap + m.toNat / 8
      · subst place
        rw [Buf.byte_blit_inside _ _ _ _ le_rfl (by omega) (by unfold sectMap bootcodeLen; omega),
          bitMask_set _ _ _ low, decide_eq_false (fun same => other ⟨rfl, rfl, same⟩), Bool.false_or]
      · rw [Buf.byte_blit_outside _ _ _ _ (by omega)]
    · rw [if_neg front]

theorem bitmapExact {d : Device} (some_ : 0 < d.count) (root : d.bit 0 = true) (small : d.dataCount ≤ 3936) :
    BitmapExact d where
  inside := by
    intro n upper
    unfold sectMap bootcodeLen
    omega
  free := by
    intro m upper free
    refine ⟨d.mark m, markBlockUsed_free some_ m (by omega) free, oneBit_mark (by omega) free, ?_⟩
    intro n inside
    refine ⟨_, checkBlock_done some_ n (by omega), ?_⟩
    rw [checkBlock_done (by rwa [Device.count_mark]) n (by omega), Device.bit_mark d m _ (by omega)]
    by_cases same : n = m
    · rw [if_pos same, same, decide_eq_true rfl, Bool.true_or, if_pos rfl]
    · have differ : n.toNat ≠ m.toNat := fun equal => same (UInt32.toNat_inj.mp equal)
      rw [if_neg same, decide_eq_false differ, Bool.false_or]
  used := fun m upper used => markBlockUsed_used some_ m (by omega) used
  least := by
    by_cases full : ∀ m, m < d.dataCount → d.bit m = true
    · exact ⟨0, findFreeBlock_full some_ small full, Or.inl ⟨rfl, full⟩⟩
    · obtain ⟨m, inside, spare⟩ : ∃ m, m < d.dataCount ∧ d.bit m = false := by simpa using full
      obtain ⟨b, upper, free, used⟩ := exists_least_free small inside spare
      have before : b.toNat < d.dataCount := by omega
      refine ⟨b, findFreeBlock_least some_ small b before free used, Or.inr ⟨?_, before, free, used⟩⟩
      rintro rfl
      rw [UInt32.toNat_zero, root] at free
      cases free

/-- The bitmap of a file system that `mkefs` makes is exact if and only if it was given from 5
to 3941 blocks. -/
theorem bitmap_exact_iff {blockCount : UInt32} {d : Device} (made : d.sb = makeSuperblock blockCount)
    (some_ : 0 < d.count) (root : d.bit 0 = true) :
    BitmapExact d ↔ 5 ≤ blockCount.toNat ∧ blockCount.toNat ≤ 3941 := by
  have total : d.dataCount = (blockCount.toNat + 4294967291) % 4294967296 := by
    rw [Device.dataCount, made]
    change (blockCount - 5).toNat = _
    rw [UInt32.toNat_sub]
    simp
    omega
  have bound := blockCount.toNat_lt
  constructor
  · intro exact_
    by_contra outside
    have place := exact_.inside 3936 (by omega)
    unfold sectMap bootcodeLen at place
    omega
  · intro both
    exact bitmapExact some_ root (by omega)

theorem bitmap_exact_iff_floppy : BitmapExact (freshImage 1440 floppy) ↔
    5 ≤ (1440 : UInt32).toNat ∧ (1440 : UInt32).toNat ≤ 3941 :=
  bitmap_exact_iff sb_freshImage (by decide) (by rw [bit_freshImage]; rfl)

/-- With one block more the byte of the last bit is behind the end of block 0, and is read there. -/
theorem bitmap_overrun : checkBlock 3936 (freshImage 3942 ⟨3942, fun _ => Buf.zero⟩) = .fault ∧
    ¬BitmapExact (freshImage 3942 ⟨3942, fun _ => Buf.zero⟩) := by
  constructor
  · have outside : mapByte ((freshImage 3942 ⟨3942, fun _ => Buf.zero⟩).block 0) 3936 (freshImage 3942 ⟨3942, fun _ => Buf.zero⟩) = .fault := rfl
    rw [checkBlock, Prog.bind_done _ (readBlock_zero (rooted_freshImage (by decide)).some_)]
    exact Prog.bind_fault _ outside
  · intro exact_
    have count : (freshImage 3942 ⟨3942, fun _ => Buf.zero⟩).dataCount = 3937 := by
      rw [Device.dataCount, sb_freshImage]
      rfl
    have place := exact_.inside 3936 (by rw [count]; omega)
    unfold sectMap bootcodeLen at place
    omega

end Sos.Efs
