import Sos.Boot.Loaded
import Sos.Boot.Search
import Sos.Efs.Names

/-! The scan of the directory: a comparison that fails behind a first equal byte leaves the
pointer ahead of the entries, for all that follow. -/

namespace Sos.Boot
open Sos.Lib Sos.Lib.Bytes Sos.Efs

/-- How far the comparisons with the names before entry `e` have moved the pointer. -/
def drift (d : Device) (w : List UInt8) : Nat → Nat
  | 0 => 0
  | e + 1 => drift d w e + shared ((d.entryStr e).drop (drift d w e)) w

/-- What is compared at entry `e` is the wanted name. -/
def Hit (d : Device) (w : List UInt8) (e : Nat) : Prop := (d.entryStr e).drop (drift d w e) = w

instance (d : Device) (w : List UInt8) (e : Nat) : Decidable (Hit d w e) :=
  inferInstanceAs (Decidable (_ = _))

theorem drift_le {d : Device} (padded : Padded d) (w : List UInt8) {e : Nat} (inside : e ≤ 64) :
    drift d w e ≤ 10 := by
  induction e with
  | zero => exact Nat.zero_le _
  | succ e ih =>
    have before := ih (by omega)
    have short := padded.short e (by omega)
    have moved := shared_le ((d.entryStr e).drop (drift d w e)) w
    rw [List.length_drop] at moved
    rw [drift]
    omega

/-- The directory as the scan finds it in memory. -/
structure Scanned (L : SearchLayout) (d : Device) (cnt : Nat) (w : List UInt8) (m : Mem) : Prop where
  name : m.Text L.kernelFile w
  entries : ∀ j, j < 1024 → m (L.efsSuperblock + UInt16.ofNat (58 + j)) = (d.data 0).byte j
  size : m.word L.efsInode = UInt16.ofNat (16 * cnt)

/-- Where the pointer stands at entry `e`. -/
def SearchLayout.entry (L : SearchLayout) (d : Device) (w : List UInt8) (e : Nat) : UInt16 :=
  L.efsSuperblock + UInt16.ofNat (58 + (16 * e + drift d w e))

section
variable {L : SearchLayout} {d : Device} {cnt : Nat} {w : List UInt8} {m : Mem}

theorem Scanned.text (scanned : Scanned L d cnt w m) (padded : Padded d) {e : Nat} (inside : e < 64) :
    m.Text (L.entry d w e) ((d.entryStr e).drop (drift d w e)) := by
  have short := padded.short e inside
  have ahead := drift_le padded w (Nat.le_of_lt inside)
  apply Mem.text_of_bytes
  · intro member
    exact cstr_text 12 _ (List.mem_of_mem_drop member)
  · intro j bound
    rw [List.length_drop] at bound
    have field : drift d w e + j < 12 := by omega
    have address : 58 + (16 * e + drift d w e) + j = 58 + (16 * e + (drift d w e + j)) := by omega
    rw [SearchLayout.entry, UInt16.add_assoc, ← UInt16.ofNat_add, address,
      scanned.entries _ (by omega), padded.byte e _ inside field]
    simp [List.getD_eq_getElem?_getD]

/-- One entry: found, the last one, or on to the next. -/
theorem searchBlock_step (scanned : Scanned L d cnt w m) (padded : Padded d) (last : cnt ≤ 64)
    {e fuel : Nat} (inside : e < cnt) (enough : w.length < fuel) :
    searchBlock L m (fuel + 1) (L.entry d w e) (UInt16.ofNat (16 * e)) =
      if Hit d w e then some (.kernFound (m.word (L.entry d w e + 12)))
      else if e + 1 = cnt then some .notFound
      else searchBlock L m fuel (L.entry d w (e + 1)) (UInt16.ofNat (16 * (e + 1))) := by
  have room := L.room
  have compared := strcmp_text (scanned.text padded (show e < 64 by omega)) scanned.name enough
  have bytes : UInt16.ofNat (16 * e) + 0x10 = UInt16.ofNat (16 * (e + 1)) := by
    rw [Nat.mul_add, UInt16.ofNat_add]
    rfl
  have ended : UInt16.ofNat (16 * (e + 1)) = m.word L.efsInode ↔ e + 1 = cnt := by
    rw [scanned.size, ← UInt16.toNat_inj, UInt16.toNat_ofNat', UInt16.toNat_ofNat']
    omega
  have next : L.entry d w e + UInt16.ofNat (shared ((d.entryStr e).drop (drift d w e)) w) + 0x10 =
      L.entry d w (e + 1) := by
    rw [SearchLayout.entry, SearchLayout.entry, drift, UInt16.add_assoc, UInt16.add_assoc,
      show (0x10 : UInt16) = UInt16.ofNat 16 from rfl, ← UInt16.ofNat_add, ← UInt16.ofNat_add]
    congr 2
    omega
  rw [searchBlock, compared]
  by_cases hit : Hit d w e
  · rw [if_pos hit]
    unfold Hit at hit
    simp only [if_pos hit, ↓reduceIte]
  · rw [if_neg hit]
    unfold Hit at hit
    simp only [if_neg hit, bytes, next, ended]
    rw [if_neg (by decide)]
    by_cases final : e + 1 = cnt
    · rw [if_pos final, if_pos final]
    · have ahead := drift_le padded w (show e + 1 ≤ 64 by omega)
      have within : L.entry d w (e + 1) ≠ L.efsBuffer + 1024 := by
        intro same
        have value := congrArg UInt16.toNat same
        rw [SearchLayout.entry, L.at_toNat (by omega), L.efsBuffer_at, UInt16.toNat_add,
          L.at_toNat (by omega)] at value
        simp only [UInt16.reduceToNat] at value
        omega
      rw [if_neg final, if_neg final, if_neg within]

/-- The scan from entry `e` on ends at the first entry that compares equal. -/
theorem searchBlock_scan (scanned : Scanned L d cnt w m) (padded : Padded d) (last : cnt ≤ 64)
    {left e fuel : Nat} (inside : e + left = cnt) (some_ : 0 < left) (enough : w.length + left < fuel) :
    searchBlock L m fuel (L.entry d w e) (UInt16.ofNat (16 * e)) =
      some (match (List.range' e left).find? fun p => Hit d w p with
        | some p => .kernFound (m.word (L.entry d w p + 12))
        | none => .notFound) := by
  induction left generalizing e fuel with
  | zero => omega
  | succ left ih =>
    obtain ⟨fuel, rfl⟩ : ∃ n, fuel = n + 1 := ⟨fuel - 1, by omega⟩
    rw [searchBlock_step scanned padded last (by omega) (by omega), List.range'_succ, List.find?_cons]
    by_cases hit : Hit d w e
    · simp [hit]
    · rw [if_neg hit]
      by_cases final : e + 1 = cnt
      · have none : left = 0 := by omega
        simp [hit, final, none]
      · rw [if_neg final, ih (by omega) (by omega) (by omega)]
        simp [hit]

end

/-- Nothing but the file system's data has changed. -/
def Frames (L : Layout) (m m' : Mem) : Prop :=
  ∀ a : UInt16, a.toNat < L.efsSuperblock.toNat ∨ L.efsSuperblock.toNat + 1082 ≤ a.toNat → m' a = m a

section
variable {L : SearchLayout} {d : Device} (f : Formatted d) (m : Mem)
include f

/-- The root directory's inode is there as far as its second pointer, and more is not read. -/
theorem readRoot_loaded : SuperblockLoaded L.toLayout d (readRoot L (sectors d) m) ∧
    (∀ j, j < 18 → readRoot L (sectors d) m (L.efsSuperblock + UInt16.ofNat (20 + j)) = (d.block 1).byte j) ∧
    Frames L.toLayout m (readRoot L (sectors d) m) := by
  have room := L.room
  have first := superblockLoaded_readSector L.toLayout d m
  have buffer := L.at_toNat (show 58 < 1082 by omega)
  have target := L.at_toNat (show 20 < 1082 by omega)
  -- behind the two reads and the copy
  have bytes : ∀ a : UInt16, a.toNat ≠ L.efsSuperblock.toNat + 56 → a.toNat ≠ L.efsSuperblock.toNat + 57 →
      readRoot L (sectors d) m a =
        if L.efsSuperblock.toNat + 20 ≤ a.toNat ∧ a.toNat < L.efsSuperblock.toNat + 38 then
          (d.block 1).byte (a.toNat - (L.efsSuperblock.toNat + 20))
        else if L.efsSuperblock.toNat + 58 ≤ a.toNat ∧ a.toNat < L.efsSuperblock.toNat + 1082 then
          (d.block 1).byte (a.toNat - (L.efsSuperblock.toNat + 58))
        else readSector (sectors d) 1 L.efsSuperblock m a := by
    intro a other other'
    have from_ : L.efsBuffer.toNat = L.efsSuperblock.toNat + 58 := by rw [L.efsBuffer_at, buffer]
    have to_ : L.efsInode.toNat = L.efsSuperblock.toNat + 20 := by rw [L.efsInode_at, target]
    unfold readRoot
    simp only [first.inodeOffset f]
    rw [L.setWord_lastBlock _ _ other other', movsw_movsb _ _ _ _ (by omega) (by omega), movsb_toNat _ _ _ _ (by omega) (by omega), to_,
      readFsBlock_buffer _ _ _ _ (by decide), readFsBlock_buffer _ _ _ _ (by decide)]
    by_cases node : L.efsSuperblock.toNat + 20 ≤ a.toNat ∧ a.toNat < L.efsSuperblock.toNat + 38
    · have source : (L.efsBuffer + UInt16.ofNat (a.toNat - (L.efsSuperblock.toNat + 20))).toNat =
          L.efsSuperblock.toNat + 58 + (a.toNat - (L.efsSuperblock.toNat + 20)) := by
        rw [UInt16.toNat_add, from_, UInt16.toNat_ofNat']
        omega
      rw [if_pos (by omega), if_pos node, source, if_pos (by omega), Nat.add_sub_cancel_left]
      rfl
    · rw [if_neg (by omega), if_neg node]
      rfl
  refine ⟨?_, ?_, ?_⟩
  · intro j inside
    have at_ := L.at_toNat (show j < 1082 by omega)
    rw [bytes _ (by omega) (by omega), at_, if_neg (by omega), if_neg (by omega)]
    exact first j inside
  · intro j inside
    have at_ := L.at_toNat (show 20 + j < 1082 by omega)
    rw [bytes _ (by omega) (by omega), at_, if_pos (by omega)]
    congr 1
    omega
  · intro a outside
    rw [bytes a (by omega) (by omega), if_neg (by omega), if_neg (by omega),
      readSector_toNat _ _ _ _ (by omega), if_neg (by omega)]

end

end Sos.Boot
