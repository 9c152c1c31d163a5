import Sos.Boot.LoadKernel

/-! Runs of the loop that reads the kernel: up to the second stage, and into it. -/

namespace Sos.Boot
open Sos.Lib Sos.Lib.Bytes Sos.Efs

theorem next_number (k : Nat) : UInt16.ofNat k + 1 = UInt16.ofNat (k + 1) := by
  rw [UInt16.ofNat_add]
  rfl

theorem continue_iff {k last : Nat} (hk : k + 1 < 257) (hl : last < 257) :
    (UInt16.ofNat k + 1).toInt16 ≤ (UInt16.ofNat last).toInt16 ↔ k + 1 ≤ last := by
  rw [next_number, Int16.le_iff_toInt_le, toInt16_toInt _ hk, toInt16_toInt _ hl]
  omega

theorem next_offset (k : Nat) : UInt16.ofNat (1024 * k) + 1024 = UInt16.ofNat (1024 * (k + 1)) := by
  rw [Nat.mul_add, UInt16.ofNat_add]
  rfl

/-- The number that the loader takes for that of the last block: its division is of 16 bits. -/
def lastBlockOf (size : Nat) : Nat := size % 65536 / 1024

section
variable {L : Layout} {d : Device} {i last : Nat} {start : Phys} (f : Formatted d) (own : Owned d)
  (file : 1 ≤ i ∧ i < 64)
include f own file

/-- The whole run of the loop, if it stays below the second stage. -/
theorem Loading.run {left k : Nat} {p : Phys} (loading : Loading L d i last start k p)
    (more : k + left = last) (below : last < 34) : ∃ p', Loading L d i last start (last + 1) p' ∧
      ∀ fuel, readKernLoop L (sectors d) fuel (UInt16.ofNat k) (UInt16.ofNat (1024 * k)) p =
        if left < fuel then
          some ((List.range' k (left + 1)).map fun j => UInt16.ofNat (1024 * j), p')
        else none := by
  induction left generalizing k p with
  | zero =>
    have same : k = last := by omega
    obtain ⟨ax, m, number, later⟩ := loading.step f own file (by omega)
    refine ⟨_, by rw [same] at later; exact later, ?_⟩
    intro fuel
    cases fuel with
    | zero => rfl
    | succ fuel =>
      rw [readKernLoop, number]
      simp only
      rw [later.last, if_neg (by rw [continue_iff (by omega) (by omega)]; omega), if_pos (by omega)]
      simp [same]
  | succ left ih =>
    obtain ⟨ax, m, number, later⟩ := loading.step f own file (by omega)
    obtain ⟨p', final, rest⟩ := ih later (by omega)
    refine ⟨p', final, ?_⟩
    intro fuel
    cases fuel with
    | zero => rfl
    | succ fuel =>
      rw [readKernLoop, number]
      simp only
      rw [later.last, if_pos ((continue_iff (by omega) (by omega)).mpr (by omega)), next_number, next_offset,
        rest]
      by_cases enough : left < fuel
      · rw [if_pos enough, if_pos (by omega),
          show List.range' k (left + 1 + 1) = k :: List.range' (k + 1) (left + 1) from rfl]
        rfl
      · rw [if_neg enough, if_neg (by omega)]
        rfl

/-- Block 34 goes to where the second stage begins. -/
theorem Loading.past {k : Nat} {p : Phys} (loading : Loading L d i last start k p) (before : k ≤ 34)
    (more : 34 ≤ last) (bound : last < 257) {fuel : Nat} {offsets : List UInt16} {p' : Phys}
    (run : readKernLoop L (sectors d) fuel (UInt16.ofNat k) (UInt16.ofNat (1024 * k)) p =
      some (offsets, p')) : UInt16.ofNat (1024 * 34) ∈ offsets := by
  induction fuel generalizing k p offsets with
  | zero => cases run
  | succ fuel ih =>
    by_cases here : k = 34
    · rw [readKernLoop, here] at run
      split at run
      · cases run
      · simp only at run
        split at run
        · obtain ⟨_, _, same⟩ := Option.map_eq_some_iff.mp run
          cases same
          exact List.mem_cons_self
        · cases run
          exact List.mem_cons_self
    · obtain ⟨ax, m, number, later⟩ := loading.step f own file (by omega)
      rw [readKernLoop, number] at run
      simp only at run
      rw [later.last, if_pos ((continue_iff (by omega) bound).mpr (by omega)), next_number, next_offset]
        at run
      obtain ⟨⟨rest, _⟩, tail, same⟩ := Option.map_eq_some_iff.mp run
      cases same
      exact List.mem_cons_of_mem _ (ih later (by omega) tail)

omit own in
/-- What `kern_found` prepares. -/
theorem loadKernel_loading (p : Phys) (super : SuperblockLoaded L d p.segment) :
    ∃ m, (∀ fuel, loadKernel L (sectors d) fuel (UInt16.ofNat i) p =
        readKernLoop L (sectors d) fuel 0 0 (p.withSegment m)) ∧
      Loading L d i (lastBlockOf (d.inode i).size.toNat) p 0 (p.withSegment m) := by
  obtain ⟨super', node⟩ := readInode_loaded f super file.2
  have kept : ∀ (m : Mem) (v : UInt16) (j : Nat), j < 56 → m.setWord L.lastBlock v
      (L.efsSuperblock + UInt16.ofNat j) = m (L.efsSuperblock + UInt16.ofNat j) := by
    intro m v j inside
    apply L.setWord_lastBlock <;> rw [L.at_toNat (by omega)] <;> omega
  have size : (readInode L (sectors d) (UInt16.ofNat i) p.segment).word L.efsInode =
      (d.inode i).size.toUInt16 := node.word 0 (by omega)
  refine ⟨_, fun _ => rfl, ⟨?_, ?_, ?_, ?_, ?_⟩⟩
  · rw [Phys.segment_withSegment]
    intro j inside
    rw [kept _ _ j (by omega)]
    exact super' j inside
  · rw [Phys.segment_withSegment]
    intro j inside
    rw [kept _ _ (20 + j) (by omega)]
    exact node j inside
  · rw [Phys.segment_withSegment, Mem.word_setWord, size]
    apply UInt16.toNat_inj.mp
    rw [UInt16.toNat_div, UInt32.toNat_toUInt16, UInt16.toNat_ofNat', lastBlockOf]
    simp
    omega
  · intro x inside
    omega
  · intro x _ below
    exact Phys.withSegment_below _ _ below

end

end Sos.Boot
