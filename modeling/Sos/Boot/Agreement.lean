import Sos.Boot.Scan

/-! Where the boot loader and the library agree on what a name stands for. -/

namespace Sos.Boot
open Sos.Lib Sos.Lib.Bytes Sos.Efs

section
variable {L : SearchLayout} {d : Device} {cnt : Nat} {w : List UInt8} {m : Mem}

/-- The directory arrives in the buffer, and the scan begins at its first entry. -/
theorem search_scanned (f : Formatted d) (dir : Directory d cnt) (short : w.length ≤ 11)
    (text : m.Text L.kernelFile w) : ∃ m', Scanned L d cnt w m' ∧ Frames L.toLayout m m' ∧
      ∀ g fuel, search L g (sectors d) (fuel + 1) m =
        match searchBlock L m' fuel (L.entry d w 0) (UInt16.ofNat (16 * 0)) with
        | none => none
        | some (.kernFound ax) => some (.found ax)
        | some .notFound => some .notFound
        | some (.searchFail bp) =>
          if (g.cx (5 * 2 + 1) + 1).toInt16 ≤ (m'.word L.lastBlock).toInt16 then
            findKernel L g (sectors d) fuel (g.cx (5 * 2 + 1) + 1) bp m'
          else some .notFound := by
  have room := L.room
  have before := L.before
  obtain ⟨super, node, frames⟩ := readRoot_loaded (L := L) f m
  have read := readFsBlock_buffer L.toLayout d 5 (readRoot L (sectors d) m) (by decide)
  have word : ∀ j, j + 1 < 18 → (readRoot L (sectors d) m).word (L.efsSuperblock + UInt16.ofNat (20 + j)) =
      ((d.block 1).word j).toUInt16 := by
    intro j inside
    refine Mem.word_eq (node j (by omega)) ?_
    rw [L.at_add (20 + j) 1 1 rfl, Nat.add_assoc, node (j + 1) inside]
  have start : L.entry d w 0 = L.efsBuffer := by rw [L.efsBuffer_at]; rfl
  refine ⟨readFsBlock (sectors d) 5 L.efsBuffer (readRoot L (sectors d) m), ⟨?_, ?_, ?_⟩, ?_, ?_⟩
  · apply text.congr
    intro j inside
    have address : (L.kernelFile + UInt16.ofNat j).toNat = L.kernelFile.toNat + j := by
      rw [UInt16.toNat_add, UInt16.toNat_ofNat']
      omega
    rw [read, if_neg (by omega)]
    exact frames _ (by omega)
  · intro j inside
    rw [read, L.at_toNat (by omega), if_pos (by omega)]
    congr 1
    omega
  · have size : ((d.block 1).word 0) = (d.inode 0).size := (Buf.word_slice (m := 64) _ 0 0 (by omega)).symm
    have value : (d.inode 0).size.toUInt16 = UInt16.ofNat (16 * cnt) := by
      apply UInt16.toNat_inj.mp
      rw [UInt32.toNat_toUInt16, UInt16.toNat_ofNat', dir.size]
    rw [← value, ← size, ← word 0 (by omega), L.efsInode_at, Mem.word, Mem.word, L.at_add 20 1 1 rfl,
      read, read, L.at_toNat (by omega), L.at_toNat (by omega), if_neg (by omega), if_neg (by omega)]
  · intro a outside
    rw [read, if_neg (by omega)]
    exact frames a outside
  · intro g fuel
    have pointer : (d.block 1).word 8 = (d.inode 0).direct 0 :=
      (Buf.word_slice (m := 64) _ 0 8 (by omega)).symm
    have block : getBnum L.toLayout (sectors d) 0 (readRoot L (sectors d) m) =
        some (5, readRoot L (sectors d) m) := by
      have first := word 8 (by omega)
      rw [pointer, dir.data0] at first
      unfold getBnum
      rw [if_pos (by decide), super.dataOffset f, L.efsInodeDatablks_at,
        show (4 * 0 : UInt16) = 0 from rfl, UInt16.add_zero]
      simp only
      rw [first]
      rfl
    rw [search, findKernel, block, start]
    rfl

/-- The search ends at the first entry that compares equal, or behind the last one. -/
theorem search_scan (f : Formatted d) (dir : Directory d cnt) (padded : Padded d) (short : w.length ≤ 11)
    (text : m.Text L.kernelFile w) : ∃ m', Scanned L d cnt w m' ∧ Frames L.toLayout m m' ∧
      ∀ g fuel, 77 ≤ fuel → search L g (sectors d) fuel m =
        some (match (List.range cnt).find? fun p => Hit d w p with
          | some p => .found (m'.word (L.entry d w p + 12))
          | none => .notFound) := by
  have first := dir.first
  have last := dir.last
  obtain ⟨m', scanned, frames, run⟩ := search_scanned (L := L) (m := m) f dir short text
  refine ⟨m', scanned, frames, ?_⟩
  intro g fuel enough
  obtain ⟨fuel, rfl⟩ : ∃ n, fuel = n + 1 := ⟨fuel - 1, by omega⟩
  rw [run, searchBlock_scan scanned padded last (by omega : 0 + cnt = cnt) first (by omega),
    ← List.range_eq_range']
  cases (List.range cnt).find? fun p => Hit d w p <;> rfl

end

/-- What stands in the twelve bytes of `kernel_file`. -/
def KernelFile (L : SearchLayout) (filename : Name) (m : Mem) : Prop :=
  ∀ j, j < 12 → m (L.kernelFile + UInt16.ofNat j) = filename.byte j

def SameAnswer : Result → Option UInt32 → Prop
  | .found ax, some i => ax.toNat = i.toNat
  | .notFound, none => True
  | _, _ => False

/-- Whatever else is in memory and however the disk is divided, the search ends, and with
the answer of `find_file`. -/
def Agrees (d : Device) (filename : Name) : Prop :=
  ∀ L g m, KernelFile L filename m → ∃ answer fuel result, findFile filename d = .done answer d ∧
    (∀ more, fuel ≤ more → search L g (sectors d) more m = some result) ∧ SameAnswer result answer

end Sos.Boot

namespace Sos.Efs.Device

/-- The number of entries that the root directory's size counts. -/
def entries (d : Device) : Nat := (d.inode 0).size.toNat / 16

end Sos.Efs.Device

namespace Sos.Boot
open Sos.Lib Sos.Lib.Bytes Sos.Efs

/-- No entry before the wanted one, none at all without it, begins with its first byte. -/
def InStep (d : Device) (w : List UInt8) : Prop :=
  ∀ e, e < d.entries → (d.entryStr e).head? = w.head? → ∃ p, p ≤ e ∧ d.entryStr p = w

/-- The entry that the scan ends at. -/
structure Stop (d : Device) (w : List UInt8) (p : Nat) : Prop where
  inside : p < d.entries
  hit : Hit d w p
  before : ∀ e, e < p → ¬Hit d w e

/-- Twelve bytes behind the pointer at entry `p` the directory has the number `i`. -/
def Numbered (d : Device) (w : List UInt8) (p : Nat) (i : UInt32) : Prop :=
  16 * p + drift d w p + 14 ≤ 1024 ∧
    ((d.data 0).word (16 * p + drift d w p + 12)).toUInt16.toNat = i.toNat

/-- The pointer is ahead of the entries, but what it comes upon is the right answer. -/
def ByLuck (d : Device) (w : List UInt8) : Prop :=
  match d.lookup w with
  | none => ∀ p, ¬Stop d w p
  | some i => ∃ p, Stop d w p ∧ drift d w p ≠ 0 ∧ Numbered d w p i

/-- `find_file` finds the empty name in an unused entry, and the boot loader does not. -/
def Searchable (d : Device) (w : List UInt8) : Prop :=
  (w = [] → d.entries = 64) ∧ (InStep d w ∨ ByLuck d w)

theorem shared_zero_iff {s w : List UInt8} (some_ : w ≠ []) : shared s w = 0 ↔ s.head? ≠ w.head? := by
  cases w with
  | nil => exact absurd rfl some_
  | cons y w =>
    cases s with
    | nil => simp [shared]
    | cons x s =>
      by_cases same : x = y
      · simp [shared, same]
      · simp [shared, same]

theorem drift_zero_iff (d : Device) (w : List UInt8) (n : Nat) :
    drift d w n = 0 ↔ ∀ e, e < n → shared (d.entryStr e) w = 0 := by
  induction n with
  | zero => simp [drift]
  | succ n ih =>
    rw [drift, Nat.add_eq_zero_iff, ih]
    constructor
    · rintro ⟨before, here⟩ e inside
      by_cases last : e = n
      · rw [ih.mpr before] at here
        rw [last]
        exact here
      · exact before e (by omega)
    · intro all
      have before : ∀ e, e < n → shared (d.entryStr e) w = 0 := fun e inside => all e (by omega)
      rw [ih.mpr before]
      exact ⟨before, all n (by omega)⟩

section
variable {d : Device} {cnt : Nat} (dir : Directory d cnt)
include dir

theorem entries_eq : d.entries = cnt := by
  rw [Device.entries, dir.size]
  omega

theorem entryStr_ne_nil {e : Nat} (inside : e < cnt) : d.entryStr e ≠ [] := by
  by_cases zero : e = 0
  · rw [zero, dir.selfStr]
    simp
  · exact (dir.named e (by omega) inside).1

theorem lookup_small {w : List UInt8} {i : UInt32} (found : d.lookup w = some i) : i.toNat < 64 := by
  obtain ⟨e, inside, _, value⟩ := Device.lookup_some found
  rw [← value]
  by_cases zero : e = 0
  · rw [zero, dir.selfInode]
    decide
  · by_cases listed : e < cnt
    · exact (dir.inodes e (by omega) listed).2
    · have blank : ∀ k, k < 4 → (d.data 0).byte (16 * e + 12 + k) = 0 :=
        fun k _ => dir.blank _ (by omega) (by omega)
      have b0 := blank 0 (by omega)
      have b1 := blank 1 (by omega)
      have b2 := blank 2 (by omega)
      have b3 := blank 3 (by omega)
      simp only [Nat.add_zero] at b0
      simp only [Device.entryInode, Buf.word, b0, b1, b2, b3]
      decide

end

/-- The scan has the answer of the library. -/
def Right (d : Device) (w : List UInt8) : Prop :=
  match d.lookup w with
  | none => ∀ p, ¬Stop d w p
  | some i => ∃ p, Stop d w p ∧ Numbered d w p i

section
variable {d : Device} {cnt : Nat} (dir : Directory d cnt) {w : List UInt8}
include dir

theorem InStep.right (inStep : InStep d w) (full : w = [] → d.entries = 64) : Right d w := by
  have count := entries_eq dir
  have last := dir.last
  rw [count] at full
  -- up to an entry before which the name is not listed nothing is shared
  have still : ∀ n, n ≤ cnt → (∀ e, e < n → d.entryStr e ≠ w) → drift d w n = 0 := by
    intro n inside unlisted
    rw [drift_zero_iff]
    intro e before
    by_cases empty : w = []
    · rw [empty]
      cases d.entryStr e <;> rfl
    · rw [shared_zero_iff empty]
      intro same
      obtain ⟨p, lower, listed⟩ := inStep e (by omega) same
      exact unlisted p (by omega) listed
  have plain : ∀ e, e < cnt → (∀ p, p < e → d.entryStr p ≠ w) → (Hit d w e ↔ d.entryStr e = w) := by
    intro e inside unlisted
    rw [Hit, still e (by omega) unlisted]
    rfl
  unfold Right
  cases found : d.lookup w with
  | none =>
    rintro p ⟨inside, hit, _⟩
    rw [count] at inside
    have missing := fun e (h : e < 64) => Device.lookup_none found e h
    exact missing p (by omega) ((plain p inside fun e before => missing e (by omega)).mp hit)
  | some i =>
    have nonempty : w ≠ [] := by
      intro empty
      obtain ⟨e, inside, str, _⟩ := Device.lookup_some found
      exact entryStr_ne_nil dir (by have := full empty; omega) (str.trans empty)
    have small := lookup_small dir found
    rw [dir.lookup_range w nonempty] at found
    obtain ⟨p, first, value⟩ := Option.map_eq_some_iff.mp found
    obtain ⟨str, member, least⟩ := List.find?_range_eq_some.mp first
    have inside := List.mem_range.mp member
    have unlisted : ∀ e, e < p → d.entryStr e ≠ w := by
      intro e before
      simpa using least e before
    refine ⟨p, ⟨by rwa [count], ?_, ?_⟩, ?_⟩
    · exact (plain p inside unlisted).mpr (by simpa using str)
    · intro e before hit
      exact unlisted e before ((plain e (by omega) fun q below => unlisted q (by omega)).mp hit)
    · rw [Numbered, still p (by omega) unlisted]
      refine ⟨by omega, ?_⟩
      change (d.entryInode p).toUInt16.toNat = i.toNat
      rw [value, UInt32.toNat_toUInt16]
      omega

theorem right_iff (full : w = [] → d.entries = 64) : Right d w ↔ InStep d w ∨ ByLuck d w := by
  constructor
  · intro right
    by_cases displaced : ∃ p, Stop d w p ∧ drift d w p = 0
    · left
      obtain ⟨p, stop, zero⟩ := displaced
      have hit := stop.hit
      rw [Hit, zero] at hit
      intro e inside same
      by_cases before : e < p
      · have nothing := (drift_zero_iff d w p).mp zero e before
        by_cases empty : w = []
        · rw [entries_eq dir] at inside
          have some_ := entryStr_ne_nil dir inside
          rw [empty] at same
          cases value : d.entryStr e with
          | nil => exact absurd value some_
          | cons x rest =>
            rw [value] at same
            simp at same
        · exact absurd same ((shared_zero_iff empty).mp nothing)
      · exact ⟨p, by omega, hit⟩
    · right
      unfold Right at right
      unfold ByLuck
      cases found : d.lookup w with
      | none =>
        rw [found] at right
        exact right
      | some i =>
        rw [found] at right
        obtain ⟨p, stop, number⟩ := right
        exact ⟨p, stop, fun zero => displaced ⟨p, stop, zero⟩, number⟩
  · rintro (inStep | luck)
    · exact inStep.right dir full
    · unfold ByLuck at luck
      unfold Right
      cases found : d.lookup w with
      | none =>
        rw [found] at luck
        exact luck
      | some i =>
        rw [found] at luck
        obtain ⟨p, stop, _, number⟩ := luck
        exact ⟨p, stop, number⟩

end

end Sos.Boot
