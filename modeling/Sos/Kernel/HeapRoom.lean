import Sos.Kernel.HeapSizes

/-! When `alloc` finds no room: its search asks for a header behind the data as well, which a
block that is used whole does not need. -/

namespace Sos.Kernel
open Sos.Lib

/-- A size rounded up to whole words. -/
def wholeWords (size : UInt32) : Nat := (size.toNat + 3) / 4 * 4

/-- The request is refused if and only if no free block has the bytes, and one that has just
these is used whole when there is no larger one. -/
structure Finds (size p : UInt32) (R : Region) (free : List Slot) (m : Mem) : Prop where
  refused : p = 0 ↔ ∀ b, b ∈ free → b.len.toNat < wholeWords size
  whole : ∀ b, b ∈ free → b.len.toNat = wholeWords size → (∀ c, c ∈ free → c.len.toNat ≤ wholeWords size) →
    ∃ c, c ∈ free ∧ c.len = b.len ∧ p = c.addr + 8 ∧ FreeList R m (free.erase c)

/-- The call finds room where there is room. -/
def UsesRoom (R : Region) (fuel : Nat) (size : UInt32) (s : Clients) : Prop :=
  ∃ free p m, FreeList R s.mem free ∧ alloc fuel R.base size s.mem = .done p m ∧ Finds size p R free m

/-- A free block has room for a header behind the data, or none has room for the data. -/
def RoomToSpare (R : Region) (size : UInt32) (s : Clients) : Prop := ∃ free, FreeList R s.mem free ∧
  ((∃ b, b ∈ free ∧ wholeWords size + 8 ≤ b.len.toNat) ∨ ∀ b, b ∈ free → b.len.toNat < wholeWords size)

theorem Request.of_fits {size : UInt32} (small : (size.toNat + 3) / 4 * 4 + 8 < 4294967296) (b : Slot) :
    (Request.of size small).fits b = true ↔ wholeWords size + 8 ≤ b.len.toNat := by
  have rounded : (Request.of size small).size.toNat = wholeWords size := roundUp_toNat small
  rw [Request.fits_iff, rounded]

section
variable {R : Region} {s : Clients} {h : Heap R} (tracks : Tracks s h) {fuel : Nat}
  (enough : R.length.toNat / 8 < fuel) {size : UInt32}
  (small : (size.toNat + 3) / 4 * 4 + 8 < 4294967296)
include tracks enough small

/-- The call is refused if and only if no free block has room for data and header. -/
theorem Tracks.alloc_refused : ∃ p m, Kernel.alloc fuel R.base size s.mem = .done p m ∧
    (p = 0 ↔ ∀ b, b ∈ h.free → b.len.toNat < wholeWords size + 8) := by
  have count := h.layout.among_left
  have steps : h.free.length < fuel := by omega
  rcases alloc_done h tracks.rep steps size small with ⟨none, run⟩ | ⟨b, h', m, result, run, -, -⟩
  · refine ⟨0, s.mem, run, iff_of_true rfl fun b member => ?_⟩
    rcases h.alloc_cases (Request.of size small) with ⟨-, unfit⟩ | ⟨_, _, _, _, -, -, -, some, -, -⟩
    · have misses := unfit b member
      by_contra fits
      rw [(Request.of_fits small b).mpr (not_lt.mp fits)] at misses
      cases misses
    · rw [none] at some
      cases some
  · obtain ⟨-, -, valid⟩ := h.alloc_some result
    refine ⟨_, m, run, iff_of_false valid fun none => ?_⟩
    obtain ⟨pre, c, post, split, fits, -⟩ := h.of_alloc_some result
    have room := (Request.of_fits small c).mp fits
    have bound := none c (by simp [split])
    omega

theorem Tracks.usesRoom_iff : UsesRoom R fuel size s ↔ RoomToSpare R size s := by
  obtain ⟨p, m, run, refused⟩ := tracks.alloc_refused enough small
  constructor
  · rintro ⟨free, p', m', list, run', finds⟩
    rw [run, Outcome.done.injEq] at run'
    obtain ⟨rfl, rfl⟩ := run'
    obtain rfl := list.unique tracks.freeList
    refine ⟨h.free, list, ?_⟩
    by_contra tight
    rw [not_or] at tight
    refine tight.2 (finds.refused.mp (refused.mpr fun b member => ?_))
    by_contra room
    exact tight.1 ⟨b, member, not_lt.mp room⟩
  · rintro ⟨free, list, room⟩
    obtain rfl := list.unique tracks.freeList
    refine ⟨h.free, p, m, list, run, ⟨refused.trans ?_, ?_⟩⟩
    · rcases room with ⟨b, member, spare⟩ | none
      · refine iff_of_false (fun all => ?_) fun all => ?_
        · have bound := all b member
          omega
        · have bound := all b member
          omega
      · refine iff_of_true (fun b member => ?_) none
        have bound := none b member
        omega
    · intro b member exact_ largest
      rcases room with ⟨c, other, spare⟩ | none
      · have bound := largest c other
        omega
      · have bound := none b member
        omega

end

/-- After any calls `alloc` fails exactly for want of room if and only if there is no free block
that has room for the data and not for another header. -/
theorem heap_room_iff (R : Region) (m : Mem) {fuel : Nat} (enough : R.length.toNat / 8 < fuel) :
    ∃ m₀, initAlloc R.base R.length m = .done retSuccess m₀ ∧
      ∀ log s, Runs (Clients.step fuel R.base) (Clients.Careful R) ⟨m₀, []⟩ log s →
        ∀ size : UInt32, (size.toNat + 3) / 4 * 4 + 8 < 4294967296 →
          (UsesRoom R fuel size s ↔ RoomToSpare R size s) := by
  obtain ⟨m₀, run, init⟩ := initAlloc_done R m
  refine ⟨m₀, run, fun log s runs size small => ?_⟩
  obtain ⟨h, tracks⟩ := Tracks.of_careful enough init runs
  exact tracks.usesRoom_iff enough small

theorem heap_room_iff_megabyte : ∃ m₀, initAlloc 0x100000 0x100000 (fun _ => 0) = .done retSuccess m₀ ∧
    ∀ log s, Runs (Clients.step 131073 0x100000) (Clients.Careful megabyte) ⟨m₀, []⟩ log s →
      ∀ size : UInt32, (size.toNat + 3) / 4 * 4 + 8 < 4294967296 →
        (UsesRoom megabyte 131073 size s ↔ RoomToSpare megabyte size s) :=
  heap_room_iff megabyte (fun _ => 0) (by decide)

/-- A heap of one block, which has room for 32 bytes. -/
def oneBlock : Region where
  base := 0x200000
  length := 48
  aligned := rfl
  enough := Nat.le_of_ble_eq_true rfl
  room := Nat.le_of_ble_eq_true rfl

/-- The one block has just the 32 bytes of the request, which is refused. -/
theorem heap_room_exact : ∃ m₀ m, initAlloc 0x200000 48 (fun _ => 0) = .done retSuccess m₀ ∧
    alloc 7 0x200000 32 m₀ = .done 0 m ∧ ¬UsesRoom oneBlock 7 32 ⟨m₀, []⟩ := by
  obtain ⟨m₀, run, init⟩ := initAlloc_done oneBlock fun _ => 0
  have tracks : Tracks ⟨m₀, []⟩ (Heap.init oneBlock) := ⟨rfl, init⟩
  have enough : oneBlock.length.toNat / 8 < 7 := by decide
  have only : (Heap.init oneBlock).free = [⟨0x200008, 32⟩] := rfl
  obtain ⟨p, m, given, refused⟩ := tracks.alloc_refused enough
    (show ((32 : UInt32).toNat + 3) / 4 * 4 + 8 < 4294967296 by decide)
  obtain rfl := refused.mpr fun b member => by
    rw [only, List.mem_singleton] at member
    subst member
    decide
  refine ⟨m₀, m, run, given, fun uses => ?_⟩
  obtain ⟨free, list, room⟩ := (tracks.usesRoom_iff enough (by decide)).mp uses
  rw [list.unique tracks.freeList, only] at room
  revert room
  decide

end Sos.Kernel
