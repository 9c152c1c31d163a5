import Sos.Kernel.HeapLists

/-! The walk of `free` finds the free neighbours of a slot. -/

namespace Sos.Kernel
open Sos.Lib

section
variable {R : Region} {l : List Slot} (layout : Layout R l)
include layout

/-- Where a block ends, even when that is the end of the address space. -/
theorem Layout.end_iff {s t : Slot} (hs : s ∈ l) (ht : t ∈ l) :
    s.addr + 8 + s.len = t.addr ↔ s.past = t.first := by
  have past := layout.past_le hs
  have bounds := layout.addr_bounds ht
  have value : (s.addr + 8 + s.len).toNat = s.past % 4294967296 := by
    unfold Slot.past
    rw [UInt32.toNat_add, UInt32.toNat_add]
    simp
  rw [← UInt32.toNat_inj, value]
  unfold Slot.first
  omega

/-- A slot is not on both sides of another one. -/
theorem Layout.one_side {s t : Slot} (hs : s ∈ l) (ht : t ∈ l) (before : t.past = s.first) :
    s.past ≠ t.first := by
  have properS := layout.1.proper s hs
  have properT := layout.1.proper t ht
  omega

/-- What the walk over the free list finds out. -/
structure Found (part : List Slot) (s : Slot) (j : UInt32) (old new : Adjacent) : Prop where
  before : new.before = ((Heap.before part s).map Slot.addr).getD old.before
  after : new.after = ((Heap.after part s).map Slot.addr).getD old.after
  afterPrev : ∀ pre a post, Heap.after part s = some a → part = pre ++ a :: post →
    new.afterPrev = (pre.map Slot.addr).getLastD j
  noAfter : Heap.after part s = none → new.afterPrev = old.afterPrev

omit layout in
/-- A slot that does not begin where `s` ends only moves the previous node on. -/
theorem Found.afterPrev_cons {part : List Slot} {s t : Slot} {j : UInt32} {old new : Adjacent}
    (found : Found part s t.addr old new) (behind : s.past ≠ t.first) :
    ∀ pre a post, Heap.after (t :: part) s = some a → t :: part = pre ++ a :: post →
      new.afterPrev = (pre.map Slot.addr).getLastD j := by
  intro pre a post result split
  cases pre with
  | nil =>
    have same : t = a := (List.cons.inj split).1
    obtain ⟨-, next⟩ := Heap.of_after result
    rw [← same] at next
    exact absurd next behind
  | cons u pre =>
    obtain ⟨rfl, tail⟩ := List.cons.inj split
    have later : Heap.after part s = some a := by
      rw [← result, Heap.after, Heap.after, List.find?_cons_of_neg (by simpa using behind)]
    rw [List.map_cons, List.getLastD_cons]
    exact found.afterPrev pre a post later tail

omit layout in
theorem Found.before_cons {part : List Slot} {s t : Slot} {j : UInt32} {old new : Adjacent}
    (found : Found part s t.addr { old with before := t.addr } new) (before : t.past = s.first)
    (behind : s.past ≠ t.first) (alone : Heap.before part s = none) : Found (t :: part) s j old new := by
  have value := found.before
  rw [alone] at value
  have skip : Heap.after (t :: part) s = Heap.after part s :=
    List.find?_cons_of_neg (by simpa using behind)
  refine ⟨?_, ?_, found.afterPrev_cons behind, ?_⟩
  · rw [Heap.before, List.find?_cons_of_pos (by simpa using before)]
    exact value
  · rw [skip]
    exact found.after
  · rw [skip]
    exact found.noAfter

omit layout in
theorem Found.after_cons {part : List Slot} {s t : Slot} {j : UInt32} {old new : Adjacent}
    (found : Found part s t.addr { old with after := t.addr, afterPrev := j } new)
    (apart : t.past ≠ s.first) (after : s.past = t.first) (alone : Heap.after part s = none)
    (outside : t ∉ part) : Found (t :: part) s j old new := by
  have value := found.after
  rw [alone] at value
  have hit : Heap.after (t :: part) s = some t := List.find?_cons_of_pos (by simpa using after)
  refine ⟨?_, ?_, ?_, ?_⟩
  · rw [Heap.before, List.find?_cons_of_neg (by simpa using apart)]
    exact found.before
  · rw [hit]
    exact value
  · intro pre u post result split
    rw [hit, Option.some.injEq] at result
    subst result
    cases pre with
    | nil => exact found.noAfter alone
    | cons v pre =>
      obtain ⟨-, tail⟩ := List.cons.inj split
      exact absurd (tail ▸ List.mem_append_right pre List.mem_cons_self) outside
  · intro none
    rw [hit] at none
    cases none

omit layout in
theorem Found.skip_cons {part : List Slot} {s t : Slot} {j : UInt32} {old new : Adjacent}
    (found : Found part s t.addr old new) (apart : t.past ≠ s.first) (behind : s.past ≠ t.first) :
    Found (t :: part) s j old new := by
  have skip : Heap.after (t :: part) s = Heap.after part s :=
    List.find?_cons_of_neg (by simpa using behind)
  refine ⟨?_, ?_, found.afterPrev_cons behind, ?_⟩
  · rw [Heap.before, List.find?_cons_of_neg (by simpa using apart)]
    exact found.before
  · rw [skip]
    exact found.after
  · rw [skip]
    exact found.noAfter

/-- A slot has one neighbour on each side at most. -/
theorem before_alone {part : List Slot} {s t : Slot} (ht : t ∈ l) (inside : ∀ u, u ∈ part → u ∈ l)
    (outside : t ∉ part) (before : t.past = s.first) : Heap.before part s = none := by
  refine List.find?_eq_none.mpr fun u mem => ?_
  intro same
  have touch : u.past = s.first := by simpa using same
  have equal := layout.1.eq_of_past (inside u mem) ht (touch.trans before.symm)
  exact outside (equal ▸ mem)

theorem after_alone {part : List Slot} {s t : Slot} (ht : t ∈ l) (inside : ∀ u, u ∈ part → u ∈ l)
    (outside : t ∉ part) (after : s.past = t.first) : Heap.after part s = none := by
  refine List.find?_eq_none.mpr fun u mem => ?_
  intro same
  have touch : s.past = u.first := by simpa using same
  have equal := layout.1.eq_of_first (inside u mem) ht (touch.symm.trans after)
  exact outside (equal ▸ mem)

theorem findAdjacent_done {m : Mem} {s : Slot} (member : s ∈ l) {part : List Slot} {a : UInt32}
    (chain : Chain m.load 0 a (part.map Slot.addr)) (inside : ∀ t, t ∈ part → t ∈ l)
    (ends : ∀ t, t ∈ part → (blockEnd m t.addr = s.addr ↔ t.past = s.first) ∧
      (blockEnd m s.addr = t.addr ↔ s.past = t.first)) (once : part.Nodup)
    (fuel : Nat) (enough : part.length < fuel) (j : UInt32) (old : Adjacent) :
    ∃ new, findAdjacent m s.addr fuel (m.load a) j old = some new ∧ Found part s j old new := by
  induction part generalizing a fuel j old with
  | nil =>
    cases fuel with
    | zero => simp at enough
    | succ fuel =>
      have last : m.load a = 0 := chain
      refine ⟨old, ?_, rfl, rfl, ?_, fun _ => rfl⟩
      · rw [findAdjacent, if_pos last]
      · intro pre t post found
        cases found
  | cons t part ih =>
    cases fuel with
    | zero => simp at enough
    | succ fuel =>
      obtain ⟨first, valid, chain⟩ := chain
      have memberT := inside t (by simp)
      obtain ⟨outside, once⟩ := List.nodup_cons.mp once
      have inside' := fun u (mem : u ∈ part) => inside u (List.mem_cons_of_mem t mem)
      have enough' : part.length < fuel := by simpa using enough
      have ends' := fun u (mem : u ∈ part) => ends u (List.mem_cons_of_mem t mem)
      obtain ⟨endT, endS⟩ := ends t (by simp)
      rw [findAdjacent, first, if_neg valid]
      by_cases before : t.past = s.first
      · obtain ⟨new, run, found⟩ := ih chain inside' ends' once fuel enough' t.addr { old with before := t.addr }
        have alone := before_alone layout memberT inside' outside before
        rw [if_pos (endT.mpr before)]
        exact ⟨new, run, found.before_cons before (layout.one_side member memberT before) alone⟩
      · rw [if_neg (fun same => before (endT.mp same))]
        by_cases after : s.past = t.first
        · obtain ⟨new, run, found⟩ := ih chain inside' ends' once fuel enough' t.addr
            { old with after := t.addr, afterPrev := j }
          have alone := after_alone layout memberT inside' outside after
          rw [if_pos (endS.mpr after)]
          exact ⟨new, run, found.after_cons before after alone outside⟩
        · obtain ⟨new, run, found⟩ := ih chain inside' ends' once fuel enough' t.addr old
          rw [if_neg (fun same => after (endS.mp same))]
          exact ⟨new, run, found.skip_cons before after⟩

end

end Sos.Kernel
