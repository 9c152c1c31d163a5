import Sos.Kernel.HeapAlloc
import Sos.Kernel.HeapFree
import Sos.Kernel.HeapRuns

/-! The free block at the end of the heap, where the memory makes it longer than its region is. -/

namespace Sos.Kernel
open Sos.Lib

/-- What is in memory as the length of a block: `beyond` is added to the last one. -/
def Region.stored (R : Region) (beyond : UInt32) (s : Slot) : UInt32 :=
  if s.past = R.hi then s.len + beyond else s.len

/-- The last block of the region is free, and has `n` bytes at least. -/
def Heap.Spare {R : Region} (h : Heap R) (n : ℕ) : Prop :=
  ∃ last, last ∈ h.free ∧ last.past = R.hi ∧ n ≤ last.len.toNat

section
variable {R : Region} {beyond : UInt32} {l : List Slot} (layout : Layout R l)

theorem stored_inner {s : Slot} (inner : s.past < R.hi) : R.stored beyond s = s.len := if_neg inner.ne

theorem stored_last {s : Slot} (last : s.past = R.hi) : R.stored beyond s = s.len + beyond := if_pos last

/-- A block that is cut has its length in memory cut. -/
theorem stored_cut {s : Slot} (q : Request) (upper : s.past ≤ R.hi) (fits : q.size.toNat + 8 ≤ s.len.toNat) :
    R.stored beyond (s.part q.size) = q.size ∧
      R.stored beyond (s.rest q.size) = R.stored beyond s - q.size - 8 := by
  have room : R.hi ≤ 4294967296 := R.room
  have addr := Layout.rest_addr q (upper.trans room) fits
  have len := Layout.rest_len q fits
  have past : (s.rest q.size).past = s.past := by
    simp only [Slot.past, addr, len]
    omega
  constructor
  · refine stored_inner ?_
    unfold Slot.past at upper ⊢
    change s.addr.toNat + 8 + q.size.toNat < R.hi
    omega
  · unfold Region.stored
    rw [past]
    by_cases last : s.past = R.hi
    · rw [if_pos last, if_pos last]
      change s.len - q.size - 8 + beyond = _
      grind
    · rw [if_neg last, if_neg last]
      rfl

include layout

/-- Of two neighbours the second one can be the last. -/
theorem stored_whole : Whole l (R.stored beyond) := by
  intro s t member next
  have upper := layout.1.upper t member
  have proper := layout.1.proper t member
  have past := layout.join_past member next
  have inner : s.past < R.hi := by omega
  rw [stored_inner inner]
  unfold Region.stored
  rw [past]
  by_cases last : t.past = R.hi
  · rw [if_pos last, if_pos last]
    change s.len + (8 + t.len) + beyond = _
    grind
  · rw [if_neg last, if_neg last]
    rfl

/-- In memory the last block ends where no block begins. -/
theorem stored_ends (clear : ∀ t, t ∈ l → t.addr.toNat ≠ (R.hi + beyond.toNat) % 4294967296) (s t : Slot)
    (hs : s ∈ l) (ht : t ∈ l) : s.addr + 8 + R.stored beyond s = t.addr ↔ s.past = t.first := by
  by_cases last : s.past = R.hi
  · rw [stored_last last]
    refine iff_of_false ?_ ?_
    · intro same
      have value := congrArg UInt32.toNat same
      rw [UInt32.toNat_add, UInt32.toNat_add, UInt32.toNat_add] at value
      refine clear t ht (value.symm.trans ?_)
      rw [← last, Slot.past]
      simp
      omega
    · have proper := layout.1.proper t ht
      have upper := layout.1.upper t ht
      omega
  · rw [Region.stored, if_neg last]
    exact layout.end_iff hs ht

end

namespace Heap
variable {R : Region} {h : Heap R} {n : ℕ}

/-- What is used is in front of it. -/
theorem Spare.past_le (spare : h.Spare n) {b : Slot} (member : b ∈ h.used) : b.past + 8 + n ≤ R.hi := by
  obtain ⟨last, free, past, long⟩ := spare
  have differ : b ≠ last := by
    rintro rfl
    exact (List.nodup_append.mp h.layout.1.nodup).2.2 _ free _ member rfl
  have apart := h.layout.1.apart_of_ne (List.mem_append_right _ member) (List.mem_append_left _ free) differ
  have upper := h.layout.1.upper b (List.mem_append_right _ member)
  have proper := h.layout.1.proper b (List.mem_append_right _ member)
  unfold Slot.first at apart proper
  unfold Slot.past at past
  rcases apart with before | behind
  · omega
  · unfold Slot.past at behind upper proper
    omega

/-- One request takes its size and a header from it. -/
theorem Spare.alloc {q : Request} {s : Slot} {h' : Heap R} (result : h.alloc q = some (s, h'))
    (spare : h.Spare (n + (q.size.toNat + 8))) : h'.Spare n := by
  obtain ⟨pre, p, post, split, passes, -, free, -⟩ := h.of_alloc_some result
  obtain ⟨last, member, past, long⟩ := spare
  have fits := (q.fits_iff p).mp passes
  rw [split] at member
  have order : last = p ∨ last ∈ pre ++ post := by
    simp only [List.mem_append, List.mem_cons] at member ⊢
    tauto
  rcases order with rfl | other
  · have upper := past.le.trans (show R.hi ≤ 4294967296 from R.room)
    have addr := Layout.rest_addr q upper fits
    have len := Layout.rest_len q fits
    refine ⟨last.rest q.size, by rw [free]; exact List.mem_cons_self, ?_, by omega⟩
    rw [← past]
    simp only [Slot.past, addr, len]
    omega
  · exact ⟨last, by rw [free]; exact List.mem_cons_of_mem _ other, past, by omega⟩

/-- What is given back can only make it longer. -/
theorem Spare.putBack {free rest : List Slot} {s : Slot} (layout : Layout R (free ++ s :: rest)) {last : Slot}
    (member : last ∈ free) (past : last.past = R.hi) :
    ∃ last', last' ∈ putBack free s ∧ last'.past = R.hi ∧ last.len.toNat ≤ last'.len.toNat := by
  have own : s ∈ free ++ s :: rest := by simp
  have inside : ∀ t, t ∈ free → t ∈ free ++ s :: rest := fun t link => List.mem_append_left _ link
  have upper := layout.1.upper s own
  have proper := layout.1.proper s own
  have longer : ∀ u : Slot, u.past = last.first → (u.join last).past = R.hi ∧
      last.len.toNat ≤ (u.join last).len.toNat := by
    intro u next
    have joined := layout.join_past (inside last member) next
    refine ⟨joined.trans past, ?_⟩
    rw [Slot.past, Slot.past] at joined
    unfold Slot.past Slot.first at next
    change u.addr.toNat + 8 + (u.join last).len.toNat = _ at joined
    omega
  unfold Heap.putBack
  cases findB : before free s with
  | none =>
    cases findA : after free s with
    | none => exact ⟨last, List.mem_cons_of_mem _ member, past, le_rfl⟩
    | some a =>
      obtain ⟨-, next⟩ := of_after findA
      by_cases same : last = a
      · subst same
        exact ⟨s.join last, List.mem_cons_self, longer s next⟩
      · exact ⟨last, List.mem_cons_of_mem _ ((List.mem_erase_of_ne same).mpr member), past, le_rfl⟩
  | some b =>
    obtain ⟨memberB, nextB⟩ := of_before findB
    have differ : last ≠ b := by
      rintro rfl
      omega
    cases findA : after free s with
    | none => exact ⟨last, List.mem_map.mpr ⟨last, member, if_neg differ⟩, past, le_rfl⟩
    | some a =>
      obtain ⟨memberA, nextA⟩ := of_after findA
      by_cases same : last = a
      · subst same
        have next : (b.join s).past = last.first := (layout.join_past own nextB).trans nextA
        refine ⟨(b.join s).join last, List.mem_map.mpr ⟨b, ?_, if_pos rfl⟩, longer _ next⟩
        exact (List.mem_erase_of_ne differ.symm).mpr memberB
      · refine ⟨last, List.mem_map.mpr ⟨last, ?_, if_neg differ⟩, past, le_rfl⟩
        exact (List.mem_erase_of_ne same).mpr member

theorem Spare.release {f : UInt32} {h' : Heap R} (result : h.release f = some h') (spare : h.Spare n) :
    h'.Spare n := by
  rcases h.release_cases f with ⟨none, -⟩ | ⟨pre, s, post, h'', split, -, -, some, free, -⟩
  · rw [none] at result
    cases result
  · rw [some, Option.some.injEq] at result
    subst result
    obtain ⟨last, member, past, long⟩ := spare
    have order : (h.free ++ h.used).Perm (h.free ++ s :: (pre ++ post)) := by
      rw [split]
      exact List.perm_middle.append_left h.free
    obtain ⟨last', member', past', longer⟩ := Spare.putBack (h.layout.perm order) member past
    exact ⟨last', by rw [free]; exact member', past', long.trans longer⟩

end Heap

namespace Sized
variable {R : Region} {beyond : UInt32} {h : Heap R} {m : Mem} {n : ℕ}
  (sized : Sized R (R.stored beyond) m h.free h.used)
include sized

omit sized in
/-- A request that the last block can meet passes the same blocks by their lengths in memory. -/
theorem stored_fits (spare : h.Spare n) (room : R.length.toNat + beyond.toNat < 4294967296) {size : UInt32} {k : ℕ}
    (fits : k + ((size.toNat + 3) / 4 * 4 + 8) = n) (small : (size.toNat + 3) / 4 * 4 + 8 < 4294967296) {s : Slot}
    (member : s ∈ h.free) : decide (¬R.stored beyond s < roundUp size + 8) = (Request.of size small).fits s := by
  have rounded : (roundUp size).toNat = (size.toNat + 3) / 4 * 4 := roundUp_toNat small
  by_cases inner : s.past < R.hi
  · rw [stored_inner inner]
    rfl
  · have inside := List.mem_append_left h.used member
    have past : s.past = R.hi := le_antisymm (h.layout.1.upper s inside) (not_lt.mp inner)
    obtain ⟨last, memberL, pastL, long⟩ := spare
    obtain rfl : s = last := h.layout.1.eq_of_past inside (List.mem_append_left _ memberL) (past.trans pastL.symm)
    have bounds := h.layout.addr_bounds inside
    have sum : (roundUp size + 8).toNat = (roundUp size).toNat + 8 := by
      rw [UInt32.toNat_add]
      simp
      omega
    have whole : (s.len + beyond).toNat = s.len.toNat + beyond.toNat := by
      unfold Slot.past Region.hi at past
      rw [UInt32.toNat_add]
      exact Nat.mod_eq_of_lt (by omega)
    have passes : (Request.of size small).fits s = true :=
      ((Request.of size small).fits_iff s).mpr (show (roundUp size).toNat + 8 ≤ _ by omega)
    rw [passes, stored_last past, decide_eq_true_iff, UInt32.lt_iff_toNat_lt, sum, whole]
    omega

/-- A request that the last block can meet is met. -/
theorem alloc_spare (spare : h.Spare n) (room : R.length.toNat + beyond.toNat < 4294967296) {fuel : ℕ}
    (enough : h.free.length < fuel) {size : UInt32} {k : ℕ} (fits : k + ((size.toNat + 3) / 4 * 4 + 8) = n) :
    ∃ (s : Slot) (h' : Heap R) (m' : Mem), h'.used = s :: h.used ∧ s.len = roundUp size ∧
      alloc fuel R.base size m = .done (s.addr + 8) m' ∧ Sized R (R.stored beyond) m' h'.free h'.used ∧ h'.Spare k := by
  obtain ⟨last, member, end_eq, long⟩ := spare
  have bound := last.len.toNat_lt
  have small : (size.toNat + 3) / 4 * 4 + 8 < 4294967296 := by omega
  have rounded : (roundUp size).toNat = (size.toNat + 3) / 4 * 4 := roundUp_toNat small
  have spare : h.Spare n := ⟨last, member, end_eq, long⟩
  have passes : (Request.of size small).fits last = true :=
    ((Request.of size small).fits_iff last).mpr (show (roundUp size).toNat + 8 ≤ _ by omega)
  have test : ∀ s, s ∈ h.free →
      decide (¬R.stored beyond s < roundUp size + 8) = (Request.of size small).fits s :=
    fun s listed => stored_fits spare room fits small listed
  have cut : ∀ s, s ∈ h.free → (Request.of size small).fits s = true →
      R.stored beyond (s.part (roundUp size)) = roundUp size ∧
        R.stored beyond (s.rest (roundUp size)) = R.stored beyond s - roundUp size - 8 := fun s listed fit =>
    stored_cut (Request.of size small) (h.layout.1.upper s (List.mem_append_left _ listed))
      (((Request.of size small).fits_iff s).mp fit)
  rcases sized.alloc_done h enough size small test cut with ⟨none, -⟩ | ⟨s, h', m', result, run, sized', -⟩
  · rcases h.alloc_cases (Request.of size small) with ⟨-, refused⟩ | ⟨_, _, _, _, -, -, -, some, -⟩
    · rw [refused last member] at passes
      cases passes
    · rw [none] at some
      cases some
  · obtain ⟨_, p, _, -, -, same, -, used⟩ := h.of_alloc_some result
    have total : k + ((Request.of size small).size.toNat + 8) = n := by
      change k + ((roundUp size).toNat + 8) = n
      omega
    have length : s.len = roundUp size := by rw [same]; rfl
    rw [← total] at spare
    exact ⟨s, h', m', used, length, run, sized', Heap.Spare.alloc result spare⟩

/-- What is given back is joined with its neighbours in memory as well. -/
theorem free_spare (spare : h.Spare n) {fuel : ℕ} (enough : (h.free ++ h.used).length < fuel)
    (clear : ∀ t, t ∈ h.free ++ h.used → t.addr.toNat ≠ (R.hi + beyond.toNat) % 4294967296) (pointer : UInt32) :
    ∃ (r : Int) (h' : Heap R) (m' : Mem), free fuel R.base pointer m = .done r m' ∧
      (r = retSuccess ∨ m' = m) ∧ h'.used = (h.used.eraseP fun b => b.addr = pointer - 8) ∧
      Sized R (R.stored beyond) m' h'.free h'.used ∧ h'.Spare n := by
  rcases sized.free_done h enough (stored_whole h.layout) (stored_ends h.layout clear) pointer with
    ⟨none, run⟩ | ⟨h', m', result, run, sized', -⟩
  · refine ⟨_, h, m, run, Or.inr rfl, ?_, sized, spare⟩
    rcases h.release_cases (pointer - 8) with ⟨-, absent⟩ | ⟨_, _, _, _, -, -, -, some, -⟩
    · rw [List.eraseP_of_forall_not]
      intro b member
      simpa using absent b member
    · rw [none] at some
      cases some
  · exact ⟨_, h', m', run, Or.inl rfl, h.release_some result, sized', spare.release result⟩

end Sized

end Sos.Kernel
