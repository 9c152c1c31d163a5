import Sos.Lib.Tiling
import Sos.Kernel.Alloc

/-! The heap as two lists of slots that tile the region, and what allocation and
release do to them. -/

namespace Sos.Kernel
open Sos.Lib

/-- A header of eight bytes and `len` bytes of data behind it. -/
structure Slot where
  addr : UInt32
  len : UInt32
  deriving DecidableEq

namespace Slot

def first (s : Slot) : Nat := s.addr.toNat

def past (s : Slot) : Nat := s.addr.toNat + 8 + s.len.toNat

/-- Address `x` is one of the data bytes. -/
def Has (s : Slot) (x : UInt32) : Prop := s.addr.toNat + 8 ≤ x.toNat ∧ x.toNat < s.past

instance (s : Slot) (x : UInt32) : Decidable (s.Has x) :=
  inferInstanceAs (Decidable (_ ∧ _))

/-- The first `size` bytes of `p`. -/
def part (p : Slot) (size : UInt32) : Slot := ⟨p.addr, size⟩

/-- The slot that remains of `p` when `size` bytes are taken. -/
def rest (p : Slot) (size : UInt32) : Slot := ⟨p.addr + 8 + size, p.len - size - 8⟩

/-- `s` and the slot behind it. -/
def join (s t : Slot) : Slot := ⟨s.addr, s.len + (8 + t.len)⟩

end Slot

structure Region where
  base : UInt32
  length : UInt32
  aligned : Mem.Aligned base
  enough : 16 ≤ length.toNat
  room : base.toNat + length.toNat ≤ 4294967296

namespace Region

def lo (R : Region) : Nat := R.base.toNat + 8

def hi (R : Region) : Nat := R.base.toNat + R.length.toNat

end Region

/-- What `alloc` is asked for, once rounded up. -/
structure Request where
  size : UInt32
  aligned : Mem.Aligned size
  small : size.toNat + 8 < 4294967296

namespace Request

/-- The test that ends the search for a free slot. -/
def fits (q : Request) (s : Slot) : Bool := ¬s.len < q.size + 8

theorem fits_iff (q : Request) (s : Slot) : q.fits s = true ↔ q.size.toNat + 8 ≤ s.len.toNat := by
  have small := q.small
  have sum : (q.size + 8).toNat = q.size.toNat + 8 := by
    rw [UInt32.toNat_add]
    simp
    omega
  rw [fits, decide_eq_true_iff, UInt32.lt_iff_toNat_lt, sum]
  omega

end Request

/-- The slots of a region. -/
def Layout (R : Region) (l : List Slot) : Prop :=
  Tiles Slot.first Slot.past R.lo R.hi l ∧ ∀ s, s ∈ l → Mem.Aligned s.addr

namespace Layout
variable {R : Region} {l : List Slot}

theorem perm {l' : List Slot} (layout : Layout R l) (same : l.Perm l') : Layout R l' :=
  ⟨layout.1.perm same, fun s member => layout.2 s (same.mem_iff.mpr member)⟩

theorem past_le (layout : Layout R l) {s : Slot} (member : s ∈ l) : s.past ≤ 4294967296 := by
  have upper := layout.1.upper s member
  have room := R.room
  unfold Region.hi at upper
  omega

theorem rest_addr {p : Slot} (q : Request) (bound : p.past ≤ 4294967296)
    (fits : q.size.toNat + 8 ≤ p.len.toNat) :
    (p.rest q.size).addr.toNat = p.addr.toNat + 8 + q.size.toNat := by
  unfold Slot.past at bound
  rw [Slot.rest, UInt32.toNat_add, UInt32.toNat_add]
  simp
  omega

theorem rest_len {p : Slot} (q : Request) (fits : q.size.toNat + 8 ≤ p.len.toNat) :
    (p.rest q.size).len.toNat = p.len.toNat - q.size.toNat - 8 := by
  have first : (p.len - q.size).toNat = p.len.toNat - q.size.toNat :=
    UInt32.toNat_sub_of_le _ _ (UInt32.le_iff_toNat_le.mpr (by omega))
  rw [Slot.rest, UInt32.toNat_sub_of_le _ _ (UInt32.le_iff_toNat_le.mpr (by
    rw [first]
    simp
    omega)), first]
  rfl

/-- A free slot is cut into the part that is used and the rest. -/
theorem split {p : Slot} (q : Request) (layout : Layout R (p :: l))
    (fits : q.size.toNat + 8 ≤ p.len.toNat) :
    Layout R (p.part q.size :: p.rest q.size :: l) := by
  have bound := layout.past_le (s := p) (by simp)
  have addr := rest_addr q bound fits
  have len := rest_len q fits
  refine ⟨layout.1.split rfl ?_ ?_ ?_ ?_, ?_⟩
  · simp only [Slot.first, Slot.past, Slot.part, addr]
  · simp only [Slot.past, addr, len]
    omega
  · simp only [Slot.first, Slot.past, Slot.part]
    omega
  · simp only [Slot.first, Slot.past, addr]
    omega
  · intro s member
    have alignedP := layout.2 p (by simp)
    rcases List.mem_cons.mp member with rfl | member
    · exact alignedP
    · rcases List.mem_cons.mp member with rfl | member
      · exact (alignedP.add (by decide)).add q.aligned
      · exact layout.2 s (List.mem_cons_of_mem p member)

theorem join_len {s t : Slot} (layout : Layout R (s :: t :: l)) (next : s.past = t.first) :
    (s.join t).len.toNat = s.len.toNat + (8 + t.len.toNat) := by
  have bound := layout.past_le (s := t) (by simp)
  unfold Slot.past Slot.first at next
  unfold Slot.past at bound
  rw [Slot.join, UInt32.toNat_add, UInt32.toNat_add]
  simp
  omega

/-- Two neighbours become one slot. -/
theorem join {s t : Slot} (layout : Layout R (s :: t :: l)) (next : s.past = t.first) :
    Layout R (s.join t :: l) := by
  have len := layout.join_len next
  refine ⟨layout.1.merge next rfl ?_, ?_⟩
  · unfold Slot.past Slot.first at *
    rw [len]
    simp only [Slot.join]
    omega
  · intro u member
    rcases List.mem_cons.mp member with rfl | member
    · exact layout.2 s (by simp)
    · exact layout.2 u (by simp [member])

end Layout

/-- The heap: free and used slots, each list in the order in which it is walked. -/
structure Heap (R : Region) where
  free : List Slot
  used : List Slot
  layout : Layout R (free ++ used)

namespace Heap
variable {R : Region}

/-- One free slot behind the two list heads. -/
def init (R : Region) : Heap R where
  free := [⟨R.base + 8, R.length - 8 - 8⟩]
  used := []
  layout := by
    have enough := R.enough
    have room := R.room
    have addr : (R.base + 8).toNat = R.base.toNat + 8 := by
      rw [UInt32.toNat_add]
      simp
      omega
    have once : (R.length - 8).toNat = R.length.toNat - 8 :=
      UInt32.toNat_sub_of_le _ _ (UInt32.le_iff_toNat_le.mpr (by simp; omega))
    have len : (R.length - 8 - 8).toNat = R.length.toNat - 16 := by
      rw [UInt32.toNat_sub_of_le _ _ (UInt32.le_iff_toNat_le.mpr (by rw [once]; simp; omega)), once]
      simp
      omega
    have lo : Slot.first ⟨R.base + 8, R.length - 8 - 8⟩ = R.lo := addr
    have hi : Slot.past ⟨R.base + 8, R.length - 8 - 8⟩ = R.hi := by
      simp only [Slot.past, addr, len, Region.hi]
      omega
    refine ⟨?_, ?_⟩
    · rw [← lo, ← hi]
      exact Tiles.single (by rw [lo, hi, Region.lo, Region.hi]; omega)
    · intro s member
      rw [List.append_nil, List.mem_singleton] at member
      subst member
      exact R.aligned.add (by decide)

/-- The first free slot that is large enough gives its first part. -/
def alloc (h : Heap R) (q : Request) : Option (Slot × Heap R) :=
  match found : h.free.find? q.fits with
  | none => none
  | some p => some (p.part q.size,
    { free := p.rest q.size :: h.free.erase p
      used := p.part q.size :: h.used
      layout := by
        have member := List.mem_of_find?_eq_some found
        have fits := (q.fits_iff p).mp (List.find?_some found)
        have order : (h.free ++ h.used).Perm (p :: (h.free.erase p ++ h.used)) :=
          (List.perm_cons_erase member).append_right h.used
        have layout := (h.layout.perm order).split q fits
        refine layout.perm ?_
        exact (List.Perm.swap _ _ _).trans
          (List.Perm.cons _ (@List.perm_middle _ _ (h.free.erase p) h.used).symm) })

/-- The free slot that ends where `s` begins. -/
def before (free : List Slot) (s : Slot) : Option Slot := free.find? fun b => b.past = s.first

/-- The free slot that begins where `s` ends. -/
def after (free : List Slot) (s : Slot) : Option Slot := free.find? fun a => s.past = a.first

theorem of_before {free : List Slot} {s b : Slot} (found : before free s = some b) : b ∈ free ∧ b.past = s.first :=
  ⟨List.mem_of_find?_eq_some found, by simpa using List.find?_some found⟩

theorem of_after {free : List Slot} {s a : Slot} (found : after free s = some a) : a ∈ free ∧ s.past = a.first :=
  ⟨List.mem_of_find?_eq_some found, by simpa using List.find?_some found⟩

theorem before_none {free : List Slot} {s : Slot} (missing : before free s = none) :
    ∀ q, q ∈ free → q.past ≠ s.first := by
  intro q member
  simpa using List.find?_eq_none.mp missing q member

theorem after_none {free : List Slot} {s : Slot} (missing : after free s = none) :
    ∀ q, q ∈ free → s.past ≠ q.first := by
  intro q member
  simpa using List.find?_eq_none.mp missing q member

/-- The free list with `s` put back, joined with its free neighbours. -/
def putBack (free : List Slot) (s : Slot) : List Slot :=
  match before free s, after free s with
  | none, none => s :: free
  | none, some a => s.join a :: free.erase a
  | some b, none => free.map fun x => if x = b then b.join s else x
  | some b, some a => (free.erase a).map fun x => if x = b then (b.join s).join a else x

end Heap

theorem replace_perm {l : List Slot} {b b' : Slot} (once : l.Nodup) (member : b ∈ l) :
    (l.map fun x => if x = b then b' else x).Perm (b' :: l.erase b) := by
  have order := (List.perm_cons_erase member).map fun x => if x = b then b' else x
  rw [List.map_cons, if_pos rfl] at order
  have same : (l.erase b).map (fun x => if x = b then b' else x) = (l.erase b).map id := by
    apply List.map_congr_left
    intro x inside
    rw [if_neg]
    · rfl
    · rintro rfl
      exact once.not_mem_erase inside
  rwa [same, List.map_id] at order

namespace Heap
variable {R : Region}

theorem layout_putBack {free rest : List Slot} {s : Slot} (layout : Layout R (free ++ s :: rest)) :
    Layout R (putBack free s ++ rest) := by
  have once : free.Nodup := (List.nodup_append.mp layout.1.nodup).1
  unfold putBack
  cases findB : before free s with
  | none =>
    cases findA : after free s with
    | none => exact layout.perm List.perm_middle
    | some a =>
      obtain ⟨member, next⟩ := of_after findA
      have order : (free ++ s :: rest).Perm (s :: a :: (free.erase a ++ rest)) :=
        List.perm_middle.trans (((List.perm_cons_erase member).append_right rest).cons s)
      exact (layout.perm order).join next
  | some b =>
    obtain ⟨memberB, nextB⟩ := of_before findB
    cases findA : after free s with
    | none =>
      have order : (free ++ s :: rest).Perm (b :: s :: (free.erase b ++ rest)) :=
        (List.perm_middle.trans (((List.perm_cons_erase memberB).append_right rest).cons s)).trans
          (List.Perm.swap _ _ _)
      refine ((layout.perm order).join nextB).perm ?_
      exact ((replace_perm once memberB).append_right rest).symm
    | some a =>
      obtain ⟨memberA, nextA⟩ := of_after findA
      have proper := layout.1.proper s (by simp)
      have differ : b ≠ a := by
        rintro rfl
        have properB := layout.1.proper b (by simp [memberB])
        omega
      have memberB' : b ∈ free.erase a := (List.mem_erase_of_ne differ).mpr memberB
      have order : (free ++ s :: rest).Perm (b :: s :: a :: ((free.erase a).erase b ++ rest)) := by
        have first : (free ++ s :: rest).Perm (s :: a :: (free.erase a ++ rest)) :=
          List.perm_middle.trans (((List.perm_cons_erase memberA).append_right rest).cons s)
        have second : (s :: a :: (free.erase a ++ rest)).Perm
            (s :: a :: b :: ((free.erase a).erase b ++ rest)) :=
          (((List.perm_cons_erase memberB').append_right rest).cons a).cons s
        refine (first.trans second).trans ?_
        exact ((List.Perm.swap b a _).cons s).trans (List.Perm.swap b s _)
      have joined := (layout.perm order).join nextB
      have len := (layout.perm order).join_len nextB
      have next : (b.join s).past = a.first := by
        unfold Slot.past Slot.first at *
        rw [len]
        simp only [Slot.join]
        omega
      refine (joined.join next).perm ?_
      exact ((replace_perm (once.erase a) memberB').append_right rest).symm

/-- The slot at an address given back; `none` when no used slot is there. -/
def release (h : Heap R) (f : UInt32) : Option (Heap R) :=
  match found : h.used.find? fun s => s.addr = f with
  | none => none
  | some s => some
    { free := putBack h.free s
      used := h.used.erase s
      layout := by
        have member := List.mem_of_find?_eq_some found
        exact layout_putBack (h.layout.perm ((List.perm_cons_erase member).append_left h.free)) }

end Heap

end Sos.Kernel
