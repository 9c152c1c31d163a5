import Mathlib.Data.Finset.Card
import Mathlib.Data.Finset.Range
import Mathlib.Data.List.Pairwise
import Mathlib.Order.Basic
import Mathlib.Tactic.Common
import Mathlib.Tactic.Order

/-! An interval cut into pieces without gap or overlap. -/

namespace Sos.Lib

section
variable {α β : Type} [LinearOrder α] (first past : β → α)

/-- The half-open pieces `first p ≤ x < past p`, in any order, are the interval from `lo`
to `hi`. -/
structure Tiles (lo hi : α) (l : List β) : Prop where
  proper : ∀ p, p ∈ l → first p < past p
  lower : ∀ p, p ∈ l → lo ≤ first p
  upper : ∀ p, p ∈ l → past p ≤ hi
  apart : l.Pairwise fun p q => past p ≤ first q ∨ past q ≤ first p
  cover : ∀ x, lo ≤ x → x < hi → ∃ p, p ∈ l ∧ first p ≤ x ∧ x < past p

end

namespace Tiles
variable {α β : Type} [LinearOrder α] {first past : β → α} {lo hi : α} {l : List β}

theorem perm {l' : List β} (tiles : Tiles first past lo hi l) (same : l.Perm l') :
    Tiles first past lo hi l' where
  proper := fun p member => tiles.proper p (same.mem_iff.mpr member)
  lower := fun p member => tiles.lower p (same.mem_iff.mpr member)
  upper := fun p member => tiles.upper p (same.mem_iff.mpr member)
  apart := (same.pairwise_iff fun {_ _} => Or.symm).mp tiles.apart
  cover := by
    intro x lower upper
    obtain ⟨p, member, inside⟩ := tiles.cover x lower upper
    exact ⟨p, same.mem_iff.mp member, inside⟩

theorem apart_of_ne (tiles : Tiles first past lo hi l) {p q : β} (hp : p ∈ l) (hq : q ∈ l)
    (differ : p ≠ q) : past p ≤ first q ∨ past q ≤ first p := by
  have : Std.Symm fun p q : β => past p ≤ first q ∨ past q ≤ first p := ⟨fun _ _ => Or.symm⟩
  exact tiles.apart.forall hp hq differ

/-- Every place is in one piece only. -/
theorem unique (tiles : Tiles first past lo hi l) {p q : β} (hp : p ∈ l) (hq : q ∈ l) {x : α}
    (inP : first p ≤ x ∧ x < past p) (inQ : first q ≤ x ∧ x < past q) : p = q := by
  by_contra differ
  obtain ⟨lp, up⟩ := inP
  obtain ⟨lq, uq⟩ := inQ
  rcases tiles.apart_of_ne hp hq differ with left | right
  · order
  · order

theorem eq_of_first (tiles : Tiles first past lo hi l) {p q : β} (hp : p ∈ l) (hq : q ∈ l)
    (same : first p = first q) : p = q :=
  tiles.unique hp hq ⟨le_rfl, tiles.proper p hp⟩
    ⟨same.symm.le, by rw [same]; exact tiles.proper q hq⟩

theorem eq_of_past (tiles : Tiles first past lo hi l) {p q : β} (hp : p ∈ l) (hq : q ∈ l)
    (same : past p = past q) : p = q := by
  by_contra differ
  have properP := tiles.proper p hp
  have properQ := tiles.proper q hq
  rcases tiles.apart_of_ne hp hq differ with left | right
  · order
  · order

theorem nodup (tiles : Tiles first past lo hi l) : l.Nodup := by
  refine List.Pairwise.imp_of_mem ?_ tiles.apart
  intro p q hp hq apart same
  subst same
  have proper := tiles.proper p hp
  rcases apart with left | right
  · order
  · order

/-- One piece for the whole. -/
theorem single {p : β} (proper : first p < past p) : Tiles first past (first p) (past p) [p] where
  proper := by simpa using proper
  lower := by simp
  upper := by simp
  apart := List.pairwise_singleton _ _
  cover := fun x lower upper => ⟨p, by simp, lower, upper⟩

/-- A piece cut in two. -/
theorem split {p a b : β} (tiles : Tiles first past lo hi (p :: l)) (start : first a = first p)
    (cut : past a = first b) (stop : past b = past p) (left : first a < past a)
    (right : first b < past b) : Tiles first past lo hi (a :: b :: l) := by
  have apart := List.pairwise_cons.mp tiles.apart
  have lowerP := tiles.lower p (by simp)
  have upperP := tiles.upper p (by simp)
  refine { proper := ?_, lower := ?_, upper := ?_, apart := ?_, cover := ?_ }
  · intro q member
    rcases List.mem_cons.mp member with rfl | member
    · exact left
    · rcases List.mem_cons.mp member with rfl | member
      · exact right
      · exact tiles.proper q (List.mem_cons_of_mem p member)
  · intro q member
    rcases List.mem_cons.mp member with rfl | member
    · order
    · rcases List.mem_cons.mp member with rfl | member
      · order
      · exact tiles.lower q (List.mem_cons_of_mem p member)
  · intro q member
    rcases List.mem_cons.mp member with rfl | member
    · order
    · rcases List.mem_cons.mp member with rfl | member
      · order
      · exact tiles.upper q (List.mem_cons_of_mem p member)
  · refine List.pairwise_cons.mpr ⟨?_, List.pairwise_cons.mpr ⟨?_, apart.2⟩⟩
    · intro q member
      rcases List.mem_cons.mp member with rfl | member
      · exact Or.inl cut.le
      · rcases apart.1 q member with before | behind
        · left
          order
        · right
          order
    · intro q member
      rcases apart.1 q member with before | behind
      · left
        order
      · right
        order
  · intro x lower upper
    obtain ⟨q, member, inside⟩ := tiles.cover x lower upper
    rcases List.mem_cons.mp member with rfl | member
    · rcases lt_or_ge x (past a) with before | behind
      · exact ⟨a, by simp, by order, before⟩
      · exact ⟨b, by simp, by order, by order⟩
    · exact ⟨q, by simp [member], inside⟩

/-- Two adjacent pieces made one. -/
theorem merge {p a b : β} (tiles : Tiles first past lo hi (a :: b :: l)) (cut : past a = first b)
    (start : first p = first a) (stop : past p = past b) : Tiles first past lo hi (p :: l) := by
  have apartA := List.pairwise_cons.mp tiles.apart
  have apartB := List.pairwise_cons.mp apartA.2
  have properA := tiles.proper a (by simp)
  have properB := tiles.proper b (by simp)
  refine { proper := ?_, lower := ?_, upper := ?_, apart := ?_, cover := ?_ }
  · intro q member
    rcases List.mem_cons.mp member with rfl | member
    · order
    · exact tiles.proper q (by simp [member])
  · intro q member
    rcases List.mem_cons.mp member with rfl | member
    · rw [start]
      exact tiles.lower a (by simp)
    · exact tiles.lower q (by simp [member])
  · intro q member
    rcases List.mem_cons.mp member with rfl | member
    · rw [stop]
      exact tiles.upper b (by simp)
    · exact tiles.upper q (by simp [member])
  · refine List.pairwise_cons.mpr ⟨?_, apartB.2⟩
    intro q member
    have properQ := tiles.proper q (by simp [member])
    rcases apartA.1 q (by simp [member]) with beforeA | behindA
    · rcases apartB.1 q member with beforeB | behindB
      · left
        order
      · exfalso
        order
    · right
      order
  · intro x lower upper
    obtain ⟨q, member, above, below⟩ := tiles.cover x lower upper
    rcases List.mem_cons.mp member with rfl | member
    · exact ⟨p, by simp, by order, by order⟩
    · rcases List.mem_cons.mp member with rfl | member
      · exact ⟨p, by simp, by order, by order⟩
      · exact ⟨q, by simp [member], above, below⟩

/-- Pieces of some width, counted. -/
theorem length_le {first past : β → Nat} {lo hi : Nat} {w : Nat} (positive : 0 < w)
    (tiles : Tiles first past lo hi l) (wide : ∀ p, p ∈ l → first p + w ≤ past p) :
    l.length ≤ (hi - lo) / w := by
  have column : ∀ p, p ∈ l → (first p - lo) / w + 1 ≤ (hi - lo) / w := by
    intro p member
    have lower := tiles.lower p member
    have upper := tiles.upper p member
    have width := wide p member
    rw [← Nat.add_div_right _ positive]
    exact Nat.div_le_div_right (by omega)
  have once : (l.map fun p => (first p - lo) / w).Nodup := by
    refine List.Nodup.map_on ?_ tiles.nodup
    intro p hp q hq same
    by_contra differ
    have far : ∀ a b : Nat, a + w ≤ b → a / w ≠ b / w := by
      intro a b apart
      have step := Nat.div_le_div_right (c := w) apart
      rw [Nat.add_div_right _ positive] at step
      omega
    have lowerP := tiles.lower p hp
    have lowerQ := tiles.lower q hq
    rcases tiles.apart_of_ne hp hq differ with left | right
    · have width := wide p hp
      exact far _ _ (by omega) same
    · have width := wide q hq
      exact far _ _ (by omega) same.symm
  have inside : (l.map fun p => (first p - lo) / w).toFinset ⊆ Finset.range ((hi - lo) / w) := by
    intro x member
    obtain ⟨p, own, value⟩ := List.mem_map.mp (List.mem_toFinset.mp member)
    rw [Finset.mem_range, ← value]
    exact column p own
  have count := Finset.card_le_card inside
  rwa [List.toFinset_card_of_nodup once, List.length_map, Finset.card_range] at count

end Tiles

end Sos.Lib
