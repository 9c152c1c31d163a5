import Mathlib.Data.List.Rotate

/-! Going around a range of indices: the first one with a property from some place on, again
and again. -/

namespace Sos.Lib

/-- The indices below `n`, once around, from `a` on. -/
def lap (n a : Nat) : List Nat := (List.range n).map fun i => (a + i) % n

variable {n a : Nat}

@[simp] theorem length_lap (n a : Nat) : (lap n a).length = n := by simp [lap]

theorem lap_mod (n a : Nat) : lap n (a % n) = lap n a := by
  refine List.map_congr_left fun i _ => ?_
  rw [Nat.mod_add_mod]

theorem lap_rotate (n a k : Nat) : (lap n a).rotate k = lap n (a + k) := by
  apply List.ext_getElem
  · simp
  · intro i short _
    rw [List.getElem_rotate]
    simp only [lap, List.getElem_map, List.getElem_range, List.length_map, List.length_range]
    rw [Nat.add_mod_mod, Nat.add_comm i k, Nat.add_assoc]

theorem lap_zero (n : Nat) : lap n 0 = List.range n := by
  refine (List.map_congr_left fun i inside => ?_).trans (List.map_id _)
  rw [List.mem_range] at inside
  rw [Nat.zero_add, Nat.mod_eq_of_lt inside]
  rfl

/-- Each index is met once. -/
theorem lap_perm (n a : Nat) : (lap n a).Perm (List.range n) := by
  rw [← lap_zero, ← Nat.zero_add a, ← lap_rotate]
  exact List.rotate_perm _ _

theorem mem_lap {x : Nat} : x ∈ lap n a ↔ x < n := by
  rw [(lap_perm n a).mem_iff, List.mem_range]

theorem lap_head {x : Nat} {l : List Nat} (first : lap n a = x :: l) : x = a % n := by
  cases n with
  | zero => cases first
  | succ n =>
    rw [lap, List.range_succ_eq_map, List.map_cons] at first
    exact (List.cons.inj first).1.symm

/-- From behind an index, the others come first and that one last. -/
theorem lap_next {x : Nat} {pre post : List Nat} (split : lap n a = pre ++ x :: post) :
    lap n (x + 1) = post ++ pre ++ [x] := by
  have place : x = (a + pre.length) % n := by
    have inside : pre.length < (lap n a).length := by
      rw [split, List.length_append, List.length_cons]
      omega
    have at_ : (lap n a)[pre.length] = x := by simp [split]
    rw [← at_]
    simp [lap]
  have turned := lap_rotate n a (pre.length + 1)
  have parts : (pre ++ x :: post).rotate (pre ++ [x]).length = post ++ (pre ++ [x]) := by
    rw [List.append_cons]
    exact List.rotate_append_length_eq _ _
  rw [List.length_append] at parts
  rw [List.append_assoc, ← parts, ← split]
  refine Eq.trans ?_ turned.symm
  rw [place, ← lap_mod, Nat.mod_add_mod, lap_mod, Nat.add_assoc]

theorem lap_tail {x : Nat} {post : List Nat} (split : lap n a = x :: post) : lap n (x + 1) = post ++ [x] := by
  have whole : lap n a = [] ++ x :: post := split
  rw [lap_next whole, List.append_nil]

/-- Going around from behind an index, that one comes last. -/
theorem lap_last {x : Nat} (small : x < n) :
    ∃ l, lap n (x + 1) = l ++ [x] ∧ ∀ i, i ∈ l ↔ i < n ∧ i ≠ x := by
  have member : x ∈ lap n 0 := mem_lap.mpr small
  obtain ⟨pre, post, whole⟩ := List.append_of_mem member
  have split := lap_next whole
  have once := (lap_perm n (x + 1)).nodup_iff.mpr List.nodup_range
  refine ⟨post ++ pre, split, fun i => ?_⟩
  rw [split] at once
  have apart := (List.nodup_append.mp once).2.2
  constructor
  · intro inside
    refine ⟨mem_lap.mp (by rw [split]; exact List.mem_append_left _ inside), ?_⟩
    rintro rfl
    exact apart i inside i (List.mem_singleton.mpr rfl) rfl
  · rintro ⟨inside, other⟩
    have anywhere : i ∈ lap n (x + 1) := mem_lap.mpr inside
    rw [split] at anywhere
    exact (List.mem_append.mp anywhere).resolve_right fun same => other (List.mem_singleton.mp same)

theorem lap_before {x y : Nat} {pre post : List Nat} (split : lap n (x + 1) = pre ++ y :: post) : x ∉ pre := by
  intro early
  have small : x < n := mem_lap.mp (by rw [split]; exact List.mem_append_left _ early)
  obtain ⟨l, whole, inside⟩ := lap_last small
  obtain ⟨q, z, tail⟩ := (List.eq_nil_or_concat' (y :: post)).resolve_left (by simp)
  rw [split, tail, ← List.append_assoc] at whole
  have same := (List.append_inj' whole rfl).1
  exact ((inside x).mp (by rw [← same]; exact List.mem_append_left q early)).2 rfl

section
variable (p : Nat → Bool)

/-- The first index with the property from each place on, starting anew behind it. -/
def picks (n : Nat) : Nat → Nat → List Nat
  | 0, _ => []
  | m + 1, a =>
    match (lap n a).find? p with
    | some x => x :: picks n m (x + 1)
    | none => []

variable {p}

/-- Behind the first one, it comes last. -/
theorem filter_lap_next {x : Nat} {l : List Nat} (first : (lap n a).filter p = x :: l) :
    (lap n a).find? p = some x ∧ (lap n (x + 1)).filter p = l ++ [x] := by
  obtain ⟨pre, post, split, none, some, rest⟩ := List.filter_eq_cons_iff.mp first
  refine ⟨?_, ?_⟩
  · rw [split, List.find?_append, List.find?_eq_none.mpr none, Option.none_or]
    exact List.find?_cons_of_pos some
  · have empty : pre.filter p = [] := List.filter_eq_nil_iff.mpr none
    rw [lap_next split, List.filter_append, List.filter_append, empty, rest, List.append_nil,
      List.filter_cons_of_pos some, List.filter_nil]

/-- No index is picked a second time before all were. -/
theorem picks_eq {l : List Nat} {m : Nat} (all : (lap n a).filter p = l) (few : m ≤ l.length) :
    picks p n m a = l.take m := by
  induction m generalizing a l with
  | zero => rw [picks, List.take_zero]
  | succ m ih =>
    cases l with
    | nil => simp at few
    | cons x l =>
      obtain ⟨first, next⟩ := filter_lap_next all
      rw [List.length_cons] at few
      rw [picks, first, List.take_succ_cons]
      simp only []
      rw [ih next (by rw [List.length_append]; omega), List.take_append_of_le_length (by omega)]

/-- As many picks as there are indices with the property meet each of them once. -/
theorem picks_perm (p : Nat → Bool) (n a : Nat) :
    (picks p n ((List.range n).filter p).length a).Perm ((List.range n).filter p) := by
  have perm := (lap_perm n a).filter p
  rw [← perm.length_eq, picks_eq rfl (Nat.le_refl _), List.take_length]
  exact perm

end

end Sos.Lib
