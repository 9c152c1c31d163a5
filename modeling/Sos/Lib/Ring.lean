import Mathlib.Data.Nat.ModEq
import Mathlib.Logic.Function.Basic
import Mathlib.Data.List.Basic

/-! A queue kept in an array that wraps around. -/

namespace Sos.Lib

/-- The `count` elements from the cell `head` on, in an array of `n` cells. -/
def ring {α : Type} (cells : Nat → α) (n head count : Nat) : List α :=
  (List.range count).map fun i => cells ((head + i) % n)

variable {α : Type} {cells : Nat → α} {n head count : Nat}

@[simp] theorem length_ring : (ring cells n head count).length = count := by simp [ring]

theorem ring_ne {i j : Nat} (hi : i < n) (hj : j < n) (differ : i ≠ j) :
    (head + i) % n ≠ (head + j) % n := fun same =>
  differ ((Nat.ModEq.add_left_cancel' head same).eq_of_lt_of_lt hi hj)

/-- An element put into the cell behind the last one. -/
theorem ring_push (room : count < n) (x : α) :
    ring (Function.update cells ((head + count) % n) x) n head (count + 1) =
      ring cells n head count ++ [x] := by
  rw [ring, List.range_succ, List.map_append, List.map_singleton, Function.update_self, ring]
  congr 1
  apply List.map_congr_left
  intro i inside
  have before := List.mem_range.mp inside
  exact Function.update_of_ne (ring_ne (by omega) room (by omega)) _ _

/-- The first element, and the others from the next cell on. -/
theorem ring_pop : ring cells n head (count + 1) =
    cells (head % n) :: ring cells n ((head + 1) % n) count := by
  rw [ring, List.range_succ_eq_map, List.map_cons, List.map_map, ring, Nat.add_zero]
  congr 1
  apply List.map_congr_left
  intro i _
  rw [Function.comp_apply, Nat.mod_add_mod, Nat.succ_eq_add_one]
  congr 2
  omega

theorem ring_eq_nil : ring cells n head count = [] ↔ count = 0 := by
  rw [← List.length_eq_zero_iff, length_ring]

end Sos.Lib
