import Sos.Lib.Tiling

/-! What pieces leave free of an interval, and when that decides a tiling. -/

namespace Sos.Lib

section
variable {β : Type} (first past : β → Nat)

/-- No piece begins where another one ends. -/
def Separated (l : List β) : Prop := ∀ p, p ∈ l → ∀ q, q ∈ l → past p ≠ first q

/-- From `a` to `b` there is no piece. -/
structure Vacant (lo hi : Nat) (l : List β) (a b : Nat) : Prop where
  proper : a < b
  lower : lo ≤ a
  upper : b ≤ hi
  clear : ∀ p, p ∈ l → past p ≤ a ∨ b ≤ first p

/-- From `a` to `b` there is no piece, and no longer stretch around it is without one. -/
structure Gap (lo hi : Nat) (l : List β) (a b : Nat) : Prop where
  vacant : Vacant first past lo hi l a b
  widest : ∀ a' b', Vacant first past lo hi l a' b' → a' ≤ a → b ≤ b' → a' = a ∧ b' = b

end

section
variable {β : Type} {first past : β → Nat} {lo hi : Nat}

namespace Separated

theorem single {p : β} (proper : first p < past p) : Separated first past [p] := by
  intro q hq r hr
  rw [List.mem_singleton.mp hq, List.mem_singleton.mp hr]
  omega

theorem subset {l l' : List β} (apart : Separated first past l) (inside : ∀ p, p ∈ l' → p ∈ l) :
    Separated first past l' :=
  fun p hp q hq => apart p (inside p hp) q (inside q hq)

theorem cons {l : List β} {s : β} (apart : Separated first past l) (proper : first s < past s)
    (before : ∀ q, q ∈ l → past q ≠ first s) (after : ∀ q, q ∈ l → past s ≠ first q) :
    Separated first past (s :: l) := by
  intro p hp q hq
  rcases List.mem_cons.mp hp with rfl | oldP
  · rcases List.mem_cons.mp hq with rfl | oldQ
    · exact proper.ne'
    · exact after q oldQ
  · rcases List.mem_cons.mp hq with rfl | oldQ
    · exact before p oldP
    · exact apart p oldP q oldQ

end Separated

namespace Vacant
variable {l l' : List β} {a b c d : Nat}

theorem congr (vacant : Vacant first past lo hi l a b) (same : ∀ p, p ∈ l ↔ p ∈ l') :
    Vacant first past lo hi l' a b :=
  { vacant with clear := fun p member => vacant.clear p ((same p).mpr member) }

/-- Two such stretches that meet are one. -/
theorem union (left : Vacant first past lo hi l a b) (right : Vacant first past lo hi l c d)
    (meet : c < b ∧ a < d) (proper : ∀ p, p ∈ l → first p < past p) :
    Vacant first past lo hi l (min a c) (max b d) where
  proper := lt_of_le_of_lt (min_le_left a c) (lt_of_lt_of_le left.proper (le_max_left b d))
  lower := le_min left.lower right.lower
  upper := max_le left.upper right.upper
  clear := by
    intro p member
    have width := proper p member
    have clearL := left.clear p member
    have clearR := right.clear p member
    omega

end Vacant

theorem Gap.congr {l l' : List β} {a b : Nat} (gap : Gap first past lo hi l a b)
    (same : ∀ p, p ∈ l ↔ p ∈ l') : Gap first past lo hi l' a b where
  vacant := gap.vacant.congr same
  widest := fun a' b' vacant => gap.widest a' b' (vacant.congr fun p => (same p).symm)

/-- Two widest stretches that meet are the same. -/
theorem Gap.unique {l : List β} {a b c d : Nat} (left : Gap first past lo hi l a b)
    (right : Gap first past lo hi l c d) (meet : c < b ∧ a < d)
    (proper : ∀ p, p ∈ l → first p < past p) : a = c ∧ b = d := by
  have both := left.vacant.union right.vacant meet proper
  have wideL := left.widest _ _ both (min_le_left a c) (le_max_left b d)
  have wideR := right.widest _ _ both (min_le_right a c) (le_max_right b d)
  omega

end

namespace Tiles
variable {β : Type} {first past : β → Nat} {lo hi : Nat} {free kept : List β}
  (tiles : Tiles first past lo hi (free ++ kept))
include tiles

theorem vacant {p : β} (member : p ∈ free) : Vacant first past lo hi kept (first p) (past p) where
  proper := tiles.proper p (List.mem_append_left kept member)
  lower := tiles.lower p (List.mem_append_left kept member)
  upper := tiles.upper p (List.mem_append_left kept member)
  clear := by
    intro q other
    have differ : p ≠ q := (List.nodup_append.mp tiles.nodup).2.2 p member q other
    exact (tiles.apart_of_ne (List.mem_append_left kept member) (List.mem_append_right free other)
      differ).symm

/-- A piece between others is all that the others leave there, if no two of its kind touch. -/
theorem gap (apart : Separated first past free) {p : β} (member : p ∈ free) :
    Gap first past lo hi kept (first p) (past p) where
  vacant := tiles.vacant member
  widest := by
    intro a b wide left right
    have own := tiles.vacant member
    have place : ∀ x, a ≤ x → x < b → ∃ q, q ∈ free ∧ first q ≤ x ∧ x < past q := by
      intro x above below
      have lower := wide.lower
      have upper := wide.upper
      obtain ⟨q, inside, start, stop⟩ := tiles.cover x (by omega) (by omega)
      rcases List.mem_append.mp inside with isFree | isKept
      · exact ⟨q, isFree, start, stop⟩
      · have clear := wide.clear q isKept
        omega
    have touching : ∀ q, q ∈ free → q = p ∨ past q < first p ∨ past p < first q := by
      intro q other
      by_cases same : q = p
      · exact Or.inl same
      · have beside := tiles.apart_of_ne (List.mem_append_left kept other)
          (List.mem_append_left kept member) same
        have behind := apart q other p member
        have ahead := apart p member q other
        omega
    have proper := own.proper
    constructor
    · by_contra less
      obtain ⟨q, other, start, stop⟩ := place (first p - 1) (by omega) (by omega)
      rcases touching q other with rfl | beside
      · omega
      · omega
    · by_contra more
      obtain ⟨q, other, start, stop⟩ := place (past p) (by omega) (by omega)
      rcases touching q other with rfl | beside
      · omega
      · omega

/-- What the kept pieces leave free is cut in one way only, if no two free pieces touch. -/
theorem gaps_iff (apart : Separated first past free) (a b : Nat) :
    (∃ p, p ∈ free ∧ first p = a ∧ past p = b) ↔ Gap first past lo hi kept a b := by
  constructor
  · rintro ⟨p, member, rfl, rfl⟩
    exact tiles.gap apart member
  · intro gap
    have proper := gap.vacant.proper
    have lower := gap.vacant.lower
    have upper := gap.vacant.upper
    obtain ⟨p, inside, start, stop⟩ := tiles.cover a lower (by omega)
    rcases List.mem_append.mp inside with isFree | isKept
    · have width : ∀ q, q ∈ kept → first q < past q :=
        fun q member => tiles.proper q (List.mem_append_right free member)
      have same := (tiles.gap apart isFree).unique gap ⟨stop, by omega⟩ width
      exact ⟨p, isFree, same⟩
    · have clear := gap.vacant.clear p isKept
      omega

end Tiles

end Sos.Lib
