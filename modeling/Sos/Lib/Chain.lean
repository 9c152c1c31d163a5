import Mathlib.Data.List.Basic
import Mathlib.Tactic.Common

/-! Linked lists. A node is named by its address, which is also where its link is kept;
the list starts at a link of its own and ends with the null address. -/

namespace Sos.Lib

section
variable {α : Type} (deref : α → α) (null : α)

/-- The nodes that the link at `a` leads to. -/
def Chain : α → List α → Prop
  | a, [] => deref a = null
  | a, x :: l => deref a = x ∧ x ≠ null ∧ Chain x l

end

namespace Chain
variable {α : Type} {deref deref' : α → α} {null : α} {a : α} {l : List α}

theorem head (chain : Chain deref null a l) : deref a = l.headD null := by
  cases l with
  | nil => exact chain
  | cons x l => exact chain.1

theorem ne_null (chain : Chain deref null a l) : ∀ x, x ∈ l → x ≠ null := by
  induction l generalizing a with
  | nil => simp
  | cons y l ih =>
    intro x member
    rcases List.mem_cons.mp member with rfl | member
    · exact chain.2.1
    · exact ih chain.2.2 x member

/-- A list is read off its first link in one way only. -/
theorem unique {l' : List α} (chain : Chain deref null a l) (chain' : Chain deref null a l') :
    l = l' := by
  induction l generalizing a l' with
  | nil =>
    cases l' with
    | nil => rfl
    | cons y l' => exact absurd (chain'.1.symm.trans chain) chain'.2.1
  | cons x l ih =>
    cases l' with
    | nil => exact absurd (chain.1.symm.trans chain') chain.2.1
    | cons y l' =>
      have same : x = y := chain.1.symm.trans chain'.1
      subst same
      rw [ih chain.2.2 chain'.2.2]

theorem drop {pre post : List α} {x : α} (chain : Chain deref null a (pre ++ x :: post)) :
    Chain deref null x post := by
  induction pre generalizing a with
  | nil => exact chain.2.2
  | cons y pre ih => exact ih chain.2.2

/-- A finite list does not come back to a node. -/
theorem not_mem (chain : Chain deref null a l) : a ∉ l := by
  intro member
  obtain ⟨pre, post, rfl⟩ := List.append_of_mem member
  have same := chain.unique chain.drop
  have length := congrArg List.length same
  rw [List.length_append, List.length_cons] at length
  omega

theorem nodup (chain : Chain deref null a l) : (a :: l).Nodup := by
  induction l generalizing a with
  | nil => simp
  | cons x l ih => exact List.nodup_cons.mpr ⟨chain.not_mem, ih chain.2.2⟩

theorem congr (chain : Chain deref null a l) (same : ∀ x, x ∈ a :: l → deref' x = deref x) :
    Chain deref' null a l := by
  induction l generalizing a with
  | nil => exact (same a (by simp)).trans chain
  | cons x l ih =>
    refine ⟨(same a (by simp)).trans chain.1, chain.2.1, ih chain.2.2 ?_⟩
    intro y member
    exact same y (List.mem_cons_of_mem a member)

/-- A new first node that points at the old one. -/
theorem push {x : α} (chain : Chain deref null a l) (valid : x ≠ null) (first : deref' a = x)
    (second : deref' x = deref a) (same : ∀ y, y ∈ l → deref' y = deref y) :
    Chain deref' null a (x :: l) := by
  refine ⟨first, valid, ?_⟩
  cases l with
  | nil => exact second.trans chain
  | cons y l =>
    refine ⟨second.trans chain.1, chain.2.1, chain.2.2.congr ?_⟩
    intro z member
    exact same z member

/-- The link before a node, moved on to the node's own. -/
theorem unlink {pre post : List α} {x : α} (chain : Chain deref null a (pre ++ x :: post))
    (moved : deref' (pre.getLastD a) = deref x)
    (same : ∀ y, y ∈ a :: (pre ++ post) → y ≠ pre.getLastD a → deref' y = deref y) :
    Chain deref' null a (pre ++ post) := by
  induction pre generalizing a with
  | nil =>
    have rest := chain.2.2
    have outside := chain.not_mem
    cases post with
    | nil => exact moved.trans rest
    | cons y post =>
      refine ⟨moved.trans rest.1, rest.2.1, rest.2.2.congr ?_⟩
      intro z member
      refine same z (by simpa using Or.inr member) ?_
      rintro rfl
      exact outside (List.mem_cons_of_mem x member)
  | cons y pre ih =>
    have last : (y :: pre).getLastD a = pre.getLastD y := List.getLastD_cons
    rw [last] at moved same
    refine ⟨?_, chain.2.1, ih chain.2.2 moved ?_⟩
    · rw [same a (by simp)]
      · exact chain.1
      · have member : pre.getLastD y ∈ y :: pre := by
          cases pre with
          | nil => simp
          | cons z pre =>
            rw [List.getLastD_cons]
            exact List.mem_cons_of_mem y List.getLastD_mem_cons
        intro same_
        apply chain.not_mem
        rw [same_]
        exact List.mem_append_left _ member
    · intro z member other
      exact same z (List.mem_cons_of_mem a member) other

end Chain

section
variable {α : Type} [DecidableEq α] (deref : α → α) (null : α) (stop : α → Bool)

/-- The loop that follows a list to the first node where it stops, or to its end: that
node and the one before it, within so many steps. -/
def walk : Nat → α → α → Option (α × α)
  | 0, _, _ => none
  | fuel + 1, p, j => if p = null ∨ stop p = true then some (p, j) else walk fuel (deref p) p

variable {deref null stop} {a : α}

theorem walk_end {l : List α} {fuel : Nat} (chain : Chain deref null a l) (j : α)
    (enough : l.length < fuel) (none : ∀ x, x ∈ l → stop x = false) :
    walk deref null stop fuel (deref a) j = some (null, l.getLastD j) := by
  induction l generalizing a j fuel with
  | nil =>
    cases fuel with
    | zero => simp at enough
    | succ fuel =>
      have last : deref a = null := chain
      rw [walk, if_pos (Or.inl last), last]
      rfl
  | cons x l ih =>
    cases fuel with
    | zero => simp at enough
    | succ fuel =>
      obtain ⟨first, valid, rest⟩ := chain
      rw [walk, first, if_neg (by simp [valid, none x]), List.getLastD_cons,
        ih rest x (by simpa using enough) (fun y member => none y (List.mem_cons_of_mem x member))]

theorem walk_hit {pre post : List α} {x : α} {fuel : Nat}
    (chain : Chain deref null a (pre ++ x :: post)) (j : α) (enough : pre.length < fuel)
    (before : ∀ y, y ∈ pre → stop y = false) (hit : stop x = true) :
    walk deref null stop fuel (deref a) j = some (x, pre.getLastD j) := by
  induction pre generalizing a j fuel with
  | nil =>
    cases fuel with
    | zero => simp at enough
    | succ fuel =>
      rw [walk, chain.1, if_pos (Or.inr hit)]
      rfl
  | cons y pre ih =>
    cases fuel with
    | zero => simp at enough
    | succ fuel =>
      obtain ⟨first, valid, rest⟩ := chain
      rw [walk, first, if_neg (by simp [valid, before y]), List.getLastD_cons,
        ih rest y (by simpa using enough) (fun z member => before z (List.mem_cons_of_mem y member))]

theorem walk_previous {fuel : Nat} {p j q i : α} (valid : j ≠ null)
    (found : walk deref null stop fuel p j = some (q, i)) : i ≠ null := by
  induction fuel generalizing p j with
  | zero => cases found
  | succ fuel ih =>
    rw [walk] at found
    split at found
    · cases found
      exact valid
    · next more => exact ih (fun none => more (.inl none)) found

/-- Only the first node has no node before it. -/
theorem walk_first {fuel : Nat} {p q : α} (j : α) (found : walk deref null stop fuel p j = some (q, null)) :
    q = p := by
  cases fuel with
  | zero => cases found
  | succ fuel =>
    rw [walk] at found
    split at found
    · cases found
      rfl
    · next more => exact absurd rfl (walk_previous (fun none => more (.inl none)) found)

theorem walk_start {fuel : Nat} (j : α) : walk deref null stop (fuel + 1) null j = some (null, j) :=
  if_pos (.inl rfl)

end

end Sos.Lib
