import Sos.Lib.Memory

/-! Word stores one after the other, as a list of addresses and values. -/

namespace Sos.Lib.Mem

def storeAll (m : Mem) (ws : List (UInt32 × UInt32)) : Mem := ws.foldl (fun m w => m.store w.1 w.2) m

@[simp] theorem storeAll_nil (m : Mem) : m.storeAll [] = m := rfl

@[simp] theorem storeAll_cons (m : Mem) (w : UInt32 × UInt32) (ws : List (UInt32 × UInt32)) :
    m.storeAll (w :: ws) = (m.store w.1 w.2).storeAll ws := rfl

theorem storeAll_append (m : Mem) (ws ws' : List (UInt32 × UInt32)) :
    m.storeAll (ws ++ ws') = (m.storeAll ws).storeAll ws' := List.foldl_append

/-- A word has one of the values stored to it, or its old value when there is none. -/
theorem load_storeAll {ws : List (UInt32 × UInt32)} (m : Mem) {a : UInt32} (aligned : Aligned a)
    (all : ∀ w, w ∈ ws → Aligned w.1) :
    (a, (m.storeAll ws).load a) ∈ ws ∨
      (∀ w, w ∈ ws → w.1 ≠ a) ∧ (m.storeAll ws).load a = m.load a := by
  induction ws generalizing m with
  | nil => exact Or.inr ⟨by simp, rfl⟩
  | cons w ws ih =>
    have later := ih (m.store w.1 w.2) fun v member => all v (List.mem_cons_of_mem w member)
    rw [storeAll_cons]
    rcases later with written | ⟨other, kept⟩
    · exact Or.inl (List.mem_cons_of_mem w written)
    · rw [kept, load_store _ (all w List.mem_cons_self) aligned]
      by_cases same : a = w.1
      · left
        rw [if_pos same, same]
        exact List.mem_cons_self
      · right
        rw [if_neg same]
        refine ⟨fun v member => ?_, rfl⟩
        rcases List.mem_cons.mp member with rfl | member
        · exact Ne.symm same
        · exact other v member

theorem load_storeAll_other {ws : List (UInt32 × UInt32)} (m : Mem) {a : UInt32}
    (aligned : Aligned a) (all : ∀ w, w ∈ ws → Aligned w.1) (other : ∀ w, w ∈ ws → w.1 ≠ a) :
    (m.storeAll ws).load a = m.load a := by
  rcases load_storeAll m aligned all with written | ⟨-, kept⟩
  · exact absurd rfl (other _ written)
  · exact kept

/-- A word to which only one value is stored, at least once. -/
theorem load_storeAll_only {ws : List (UInt32 × UInt32)} (m : Mem) {a v : UInt32}
    (aligned : Aligned a) (all : ∀ w, w ∈ ws → Aligned w.1) (some : (a, v) ∈ ws)
    (only : ∀ u, (a, u) ∈ ws → u = v) : (m.storeAll ws).load a = v := by
  rcases load_storeAll m aligned all with written | ⟨other, -⟩
  · exact only _ written
  · exact absurd rfl (other _ some)

theorem storeAll_outside {ws : List (UInt32 × UInt32)} (m : Mem) {x : UInt32}
    (all : ∀ w, w ∈ ws → Aligned w.1)
    (outside : ∀ w, w ∈ ws → x.toNat < w.1.toNat ∨ w.1.toNat + 4 ≤ x.toNat) :
    m.storeAll ws x = m x := by
  induction ws generalizing m with
  | nil => rfl
  | cons w ws ih =>
    rw [storeAll_cons, ih _ (fun v member => all v (List.mem_cons_of_mem w member))
      fun v member => outside v (List.mem_cons_of_mem w member)]
    exact store_outside m w.2 (all w List.mem_cons_self).room (outside w List.mem_cons_self)

end Sos.Lib.Mem
