import Mathlib.Data.List.Basic

/-! Things that are handed out and given back. Events are listed latest first. -/

namespace Sos.Lib

inductive Lease (ρ : Type) where
  | grant (x : ρ)
  | refuse
  | release (x : ρ)

namespace Lease
variable {ρ : Type} [DecidableEq ρ]

/-- What is out after these events. -/
def held : List (Lease ρ) → List ρ
  | [] => []
  | .grant x :: events => x :: held events
  | .refuse :: events => held events
  | .release x :: events => (held events).erase x

/-- Only what is usable is handed out, and nothing twice at a time; a refusal means that all
of it is out. -/
def Serves (usable : ρ → Prop) : List (Lease ρ) → Prop
  | [] => True
  | .grant x :: events => usable x ∧ x ∉ held events ∧ Serves usable events
  | .refuse :: events => (∀ x, usable x → x ∈ held events) ∧ Serves usable events
  | .release x :: events => x ∈ held events ∧ Serves usable events

variable {usable : ρ → Prop} {events : List (Lease ρ)}

theorem held_nodup (serves : Serves usable events) : (held events).Nodup := by
  induction events with
  | nil => exact List.nodup_nil
  | cons event events ih =>
    cases event with
    | grant x => exact List.nodup_cons.mpr ⟨serves.2.1, ih serves.2.2⟩
    | refuse => exact ih serves.2
    | release x => exact (ih serves.2).erase x

theorem held_usable (serves : Serves usable events) {x : ρ} (out : x ∈ held events) : usable x := by
  induction events with
  | nil => cases out
  | cons event events ih =>
    cases event with
    | grant y =>
      rcases List.mem_cons.mp out with rfl | earlier
      · exact serves.1
      · exact ih serves.2.2 earlier
    | refuse => exact ih serves.2 out
    | release y => exact ih serves.2 (List.mem_of_mem_erase out)

/-- What is handed out stays out until it is released. -/
theorem held_kept {x : ρ} (out : x ∈ held events) {later : List (Lease ρ)} (keeps : .release x ∉ later) :
    x ∈ held (later ++ events) := by
  induction later with
  | nil => exact out
  | cons event later ih =>
    have earlier := ih fun member => keeps (List.mem_cons_of_mem event member)
    cases event with
    | grant y => exact List.mem_cons_of_mem y earlier
    | refuse => exact earlier
    | release y =>
      have differ : x ≠ y := by
        rintro rfl
        exact keeps List.mem_cons_self
      exact (List.mem_erase_of_ne differ).mpr earlier

theorem Serves.before {later : List (Lease ρ)} (serves : Serves usable (later ++ events)) :
    Serves usable events := by
  induction later with
  | nil => exact serves
  | cons event later ih =>
    cases event with
    | grant x => exact ih serves.2.2
    | refuse => exact ih serves.2
    | release x => exact ih serves.2

/-- Between two grants of one thing it was released. -/
theorem Serves.released {x : ρ} {later between : List (Lease ρ)}
    (serves : Serves usable (later ++ .grant x :: (between ++ .grant x :: events))) :
    .release x ∈ between := by
  have again := serves.before
  by_contra keeps
  exact again.2.1 (held_kept List.mem_cons_self keeps)

end Lease

end Sos.Lib
