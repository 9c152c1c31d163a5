import Sos.Kernel.Timer

/-! What the calls do to the active list and to the events. -/

namespace Sos.Kernel
open Sos.Lib Timers

variable {ω : Type}

namespace Timers

/-- The events that link after link leads to behind `p`. -/
def Path (t : Timers ω) (p : UInt32) (l : List UInt32) : Prop := Chain t.link 0 p l

/-- The active events. -/
def Actives (t : Timers ω) (l : List UInt32) : Prop := t.Path 0 l

/-- An event without its link. -/
def fields (t : Timers ω) (p : UInt32) : TimeEvent := { t.events p with next := 0 }

def relinked (j v : UInt32) (t : Timers ω) : Timers ω :=
  if j = 0 then { t with head := v } else t.setNext j v

@[simp] theorem link_zero (t : Timers ω) : t.link 0 = t.head := if_pos rfl

theorem link_of_ne (t : Timers ω) {p : UInt32} (event : p ≠ 0) : t.link p = (t.events p).next := if_neg event

theorem link_relinked (t : Timers ω) (j v x : UInt32) :
    (t.relinked j v).link x = if x = j then v else t.link x := by
  unfold relinked
  by_cases first : j = 0
  · subst first
    rw [if_pos rfl]
    by_cases head : x = 0
    · rw [head, if_pos rfl]
      rfl
    · rw [if_neg head, link_of_ne _ head, link_of_ne _ head]
  · rw [if_neg first]
    by_cases same : x = j
    · subst same
      rw [if_pos rfl, link_of_ne _ first]
      exact congrArg TimeEvent.next (if_pos rfl)
    · rw [if_neg same]
      by_cases head : x = 0
      · rw [head]
        rfl
      · rw [link_of_ne _ head, link_of_ne _ head]
        exact congrArg TimeEvent.next (if_neg same)

theorem fields_setNext (t : Timers ω) (j v x : UInt32) : (t.setNext j v).fields x = t.fields x := by
  unfold fields setNext put
  by_cases same : x = j
  · simp [same]
  · simp [same]

theorem fields_relinked (t : Timers ω) (j v x : UInt32) : (t.relinked j v).fields x = t.fields x := by
  unfold relinked
  split
  · rfl
  · exact fields_setNext t j v x

/-- Another record in an event's place. -/
theorem link_put (t : Timers ω) (p : UInt32) (e : TimeEvent) {x : UInt32} (other : x ≠ p ∨ p = 0) :
    (t.put p e).link x = t.link x := by
  unfold link put
  by_cases head : x = 0
  · rw [if_pos head, if_pos head]
  · rw [if_neg head, if_neg head]
    refine congrArg TimeEvent.next (if_neg ?_)
    rintro rfl
    exact other.elim (fun differ => differ rfl) head

/-- A record with the same link in an event's place. -/
theorem link_put_same (t : Timers ω) (p : UInt32) {e : TimeEvent} (same : e.next = (t.events p).next)
    (x : UInt32) : (t.put p e).link x = t.link x := by
  unfold link put
  by_cases head : x = 0
  · rw [if_pos head, if_pos head]
  · rw [if_neg head, if_neg head]
    by_cases here : x = p
    · simp [here, same]
    · simp [here]

theorem fields_put (t : Timers ω) (p : UInt32) (e : TimeEvent) (x : UInt32) :
    (t.put p e).fields x = if x = p then { e with next := 0 } else t.fields x := by
  unfold fields put
  by_cases here : x = p
  · simp [here]
  · simp [here]

end Timers

section
variable {t : Timers ω} {l pre post : List UInt32} {e : UInt32} {fuel : Nat}

theorem findEvent_miss (actives : t.Actives l) (absent : e ∉ l) (enough : l.length < fuel) :
    findEvent fuel e t = .done (0, l.getLastD 0) t := by
  have none : ∀ x, x ∈ l → decide (x = e) = false := fun x inside =>
    decide_eq_false (by
      rintro rfl
      exact absent inside)
  have found := walk_end actives 0 enough none
  rw [link_zero] at found
  rw [findEvent, found]

theorem findEvent_hit (actives : t.Actives (pre ++ e :: post)) (enough : pre.length < fuel) :
    findEvent fuel e t = .done (e, pre.getLastD 0) t := by
  have once := (List.nodup_cons.mp actives.nodup).2
  have before : ∀ y, y ∈ pre → decide (y = e) = false := by
    intro y early
    refine decide_eq_false ?_
    rintro rfl
    exact (List.nodup_append.mp once).2.2 y early y List.mem_cons_self rfl
  have found := walk_hit actives 0 enough before (decide_eq_true rfl)
  rw [link_zero] at found
  rw [findEvent, found]

theorem timeEventDel_miss (actives : t.Actives l) (event : e ≠ 0) (absent : e ∉ l)
    (enough : l.length < fuel) : timeEventDel fuel e t = .done () t := by
  rw [timeEventDel, Prog.bind_done _ (findEvent_miss actives absent enough)]
  exact congrFun (if_pos (Ne.symm event)) t

theorem Timers.Actives.event_ne (actives : t.Actives (pre ++ e :: post)) : e ≠ 0 :=
  actives.ne_null e (List.mem_append_right pre List.mem_cons_self)

/-- An active event is taken out of the list. -/
theorem timeEventDel_hit (actives : t.Actives (pre ++ e :: post)) (enough : pre.length < fuel) :
    timeEventDel fuel e t = .done () (t.relinked (pre.getLastD 0) (t.link e)) := by
  rw [timeEventDel, Prog.bind_done _ (findEvent_hit actives enough)]
  refine (congrFun (if_neg (not_not.mpr rfl)) t).trans ?_
  unfold relinked
  by_cases first : pre.getLastD 0 = 0
  · have empty : pre = [] := by
      cases pre with
      | nil => rfl
      | cons y pre =>
        rw [List.getLastD_cons] at first
        have member : (0 : UInt32) ∈ y :: pre := first ▸ List.getLastD_mem_cons
        exact absurd rfl (actives.ne_null 0 (List.mem_append_left _ member))
    subst empty
    have head : t.head = e := (link_zero t).symm.trans actives.1
    refine (congrFun (if_pos first) t).trans ?_
    rw [if_pos first, link_of_ne t actives.event_ne, Prog.modify_run, head]
  · refine (congrFun (if_neg first) t).trans ?_
    rw [if_neg first, link_of_ne t actives.event_ne]
    rfl

theorem Timers.Actives.relinked (actives : t.Actives (pre ++ e :: post)) :
    (t.relinked (pre.getLastD 0) (t.link e)).Actives (pre ++ post) := by
  refine actives.unlink ?_ ?_
  · rw [link_relinked, if_pos rfl]
  · intro y _ other
    rw [link_relinked, if_neg other]

theorem timeEventAdd_hit (actives : t.Actives (pre ++ e :: post)) (enough : pre.length < fuel) :
    timeEventAdd fuel e t = .done () t := by
  rw [timeEventAdd, Prog.bind_done _ (findEvent_hit actives enough)]
  exact congrFun (if_pos rfl) t

/-- The machine with `e` put before the first event. -/
def Timers.added (e : UInt32) (t : Timers ω) : Timers ω :=
  let u := if t.head = 0 then t.setNext t.head 0 else t
  { u.setNext e u.head with head := e }

theorem timeEventAdd_miss (actives : t.Actives l) (event : e ≠ 0) (absent : e ∉ l)
    (enough : l.length < fuel) : timeEventAdd fuel e t = .done () (t.added e) := by
  rw [timeEventAdd, Prog.bind_done _ (findEvent_miss actives absent enough)]
  exact congrFun (if_neg (Ne.symm event)) t

theorem Timers.added_link (x : UInt32) :
    (t.added e).link x = if x = 0 then e else if x = e then t.head else t.link x := by
  unfold added
  by_cases first : x = 0
  · rw [first, if_pos rfl]
    rfl
  · rw [if_neg first, link_of_ne _ first]
    by_cases same : x = e
    · rw [same, if_pos rfl]
      refine (congrArg TimeEvent.next (if_pos rfl)).trans ?_
      change (if t.head = 0 then t.setNext t.head 0 else t).head = t.head
      split
      · rfl
      · rfl
    · rw [if_neg same]
      refine (congrArg TimeEvent.next (if_neg same)).trans ?_
      rw [← link_of_ne _ first]
      split
      next none => exact link_put t _ _ (Or.inr none)
      next => rfl

theorem Timers.added_fields (x : UInt32) : (t.added e).fields x = t.fields x := by
  unfold added
  refine (fields_setNext _ e _ x).trans ?_
  split
  · exact fields_setNext t _ _ x
  · rfl

theorem Timers.Actives.added (actives : t.Actives l) (event : e ≠ 0) (absent : e ∉ l) :
    (t.added e).Actives (e :: l) := by
  refine actives.push event ?_ ?_ ?_
  · rw [added_link, if_pos rfl]
  · rw [added_link, if_neg event, if_pos rfl, link_zero]
  · intro y member
    rw [added_link, if_neg (actives.ne_null y member), if_neg]
    rintro rfl
    exact absent member

variable (interval repeats funct arg : UInt32)

theorem timeEventSet_hit (actives : t.Actives (pre ++ e :: post)) (enough : pre.length < fuel) :
    timeEventSet fuel e interval repeats funct arg t = .done () t := by
  rw [timeEventSet, Prog.bind_done _ (findEvent_hit actives enough)]
  exact congrFun (if_pos rfl) t

theorem timeEventSet_miss (actives : t.Actives l) (event : e ≠ 0) (absent : e ∉ l)
    (enough : l.length < fuel) : timeEventSet fuel e interval repeats funct arg t = .done ()
      (t.put e ⟨funct, arg, interval, if repeats = timeEventRepeat then interval else 0, 0⟩) := by
  rw [timeEventSet, Prog.bind_done _ (findEvent_miss actives absent enough)]
  exact congrFun (if_neg (Ne.symm event)) t

end

/-- Two active events. The one at 0x100 is repeated and due after the next interrupt, the one
at 0x200 is due now, once. -/
def pairOfEvents : Timers Unit where
  head := 0x100
  events := fun p =>
    if p = 0x100 then ⟨0x10, 0, 2, 5, 0x200⟩ else if p = 0x200 then ⟨0x20, 0, 1, 0, 0⟩ else ⟨0, 0, 0, 0, 0⟩
  world := ()

theorem pairOfEvents_actives : pairOfEvents.Actives [0x100, 0x200] :=
  ⟨rfl, by decide, rfl, by decide, rfl⟩

end Sos.Kernel
