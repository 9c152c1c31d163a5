import Sos.Kernel.TimerList

/-! Timer interrupts with callbacks that leave the timers alone: every event is counted down,
and what is due for the last time leaves the list while it is being walked. -/

namespace Sos.Kernel
open Sos.Lib Timers

variable {ω : Type}

namespace TimeEvent

def due (e : TimeEvent) : Bool := e.tRemaining - 1 = 0

/-- It is not a last time. -/
def stays (e : TimeEvent) : Bool := ¬(e.tRemaining - 1 = 0 ∧ e.tInterval = 0)

/-- Counted down, and set again when it is repeated. -/
def ticked (e : TimeEvent) : TimeEvent :=
  { e with tRemaining := if e.tRemaining - 1 = 0 ∧ e.tInterval ≠ 0 then e.tInterval else e.tRemaining - 1 }

end TimeEvent

/-- Callbacks that make no calls. -/
def Quiet (callback : Callback ω) : Prop := ∀ event arg t, (callback event arg t).1 = []

def visitOf (t : Timers ω) (p : UInt32) : Visit := ⟨p, if (t.fields p).due then some [] else none⟩

section
variable {t : Timers ω} {fuel : Nat}

theorem Timers.fields_put_ticked {p : UInt32} {e : TimeEvent} {u : Timers ω}
    (same : ∀ x, x ≠ p → u.fields x = t.fields x) (value : { e with next := 0 } = (t.fields p).ticked) (x : UInt32) :
    (u.put p e).fields x = if x = p then (t.fields p).ticked else t.fields x := by
  rw [fields_put]
  by_cases here : x = p
  · rw [if_pos here, if_pos here, value]
  · rw [if_neg here, if_neg here, same x here]

/-- The event is counted down, and leaves the list when it is due for the last time. -/
theorem countDown_done {p : UInt32} {pre post : List UInt32} (actives : t.Actives (pre ++ p :: post))
    (enough : pre.length < fuel) : ∃ t', countDown fuel p t = .done (t.fields p).due t' ∧
      (t'.events p).next = post.headD 0 ∧
      t'.Actives (if (t.fields p).stays then pre ++ p :: post else pre ++ post) ∧
      ∀ x, t'.fields x = if x = p then (t.fields p).ticked else t.fields x := by
  have event := actives.event_ne
  have next : (t.events p).next = post.headD 0 := (link_of_ne t event).symm.trans actives.drop.head
  let r := t.events p
  let u : Timers ω := t.put p { r with tRemaining := r.tRemaining - 1 }
  have here : u.events p = { r with tRemaining := r.tRemaining - 1 } := if_pos rfl
  have actives₁ : u.Actives (pre ++ p :: post) := actives.congr fun x _ =>
    link_put_same t p (e := { r with tRemaining := r.tRemaining - 1 }) rfl x
  rw [countDown, Prog.modify_bind_run, Prog.get_bind_run, show (t.put p _).events p = _ from here]
  by_cases due : r.tRemaining - 1 = 0
  · have isDue : (t.fields p).due = true := decide_eq_true due
    rw [isDue]
    by_cases last : r.tInterval = 0
    · have gone : (t.fields p).stays = false := decide_eq_false (not_not.mpr ⟨due, last⟩)
      refine ⟨u.relinked (pre.getLastD 0) (u.link p), ?_, ?_, ?_, ?_⟩
      · refine (congrFun (if_pos due) _).trans ((congrFun (if_pos last) _).trans ?_)
        exact Prog.bind_done _ (timeEventDel_hit actives₁ enough)
      · have other : p ≠ pre.getLastD 0 := by
          intro same
          have member : pre.getLastD 0 ∈ (0 : UInt32) :: pre := List.getLastD_mem_cons
          rw [← same] at member
          exact (List.nodup_append.mp actives.nodup).2.2 p member p List.mem_cons_self rfl
        rw [← link_of_ne _ event, link_relinked, if_neg other, link_of_ne _ event, here]
        exact next
      · rw [gone]
        exact actives₁.relinked
      · intro x
        rw [fields_relinked]
        refine fields_put_ticked (fun _ _ => rfl) ?_ x
        change _ = TimeEvent.ticked { r with next := 0 }
        simp [TimeEvent.ticked, last]
    · have kept : (t.fields p).stays = true := decide_eq_true fun spent => last spent.2
      refine ⟨u.put p { r with tRemaining := r.tInterval }, ?_, ?_, ?_, ?_⟩
      · exact (congrFun (if_pos due) _).trans (congrFun (if_neg last) _)
      · exact (congrArg TimeEvent.next (if_pos rfl)).trans next
      · rw [kept]
        exact actives₁.congr fun x _ => link_put_same u p (by rw [here]) x
      · refine fields_put_ticked (fun x other => ?_) ?_
        · rw [fields_put, if_neg other]
        · change _ = TimeEvent.ticked { r with next := 0 }
          simp [TimeEvent.ticked, due, last]
  · have notDue : (t.fields p).due = false := decide_eq_false due
    have kept : (t.fields p).stays = true := decide_eq_true fun spent => due spent.1
    rw [notDue]
    refine ⟨u, congrFun (if_neg due) _, (congrArg TimeEvent.next here).trans next, ?_, ?_⟩
    · rw [kept]
      exact actives₁
    · refine fields_put_ticked (fun _ _ => rfl) ?_
      change _ = TimeEvent.ticked { r with next := 0 }
      simp [TimeEvent.ticked, due]

end

section
variable {callback : Callback ω} {t : Timers ω} {fuel : Nat} (quiet : Quiet callback)
include quiet

theorem callEvent_quiet (p : UInt32) : callEvent callback fuel p t =
    .done [] { t with world := (callback (t.events p).event (t.events p).arg t).2 } := by
  have none := quiet (t.events p).event (t.events p).arg t
  rw [callEvent, Prog.get_bind_run]
  simp only [none]
  rfl

theorem visit_quiet {p : UInt32} {pre post : List UInt32} (actives : t.Actives (pre ++ p :: post))
    (enough : pre.length < fuel) : ∃ t', visit callback fuel p t = .done (visitOf t p) t' ∧
      (t'.events p).next = post.headD 0 ∧
      t'.Actives (if (t.fields p).stays then pre ++ p :: post else pre ++ post) ∧
      ∀ x, t'.fields x = if x = p then (t.fields p).ticked else t.fields x := by
  obtain ⟨u, run, next, actives', fields⟩ := countDown_done actives enough
  unfold visit visitOf
  rw [Prog.bind_done _ run]
  cases (t.fields p).due with
  | false => exact ⟨u, rfl, next, actives', fields⟩
  | true => exact ⟨_, Prog.bind_done _ (callEvent_quiet quiet p), next, actives', fields⟩

theorem timerLoop_quiet {pre rest : List UInt32} {left : Nat} (actives : t.Actives (pre ++ rest))
    (enough : (pre ++ rest).length < fuel) (long : rest.length < left) : ∃ t',
      timerLoop callback fuel left (rest.headD 0) t = .done (rest.map (visitOf t)) t' ∧
      t'.Actives (pre ++ rest.filter fun p => (t.fields p).stays) ∧
      ∀ x, t'.fields x = if x ∈ rest then (t.fields x).ticked else t.fields x := by
  induction rest generalizing pre t left with
  | nil =>
    obtain ⟨left, rfl⟩ : ∃ k, left = k + 1 := ⟨left - 1, by omega⟩
    exact ⟨t, congrFun (if_pos rfl) t, actives, fun x => by simp⟩
  | cons p post ih =>
    obtain ⟨left, rfl⟩ : ∃ k, left = k + 1 := ⟨left - 1, by omega⟩
    rw [List.length_append, List.length_cons] at enough
    rw [List.length_cons] at long
    have apart : p ∉ post := by
      have once := (List.nodup_append.mp (List.nodup_cons.mp actives.nodup).2).2.1
      exact (List.nodup_cons.mp once).1
    obtain ⟨t₁, run₁, next, actives₁, fields₁⟩ := visit_quiet quiet actives (show pre.length < fuel by omega)
    have same : ∀ x, x ∈ post → t₁.fields x = t.fields x := by
      intro x member
      rw [fields₁, if_neg]
      rintro rfl
      exact apart member
    have visits : post.map (visitOf t₁) = post.map (visitOf t) := by
      refine List.map_congr_left fun x member => ?_
      rw [visitOf, visitOf, same x member]
    have stay : (post.filter fun x => (t₁.fields x).stays) = post.filter fun x => (t.fields x).stays := by
      refine List.filter_congr fun x member => ?_
      rw [same x member]
    have further : ∃ t', timerLoop callback fuel left (post.headD 0) t₁ = .done (post.map (visitOf t)) t' ∧
        t'.Actives (pre ++ (p :: post).filter fun x => (t.fields x).stays) ∧
        ∀ x, t'.fields x = if x ∈ post then (t₁.fields x).ticked else t₁.fields x := by
      rw [← visits]
      cases stays : (t.fields p).stays with
      | true =>
        rw [stays, if_pos rfl, List.append_cons] at actives₁
        obtain ⟨t', run, actives', fields⟩ := ih actives₁ (by
          simp only [List.length_append, List.length_cons, List.length_nil]
          omega) (show post.length < left by omega)
        refine ⟨t', run, ?_, fields⟩
        rw [List.filter_cons_of_pos (p := fun x => (t.fields x).stays) stays, ← stay, List.append_cons]
        exact actives'
      | false =>
        rw [stays, if_neg (by decide)] at actives₁
        obtain ⟨t', run, actives', fields⟩ := ih actives₁ (by
          rw [List.length_append]
          omega) (show post.length < left by omega)
        refine ⟨t', run, ?_, fields⟩
        rw [List.filter_cons_of_neg (p := fun x => (t.fields x).stays) (by rw [stays]; decide), ← stay]
        exact actives'
    obtain ⟨t', run, actives', fields⟩ := further
    refine ⟨t', ?_, actives', fun x => ?_⟩
    · rw [List.headD_cons, timerLoop]
      refine (congrFun (if_neg actives.event_ne) t).trans ?_
      rw [Prog.bind_done _ run₁, Prog.get_bind_run, next, Prog.bind_done _ run]
      rfl
    · rw [fields x, fields₁ x]
      by_cases here : x = p
      · subst here
        rw [if_neg apart, if_pos rfl, if_pos List.mem_cons_self]
      · rw [if_neg here]
        simp [here]

/-- Everything on the list is counted down; what was due for the last time is gone. -/
theorem timerInterrupt_quiet {l : List UInt32} (actives : t.Actives l) (enough : l.length < fuel) : ∃ t',
    timerInterrupt callback fuel t = .done (l.map (visitOf t)) t' ∧
      t'.Actives (l.filter fun p => (t.fields p).stays) ∧
      ∀ x, t'.fields x = if x ∈ l then (t.fields x).ticked else t.fields x := by
  have head : t.head = l.headD 0 := (link_zero t).symm.trans actives.head
  obtain ⟨t', run, actives', fields⟩ :=
    timerLoop_quiet quiet (show t.Actives ([] ++ l) from actives) enough enough
  refine ⟨t', ?_, actives', fields⟩
  rw [timerInterrupt, Prog.get_bind_run, head]
  exact run

end

end Sos.Kernel
