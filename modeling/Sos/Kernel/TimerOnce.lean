import Mathlib.Data.List.Nodup
import Sos.Kernel.TimerWalk

/-! Every event on the list is counted down once in a timer interrupt, as long as no callback
sets or adds an event anew that the walk has still to leave or to pass. -/

namespace Sos.Kernel
open Sos.Lib Timers

variable {ω : Type} (callback : Callback ω)

/-- The calls of the callback that runs at `p`, if one does, are safe. -/
def SafeVisit (p : UInt32) (t : Timers ω) : Prop :=
  ∀ fuel t', countDown fuel p t = .done true t' →
    SafeCalls p (callback (t'.events p).event (t'.events p).arg t').1
      { t' with world := (callback (t'.events p).event (t'.events p).arg t').2 }

/-- Where the walk gets to, starting with the first event. -/
inductive Reached (start : Timers ω) : UInt32 → Timers ω → Prop
  | first : Reached start start.head start
  | next {p : UInt32} {t t' : Timers ω} {fuel : Nat} {v : Visit} (before : Reached start p t) (event : p ≠ 0)
      (run : visit callback fuel p t = .done v t') : Reached start (t'.events p).next t'

/-- All callbacks that run in the interrupt make safe calls. -/
def Orderly (start : Timers ω) : Prop :=
  ∀ p t, Reached callback start p t → p ≠ 0 → SafeVisit callback p t

/-- A callback took the event off the list, or it expired. -/
def Removed (start : Timers ω) (visits : List Visit) (e : UInt32) : Prop :=
  (∃ v, v ∈ visits ∧ .del e ∈ v.calls.getD []) ∨
    (start.events e).tInterval = 0 ∧ ∃ v, v ∈ visits ∧ v.event = e ∧ v.calls.isSome

/-- The interrupt ends. The events that were on the list and stayed there are counted down
once, and no callback is called twice for an event. -/
def EachOnce (start : Timers ω) (l : List UInt32) : Prop := ∃ n visits t,
  (∀ fuel, n ≤ fuel → timerInterrupt callback fuel start = .done visits t) ∧
  (∀ e, e ∈ l → ¬Removed start visits e → (visits.map Visit.event).count e = 1) ∧
  ∀ e, ((visits.filter fun v => v.calls.isSome).map Visit.event).count e ≤ 1

namespace Standing
variable {callback} {t : Timers ω} {p : UInt32} {active ahead : List UInt32}
  (standing : Standing t p active ahead)
include standing

theorem visited (safe : SafeVisit callback p t) : ∃ n v t' active' ahead',
    (∀ fuel, n ≤ fuel → visit callback fuel p t = .done v t') ∧ v.event = p ∧ Standing t' p active' ahead' ∧
    List.Sublist ahead' ahead ∧ ∀ y, y ∈ ahead → y ∈ ahead' ∨ .del y ∈ v.calls.getD [] := by
  obtain ⟨n, due, t₁, active₁, ahead₁, run₁, standing₁, sub₁, kept₁⟩ := standing.counted
  cases due with
  | false =>
    refine ⟨n, ⟨p, none⟩, t₁, active₁, ahead₁, fun fuel enough => ?_, rfl, standing₁, sub₁,
      fun y inside => Or.inl (kept₁ y inside)⟩
    rw [visit, Prog.bind_done _ (run₁ fuel enough)]
    rfl
  | true =>
    let done := callback (t₁.events p).event (t₁.events p).arg t₁
    have standing₂ : Standing { t₁ with world := done.2 } p active₁ ahead₁ := standing₁.congr fun _ => rfl
    obtain ⟨k, t', active', ahead', run, standing', sub, kept⟩ :=
      standing₂.calls (safe n t₁ (run₁ n (Nat.le_refl n)))
    refine ⟨max n k, ⟨p, some done.1⟩, t', active', ahead', fun fuel enough => ?_, rfl, standing',
      sub.trans sub₁, fun y inside => kept y (kept₁ y inside)⟩
    have called : callEvent callback fuel p t₁ = .done done.1 t' := by
      rw [callEvent, Prog.get_bind_run]
      exact Prog.bind_done _ (run fuel (by omega))
    rw [visit, Prog.bind_done _ (run₁ fuel (by omega))]
    exact Prog.bind_done _ called

/-- The walk goes on to the first event ahead. -/
theorem onward : (t.events p).next = ahead.headD 0 ∧
    ∀ q rest, ahead = q :: rest → Standing t q active rest := by
  have path := standing.path
  refine ⟨?_, ?_⟩
  · rw [← link_of_ne t standing.event]
    exact path.head
  · rintro q rest rfl
    refine ⟨path.2.1, standing.actives, path.2.2, ?_⟩
    obtain ⟨gone, live, before, split, list, off⟩ := standing.split
    cases gone with
    | nil =>
      refine ⟨[], q :: rest, before ++ [p], rfl, ?_, by simp⟩
      rw [list, ← show p :: q :: rest = live from split]
      simp
    | cons y gone =>
      exact ⟨gone, live, before, (List.cons.inj split).2, list, fun x member =>
        off x (List.mem_cons_of_mem y member)⟩

/-- The walk counts down events ahead of it in their order, and misses only those that a
callback takes off the list. -/
theorem loop {start : Timers ω} (orderly : Orderly callback start) (reached : Reached callback start p t) :
    ∃ n visits t', (∀ fuel left, n ≤ fuel → n ≤ left → timerLoop callback fuel left p t = .done visits t') ∧
      List.Sublist (visits.map Visit.event) (p :: ahead) ∧
      ∀ y, y ∈ p :: ahead → y ∈ visits.map Visit.event ∨ ∃ v, v ∈ visits ∧ .del y ∈ v.calls.getD [] := by
  induction count : ahead.length using Nat.strongRecOn generalizing t p active ahead with
  | ind size ih =>
    obtain ⟨n, v, t₁, active₁, ahead₁, run₁, event, standing₁, sub₁, kept₁⟩ :=
      standing.visited (orderly p t reached standing.event)
    have further := Reached.next reached standing.event (run₁ n (Nat.le_refl n))
    obtain ⟨next, onward⟩ := standing₁.onward
    have rest : ∃ k visits t', (∀ fuel left, k ≤ fuel → k ≤ left →
          timerLoop callback fuel left (t₁.events p).next t₁ = .done visits t') ∧
        List.Sublist (visits.map Visit.event) ahead₁ ∧
        ∀ y, y ∈ ahead₁ → y ∈ visits.map Visit.event ∨ ∃ v, v ∈ visits ∧ .del y ∈ v.calls.getD [] := by
      cases ahead₁ with
      | nil =>
        refine ⟨1, [], t₁, fun fuel left _ some => ?_, List.Sublist.refl _, by simp⟩
        obtain ⟨left, rfl⟩ : ∃ k, left = k + 1 := ⟨left - 1, by omega⟩
        rw [next, timerLoop]
        exact congrFun (if_pos rfl) t₁
      | cons q rest =>
        have next' : (t₁.events p).next = q := next
        rw [next'] at further ⊢
        have short := sub₁.length_le
        rw [List.length_cons] at short
        exact ih rest.length (by omega) (onward q rest rfl) further rfl
    obtain ⟨k, visits, t', run, sub, kept⟩ := rest
    refine ⟨max n k + 1, v :: visits, t', fun fuel left enough some => ?_, ?_, ?_⟩
    · obtain ⟨left, rfl⟩ : ∃ k, left = k + 1 := ⟨left - 1, by omega⟩
      rw [timerLoop]
      refine (congrFun (if_neg standing.event) t).trans ?_
      rw [Prog.bind_done _ (run₁ fuel (by omega)), Prog.get_bind_run,
        Prog.bind_done _ (run fuel left (by omega) (by omega))]
      rfl
    · rw [List.map_cons, event]
      exact (sub.trans sub₁).cons_cons p
    · intro y member
      rcases List.mem_cons.mp member with rfl | later
      · exact Or.inl (by rw [List.map_cons, event]; exact List.mem_cons_self)
      · rcases kept₁ y later with still | deleted
        · rcases kept y still with counted | ⟨w, inside, deleted⟩
          · exact Or.inl (by rw [List.map_cons]; exact List.mem_cons_of_mem _ counted)
          · exact Or.inr ⟨w, List.mem_cons_of_mem v inside, deleted⟩
        · exact Or.inr ⟨v, List.mem_cons_self, deleted⟩

end Standing

variable {callback} {start : Timers ω} {l : List UInt32}

theorem timerInterrupt_done (actives : start.Actives l) (orderly : Orderly callback start) :
    ∃ n visits t', (∀ fuel, n ≤ fuel → timerInterrupt callback fuel start = .done visits t') ∧
      List.Sublist (visits.map Visit.event) l ∧
      ∀ y, y ∈ l → y ∈ visits.map Visit.event ∨ ∃ v, v ∈ visits ∧ .del y ∈ v.calls.getD [] := by
  cases l with
  | nil =>
    have none : start.head = 0 := (link_zero start).symm.trans actives
    refine ⟨1, [], start, fun fuel enough => ?_, List.Sublist.refl _, by simp⟩
    obtain ⟨fuel, rfl⟩ : ∃ k, fuel = k + 1 := ⟨fuel - 1, by omega⟩
    rw [timerInterrupt, Prog.get_bind_run, timerLoop]
    exact congrFun (if_pos none) start
  | cons p ahead =>
    have head : start.head = p := (link_zero start).symm.trans actives.1
    have standing : Standing start p (p :: ahead) ahead :=
      ⟨actives.2.1, actives, actives.2.2, [], p :: ahead, [], rfl, rfl, by simp⟩
    have reached : Reached callback start p start := head ▸ Reached.first
    obtain ⟨n, visits, t', run, sub, kept⟩ := standing.loop orderly reached
    refine ⟨n, visits, t', fun fuel enough => ?_, sub, kept⟩
    rw [timerInterrupt, Prog.get_bind_run, head]
    exact run fuel fuel enough enough

/-- Safe calls, whatever else the callbacks do, leave every event its one count-down. -/
theorem timerInterrupt_once (actives : start.Actives l) (orderly : Orderly callback start) :
    EachOnce callback start l := by
  obtain ⟨n, visits, t', run, sub, kept⟩ := timerInterrupt_done actives orderly
  have once := sub.nodup (List.nodup_cons.mp actives.nodup).2
  refine ⟨n, visits, t', run, ?_, ?_⟩
  · intro e member stayed
    refine List.count_eq_one_of_mem once ((kept e member).resolve_right fun deleted => ?_)
    exact stayed (Or.inl deleted)
  · intro e
    have part := (List.filter_sublist (l := visits) (p := fun v => v.calls.isSome)).map Visit.event
    exact List.nodup_iff_count_le_one.mp (part.nodup once) e

/-- The function at 0x20 takes the other event off the list. -/
def stopOther : Callback Unit := fun event _ t => (if event = 0x20 then [.del 0x100] else [], t.world)

theorem timerInterrupt_once_pair : EachOnce stopOther pairOfEvents [0x100, 0x200] := by
  refine timerInterrupt_once pairOfEvents_actives ?_
  intro p t _ _ fuel t' _
  unfold stopOther
  by_cases second : (t'.events p).event = 0x20
  · simp only [if_pos second]
    exact ⟨show (0x100 : UInt32) ≠ 0 by decide, fun _ _ _ => trivial⟩
  · simp only [if_neg second]
    trivial

/-- The function at 0x20 arms its event again. -/
def armAgain : Callback Unit := fun event _ t =>
  (if event = 0x20 then [.set 0x200 7 0 0x20 0, .add 0x200] else [], t.world)

/-- The walk goes on behind the event's new place, before the first one. -/
theorem timerInterrupt_twice : pairOfEvents.Actives [0x100, 0x200] ∧
    ¬EachOnce armAgain pairOfEvents [0x100, 0x200] := by
  refine ⟨pairOfEvents_actives, ?_⟩
  rintro ⟨n, visits, t, run, once, -⟩
  have twice : ∃ t', timerInterrupt armAgain (n + 10) pairOfEvents =
      .done [⟨0x100, none⟩, ⟨0x200, some [.set 0x200 7 0 0x20 0, .add 0x200]⟩, ⟨0x100, some []⟩] t' := ⟨_, rfl⟩
  obtain ⟨t', twice⟩ := twice
  rw [run (n + 10) (by omega), Outcome.done.injEq] at twice
  have count := once 0x100 (by simp) (by
    rw [twice.1]
    rintro (⟨v, member, deleted⟩ | ⟨interval, -⟩)
    · simp only [List.mem_cons, List.not_mem_nil, or_false] at member
      rcases member with rfl | rfl | rfl
      · simp at deleted
      · simp at deleted
      · simp at deleted
    · exact absurd interval (by decide))
  rw [twice.1] at count
  exact absurd count (by decide)

end Sos.Kernel
