import Mathlib.Data.List.Nodup
import Sos.Kernel.TimerList

/-! The active list over any sequence of calls: it is the set of the events that were added. -/

namespace Sos.Kernel
open Sos.Lib Timers

variable {ω : Type}

/-- The event that a call is for. -/
def TimerCall.event : TimerCall → UInt32
  | set e _ _ _ _ => e
  | add e => e
  | del e => e

/-- Added, and not deleted since. -/
def Added (e : UInt32) (calls : List TimerCall) : Prop :=
  ∃ before since, calls = before ++ .add e :: since ∧ .del e ∉ since

theorem added_nil (e : UInt32) : ¬Added e [] := by
  rintro ⟨before, since, split, -⟩
  cases before <;> cases split

theorem added_cons (e : UInt32) (c : TimerCall) (calls : List TimerCall) :
    Added e (c :: calls) ↔ Added e calls ∨ c = .add e ∧ .del e ∉ calls := by
  constructor
  · rintro ⟨before, since, split, kept⟩
    cases before with
    | nil =>
      rw [List.nil_append, List.cons.injEq] at split
      rw [split.1, split.2]
      exact .inr ⟨rfl, kept⟩
    | cons b before =>
      rw [List.cons_append, List.cons.injEq] at split
      exact .inl ⟨before, since, split.2, kept⟩
  · rintro (⟨before, since, rfl, kept⟩ | ⟨rfl, kept⟩)
    · exact ⟨c :: before, since, rfl, kept⟩
    · exact ⟨[], calls, rfl, kept⟩

section
variable {t : Timers ω} {l : List UInt32} {e : UInt32} {fuel : Nat}

/-- An event off the list gets another record. -/
theorem Timers.Actives.put (actives : t.Actives l) (event : e ≠ 0) (absent : e ∉ l) (record : TimeEvent) :
    (t.put e record).Actives l := by
  apply Chain.congr actives
  intro x member
  apply link_put
  left
  rintro rfl
  rcases List.mem_cons.mp member with zero | inside
  · exact event zero
  · exact absent inside

theorem split_short (active : e ∈ l) (enough : l.length < fuel) :
    ∃ pre post, l = pre ++ e :: post ∧ pre.length < fuel := by
  obtain ⟨pre, post, split⟩ := List.append_of_mem active
  refine ⟨pre, post, split, ?_⟩
  rw [split, List.length_append] at enough
  omega

theorem mem_removed {pre post : List UInt32} (once : (pre ++ e :: post).Nodup) (x : UInt32) :
    x ∈ pre ++ post ↔ x ∈ pre ++ e :: post ∧ x ≠ e := by
  have off : e ∉ pre ++ post := (List.nodup_cons.mp (List.nodup_middle.mp once)).1
  rw [List.perm_middle.mem_iff, List.mem_cons]
  constructor
  · intro member
    refine ⟨.inr member, ?_⟩
    rintro rfl
    exact off member
  · rintro ⟨member, other⟩
    exact member.resolve_left other

theorem timeEventSet_actives (interval repeats funct arg : UInt32) (actives : t.Actives l) (event : e ≠ 0)
    (enough : l.length < fuel) :
    ∃ t', timeEventSet fuel e interval repeats funct arg t = .done () t' ∧ t'.Actives l := by
  by_cases active : e ∈ l
  · obtain ⟨pre, post, rfl, short⟩ := split_short active enough
    exact ⟨t, timeEventSet_hit _ _ _ _ actives short, actives⟩
  · exact ⟨_, timeEventSet_miss _ _ _ _ actives event active enough, actives.put event active _⟩

theorem timeEventAdd_actives (actives : t.Actives l) (event : e ≠ 0) (enough : l.length < fuel) :
    ∃ t' l', timeEventAdd fuel e t = .done () t' ∧ t'.Actives l' ∧ l'.length ≤ l.length + 1 ∧
      ∀ x, x ∈ l' ↔ x = e ∨ x ∈ l := by
  by_cases active : e ∈ l
  · obtain ⟨pre, post, rfl, short⟩ := split_short active enough
    refine ⟨t, _, timeEventAdd_hit actives short, actives, Nat.le_succ _, ?_⟩
    intro x
    constructor
    · exact .inr
    · rintro (rfl | member)
      · exact active
      · exact member
  · exact ⟨_, e :: l, timeEventAdd_miss actives event active enough, actives.added event active,
      Nat.le_refl _, fun x => List.mem_cons⟩

theorem timeEventDel_actives (actives : t.Actives l) (event : e ≠ 0) (enough : l.length < fuel) :
    ∃ t' l', timeEventDel fuel e t = .done () t' ∧ t'.Actives l' ∧ l'.length ≤ l.length + 1 ∧
      ∀ x, x ∈ l' ↔ x ∈ l ∧ x ≠ e := by
  by_cases active : e ∈ l
  · obtain ⟨pre, post, rfl, short⟩ := split_short active enough
    have once : (pre ++ e :: post).Nodup := (List.nodup_cons.mp actives.nodup).2
    refine ⟨_, pre ++ post, timeEventDel_hit actives short, actives.relinked, ?_, mem_removed once⟩
    simp only [List.length_append, List.length_cons]
    omega
  · refine ⟨t, l, timeEventDel_miss actives event active enough, actives, Nat.le_succ _, ?_⟩
    intro x
    constructor
    · intro member
      refine ⟨member, ?_⟩
      rintro rfl
      exact active member
    · exact And.left

/-- The list after one call. -/
theorem TimerCall.run_actives (c : TimerCall) (actives : t.Actives l) (event : c.event ≠ 0)
    (enough : l.length < fuel) : ∃ t' l', c.run fuel t = .done () t' ∧ t'.Actives l' ∧
      l'.length ≤ l.length + 1 ∧ ∀ e, e ∈ l' ↔ c = .add e ∨ e ∈ l ∧ c ≠ .del e := by
  cases c with
  | set e interval repeats funct arg =>
    obtain ⟨t', run, actives'⟩ := timeEventSet_actives interval repeats funct arg actives event enough
    refine ⟨t', l, run, actives', Nat.le_succ _, ?_⟩
    simp
  | add e =>
    obtain ⟨t', l', run, actives', length, member⟩ := timeEventAdd_actives actives event enough
    refine ⟨t', l', run, actives', length, ?_⟩
    intro x
    rw [member, TimerCall.add.injEq, ne_eq]
    simp [TimerCall.event, eq_comm]
  | del e =>
    obtain ⟨t', l', run, actives', length, member⟩ := timeEventDel_actives actives event enough
    refine ⟨t', l', run, actives', length, ?_⟩
    intro x
    rw [member, ne_eq, ne_eq, TimerCall.del.injEq]
    simp [TimerCall.event, eq_comm]

/-- The list after a sequence of calls. -/
theorem runCalls_actives (calls : List TimerCall) (actives : t.Actives l)
    (events : ∀ c ∈ calls, c.event ≠ 0) (enough : l.length + calls.length < fuel) :
    ∃ t' l', runCalls fuel calls t = .done () t' ∧ t'.Actives l' ∧ l'.length ≤ l.length + calls.length ∧
      ∀ e, e ∈ l' ↔ Added e calls ∨ e ∈ l ∧ .del e ∉ calls := by
  induction calls generalizing t l with
  | nil =>
    refine ⟨t, l, rfl, actives, Nat.le_refl _, ?_⟩
    intro e
    simp [added_nil]
  | cons c calls ih =>
    have event := events c List.mem_cons_self
    rw [List.length_cons] at enough
    obtain ⟨t₁, l₁, run₁, actives₁, length₁, member₁⟩ := c.run_actives actives event (by omega : l.length < fuel)
    obtain ⟨t', l', run', actives', length', member'⟩ := ih actives₁
      (fun c member => events c (List.mem_cons_of_mem _ member)) (by omega)
    refine ⟨t', l', ?_, actives', ?_, ?_⟩
    · rw [runCalls, Prog.bind_done _ run₁, run']
    · rw [List.length_cons]
      omega
    · intro e
      rw [member', member₁, added_cons, List.mem_cons, not_or, ne_comm]
      tauto

end

/-- After any calls from the empty list. A call that does not apply changes nothing, and an event that is
set anew leaves the others as they are. -/
theorem runCalls_set (start : Timers ω) (empty : start.head = 0) (calls : List TimerCall)
    (events : ∀ c ∈ calls, c.event ≠ 0) (fuel : Nat) (enough : calls.length < fuel) :
    ∃ t l, runCalls fuel calls start = .done () t ∧ t.Actives l ∧ l.Nodup ∧ 0 ∉ l ∧ (∀ e, e ∈ l ↔ Added e calls) ∧
      ∀ e, e ≠ 0 →
        (Added e calls → timeEventAdd fuel e t = .done () t ∧
          ∀ interval repeats funct arg, timeEventSet fuel e interval repeats funct arg t = .done () t) ∧
        (¬Added e calls → timeEventDel fuel e t = .done () t ∧
          ∀ interval repeats funct arg, ∃ u, timeEventSet fuel e interval repeats funct arg t = .done () u ∧
            u.head = t.head ∧ ∀ x, x ≠ e → u.events x = t.events x) := by
  have actives : start.Actives [] := (link_zero start).trans empty
  obtain ⟨t, l, run, actives', length, member⟩ := runCalls_actives calls actives events
    (by rwa [List.length_nil, Nat.zero_add])
  rw [List.length_nil, Nat.zero_add] at length
  have short : l.length < fuel := by omega
  have added : ∀ e, e ∈ l ↔ Added e calls := by
    intro e
    rw [member]
    simp
  refine ⟨t, l, run, actives', (List.nodup_cons.mp actives'.nodup).2, ?_, added, ?_⟩
  · intro zero
    exact actives'.ne_null 0 zero rfl
  · intro e event
    rw [← added e]
    constructor
    · intro active
      obtain ⟨pre, post, rfl, early⟩ := split_short active short
      exact ⟨timeEventAdd_hit actives' early, fun _ _ _ _ => timeEventSet_hit _ _ _ _ actives' early⟩
    · intro inactive
      refine ⟨timeEventDel_miss actives' event inactive short, ?_⟩
      intro interval repeats funct arg
      refine ⟨_, timeEventSet_miss _ _ _ _ actives' event inactive short, rfl, ?_⟩
      intro x other
      exact if_neg other

/-- Of two events that were added the first one is deleted, and set again. -/
theorem runCalls_set_two :
    ∃ t l, runCalls 6 [.set 0x100 5 1 0x10 0, .add 0x100, .add 0x200, .del 0x100, .set 0x100 7 0 0x10 0]
        (⟨0, fun _ => ⟨0, 0, 0, 0, 0⟩, ()⟩ : Timers Unit) = .done () t ∧
      t.Actives l ∧ l.Nodup ∧ (0x200 : UInt32) ∈ l ∧ (0x100 : UInt32) ∉ l := by
  obtain ⟨t, l, run, actives, once, -, added, -⟩ := runCalls_set
    (⟨0, fun _ => ⟨0, 0, 0, 0, 0⟩, ()⟩ : Timers Unit) rfl
    [.set 0x100 5 1 0x10 0, .add 0x100, .add 0x200, .del 0x100, .set 0x100 7 0 0x10 0]
    (by simp [TimerCall.event]) 6 (by decide)
  refine ⟨t, l, run, actives, once, (added 0x200).mpr ?_, fun first => ?_⟩
  · simp [added_cons]
  · have first' := (added 0x100).mp first
    simp [added_cons, added_nil] at first'

end Sos.Kernel
