import Mathlib.Data.List.Nodup
import Mathlib.Data.Nat.Basic
import Sos.Kernel.TimerSchedule

/-! When an event fires, over many timer interrupts. -/

namespace Sos.Kernel
open Sos.Lib Timers

variable {ω : Type}

/-- How often the callback ran for `e`. -/
def firings (e : UInt32) (visits : List Visit) : Nat :=
  ((visits.filter fun v => v.calls.isSome).map Visit.event).count e

theorem firings_visitOf (t : Timers ω) {l : List UInt32} (once : l.Nodup) (e : UInt32) :
    firings e (l.map (visitOf t)) = if e ∈ l ∧ (t.fields e).due = true then 1 else 0 := by
  have some : ∀ p, (visitOf t p).calls.isSome = (t.fields p).due := by
    intro p
    unfold visitOf
    cases (t.fields p).due with
    | true => rfl
    | false => rfl
  have fired : ((l.map (visitOf t)).filter fun v => v.calls.isSome).map Visit.event =
      l.filter fun p => (t.fields p).due := by
    rw [List.filter_map, List.map_map]
    refine (List.map_congr_left fun p _ => rfl).trans ((List.map_id _).trans ?_)
    exact List.filter_congr fun p _ => some p
  rw [firings, fired]
  by_cases due : e ∈ l ∧ (t.fields e).due = true
  · rw [if_pos due]
    exact List.count_eq_one_of_mem (once.filter _) (List.mem_filter.mpr due)
  · rw [if_neg due]
    exact List.count_eq_zero_of_not_mem fun member => due (List.mem_filter.mp member)

/-- When an event set with this interval fires: in every `n`th interrupt, or in the `n`th one. -/
def Fires (n repeats : UInt32) (k : Nat) : Prop :=
  if repeats = timeEventRepeat then n.toNat ∣ k else k = n.toNat

instance (n repeats : UInt32) (k : Nat) : Decidable (Fires n repeats k) :=
  inferInstanceAs (Decidable (if repeats = timeEventRepeat then n.toNat ∣ k else k = n.toNat))

/-- An event `k` interrupts after it was added. -/
inductive Counting (n repeats : UInt32) (k : Nat) (t : Timers ω) (l : List UInt32) (e : UInt32) : Prop
  | waiting (member : e ∈ l) (interval : (t.fields e).tInterval = if repeats = timeEventRepeat then n else 0)
      (remaining : (t.fields e).tRemaining.toNat = n.toNat - k % n.toNat)
      (early : repeats = timeEventRepeat ∨ k < n.toNat)
  | past (once : repeats ≠ timeEventRepeat) (late : n.toNat ≤ k) (absent : e ∉ l)

/-- Zero wraps around to the top. -/
theorem one_less_toNat (n : UInt32) : (n - 1).toNat = (4294967295 + n.toNat) % 4294967296 := by
  rw [UInt32.toNat_sub]
  rfl

theorem TimeEvent.due_iff (e : TimeEvent) : e.due = true ↔ e.tRemaining.toNat = 1 := by
  have bound := e.tRemaining.toNat_lt
  have value := one_less_toNat e.tRemaining
  unfold due
  rw [decide_eq_true_iff, ← UInt32.toNat_inj, value]
  change _ = 0 ↔ _
  omega

/-- The count-down of an event that is not due. -/
theorem TimeEvent.ticked_toNat {e : TimeEvent} (some : e.tRemaining.toNat ≠ 0) (more : e.tRemaining.toNat ≠ 1) :
    e.stays = true ∧ e.ticked.tRemaining.toNat = e.tRemaining.toNat - 1 := by
  have bound := e.tRemaining.toNat_lt
  have value := one_less_toNat e.tRemaining
  have later : e.tRemaining - 1 ≠ 0 := by
    intro zero
    rw [zero] at value
    change 0 = _ at value
    omega
  refine ⟨decide_eq_true fun spent => later spent.1, ?_⟩
  unfold ticked
  rw [if_neg fun spent => later spent.1, value]
  omega

theorem remaining_cases {k n : Nat} (some : 0 < n) :
    (n - k % n = 1 ∧ (k + 1) % n = 0) ∨ (1 < n - k % n ∧ (k + 1) % n = k % n + 1) := by
  have small := Nat.mod_lt k some
  rw [Nat.add_mod]
  by_cases one : n = 1
  · subst one
    left
    omega
  · rw [Nat.mod_eq_of_lt (a := 1) (by omega)]
    by_cases last : k % n + 1 = n
    · left
      rw [last, Nat.mod_self]
      omega
    · right
      rw [Nat.mod_eq_of_lt (show k % n + 1 < n by omega)]
      omega

section
variable {callback : Callback ω} {t : Timers ω} {fuel : Nat} {l : List UInt32} {n repeats e : UInt32} {k : Nat}

/-- One interrupt more. -/
theorem Counting.tick (counting : Counting n repeats k t l e) (some : n ≠ 0) {t' : Timers ω}
    (fields : ∀ x, t'.fields x = if x ∈ l then (t.fields x).ticked else t.fields x) :
    Counting n repeats (k + 1) t' (l.filter fun p => (t.fields p).stays) e ∧
      (e ∈ l ∧ (t.fields e).due = true ↔ Fires n repeats (k + 1)) := by
  have positive : 0 < n.toNat := by
    refine Nat.pos_of_ne_zero fun zero => some ?_
    exact UInt32.toNat_inj.mp zero
  unfold Fires
  cases counting with
  | past once late absent =>
    refine ⟨.past once (by omega) fun member => absent (List.mem_filter.mp member).1, ?_⟩
    rw [if_neg once]
    exact iff_of_false (fun due => absent due.1) (by omega)
  | waiting member interval remaining early =>
    have after := fields e
    rw [if_pos member] at after
    have due := TimeEvent.due_iff (t.fields e)
    rcases remaining_cases (k := k) positive with ⟨last, multiple⟩ | ⟨more, next⟩
    · have isDue : (t.fields e).due = true := due.mpr (by omega)
      have zero : (t.fields e).tRemaining - 1 = 0 := of_decide_eq_true isDue
      by_cases repeated : repeats = timeEventRepeat
      · rw [if_pos repeated] at interval ⊢
        have stays : (t.fields e).stays = true := decide_eq_true fun spent => some (interval ▸ spent.2)
        refine ⟨.waiting (List.mem_filter.mpr ⟨member, stays⟩) ?_ ?_ (Or.inl repeated), ?_⟩
        · rw [after, if_pos repeated]
          exact interval
        · rw [after, multiple]
          change (if _ ∧ _ then _ else _ : UInt32).toNat = _
          rw [if_pos ⟨zero, by rw [interval]; exact some⟩, interval]
          rfl
        · exact iff_of_true ⟨member, isDue⟩ (Nat.dvd_of_mod_eq_zero multiple)
      · rw [if_neg repeated] at interval ⊢
        have short := early.resolve_left repeated
        rw [Nat.mod_eq_of_lt short] at last
        refine ⟨.past repeated (by omega) fun kept => ?_, iff_of_true ⟨member, isDue⟩ (by omega)⟩
        exact of_decide_eq_true (List.mem_filter.mp kept).2 ⟨zero, interval⟩
    · have notDue : ¬(e ∈ l ∧ (t.fields e).due = true) := fun both => by
        have one := due.mp both.2
        omega
      obtain ⟨stays, count⟩ := TimeEvent.ticked_toNat (e := t.fields e) (by omega) (by omega)
      refine ⟨.waiting (List.mem_filter.mpr ⟨member, stays⟩) ?_ ?_ ?_, iff_of_false notDue ?_⟩
      · rw [after]
        exact interval
      · rw [after, count]
        omega
      · refine early.imp_right fun short => ?_
        rw [Nat.mod_eq_of_lt short] at more
        omega
      · by_cases repeated : repeats = timeEventRepeat
        · rw [if_pos repeated]
          intro multiple
          have zero := Nat.mod_eq_zero_of_dvd multiple
          omega
        · rw [if_neg repeated]
          have short := early.resolve_left repeated
          rw [Nat.mod_eq_of_lt short] at more
          omega

end

/-- So many timer interrupts one after the other. -/
def interrupts (callback : Callback ω) (fuel : Nat) : Nat → Prog (Timers ω) (List (List Visit))
  | 0 => return []
  | m + 1 => do
    let visits ← timerInterrupt callback fuel
    let later ← interrupts callback fuel m
    return visits :: later

theorem Counting.interrupts {callback : Callback ω} {t : Timers ω} {fuel : Nat} {l : List UInt32}
    {n repeats e : UInt32} {k : Nat} (counting : Counting n repeats k t l e) (some : n ≠ 0)
    (quiet : Quiet callback) (actives : t.Actives l) (enough : l.length < fuel) (m : Nat) : ∃ log t' l',
      interrupts callback fuel m t = .done log t' ∧ t'.Actives l' ∧ Counting n repeats (k + m) t' l' e ∧
      log.length = m ∧ ∀ i visits, log[i]? = Option.some visits →
        firings e visits = if Fires n repeats (k + i + 1) then 1 else 0 := by
  induction m generalizing t l k with
  | zero => exact ⟨[], t, l, rfl, actives, counting, rfl, by simp⟩
  | succ m ih =>
    obtain ⟨t₁, run₁, actives₁, fields⟩ := timerInterrupt_quiet quiet actives enough
    obtain ⟨counting₁, due⟩ := counting.tick some fields
    have shorter := List.length_filter_le (fun p => (t.fields p).stays) l
    obtain ⟨log, t', l', run, actives', counting', length, fired⟩ := ih counting₁ actives₁ (by omega)
    refine ⟨l.map (visitOf t) :: log, t', l', ?_, actives', ?_, by rw [List.length_cons, length], ?_⟩
    · rw [Kernel.interrupts, Prog.bind_done _ run₁, Prog.bind_done _ run]
      rfl
    · rwa [show k + (m + 1) = k + 1 + m by omega]
    · intro i visits at_
      cases i with
      | zero =>
        obtain rfl := Option.some.inj at_
        rw [firings_visitOf t (List.nodup_cons.mp actives.nodup).2]
        simp only [due, Nat.add_zero]
      | succ i =>
        have later := fired i visits at_
        rwa [show k + 1 + i + 1 = k + (i + 1) + 1 by omega] at later

end Sos.Kernel
