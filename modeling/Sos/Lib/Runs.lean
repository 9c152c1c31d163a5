import Sos.Lib.Prog

/-! Sequences of calls: every state some allowed calls lead to, with the calls and
their results so far, the latest one first. -/

namespace Sos.Lib

inductive Runs {σ ι ο : Type} (step : ι → Prog σ ο) (allowed : ι → σ → Prop) (start : σ) :
    List (ι × ο) → σ → Prop
  | nil : Runs step allowed start [] start
  | call {log : List (ι × ο)} {s t : σ} {i : ι} {o : ο} (before : Runs step allowed start log s)
      (allow : allowed i s) (run : step i s = .done o t) : Runs step allowed start ((i, o) :: log) t

namespace Runs
variable {σ ι ο : Type} {step : ι → Prog σ ο} {allowed : ι → σ → Prop} {start : σ}

/-- What every allowed call keeps holds after every sequence of them. -/
theorem invariant (I : List (ι × ο) → σ → Prop) (init : I [] start)
    (keep : ∀ log s i o t, I log s → allowed i s → step i s = .done o t → I ((i, o) :: log) t)
    {log : List (ι × ο)} {s : σ} (runs : Runs step allowed start log s) : I log s := by
  induction runs with
  | nil => exact init
  | call before allow run ih => exact keep _ _ _ _ _ ih allow run

/-- The calls up to some point are a run as well. -/
theorem prior {later log : List (ι × ο)} {s : σ} (runs : Runs step allowed start (later ++ log) s) :
    ∃ t, Runs step allowed start log t := by
  induction later generalizing s with
  | nil => exact ⟨s, runs⟩
  | cons e later ih =>
    cases runs with
    | call before _ _ => exact ih before

/-- Every run of a system that another one follows call by call is a run of that one,
with the same results. -/
theorem simulated {τ : Type} {step' : ι → Prog τ ο} {allowed' : ι → τ → Prop} {start' : τ}
    (Rel : σ → τ → Prop) (init : Rel start start')
    (follow : ∀ i s t o s', Rel s t → allowed i s → step i s = .done o s' →
      allowed' i t ∧ ∃ t', step' i t = .done o t' ∧ Rel s' t')
    {log : List (ι × ο)} {s : σ} (runs : Runs step allowed start log s) :
    ∃ t, Runs step' allowed' start' log t ∧ Rel s t := by
  induction runs with
  | nil => exact ⟨start', nil, init⟩
  | call before allow run ih =>
    obtain ⟨t, runs', related⟩ := ih
    obtain ⟨allow', t', run', related'⟩ := follow _ _ _ _ _ related allow run
    exact ⟨t', runs'.call allow' run', related'⟩

end Runs

/-- Sequences of calls in which the answers so far decide what may be called. -/
inductive Session {σ ι ο : Type} (step : ι → Prog σ ο) (allowed : List (ι × ο) → ι → Prop) (start : σ) :
    List (ι × ο) → σ → Prop
  | nil : Session step allowed start [] start
  | call {log : List (ι × ο)} {s t : σ} {i : ι} {o : ο} (before : Session step allowed start log s)
      (allow : allowed log i) (run : step i s = .done o t) : Session step allowed start ((i, o) :: log) t

theorem Session.invariant {σ ι ο : Type} {step : ι → Prog σ ο} {allowed : List (ι × ο) → ι → Prop}
    {start : σ} (I : List (ι × ο) → σ → Prop) (init : I [] start)
    (keep : ∀ log s i o t, I log s → allowed log i → step i s = .done o t → I ((i, o) :: log) t)
    {log : List (ι × ο)} {s : σ} (session : Session step allowed start log s) : I log s := by
  induction session with
  | nil => exact init
  | call before allow run ih => exact keep _ _ _ _ _ ih allow run

end Sos.Lib
