import Mathlib.Tactic.Common

/-! State-passing programs with the ways a C routine can end: it returns, the
process exits inside it, it does something the language leaves undefined, or a
loop has not ended within the fuel it was given. -/

namespace Sos.Lib

inductive Outcome (σ α : Type) where
  | done (value : α) (state : σ)
  | exit (state : σ)
  | fault
  | timeout

abbrev Prog (σ α : Type) := σ → Outcome σ α

namespace Prog
variable {σ α β : Type}

def bind (x : Prog σ α) (next : α → Prog σ β) : Prog σ β := fun s =>
  match x s with
  | .done a t => next a t
  | .exit t => .exit t
  | .fault => .fault
  | .timeout => .timeout

instance : Monad (Prog σ) where
  pure a := fun s => .done a s
  bind := bind

/-- A routine that only looks at the state. -/
def get (f : σ → α) : Prog σ α := fun s => .done (f s) s

def modify (f : σ → σ) : Prog σ Unit := fun s => .done () (f s)

/-- `exit( 1 )`. -/
def exit : Prog σ α := fun s => .exit s

/-- Undefined behaviour: an access outside an array or through a null pointer. -/
def fault : Prog σ α := fun _ => .fault

def timeout : Prog σ α := fun _ => .timeout

/-- A routine that works on a part of the state. -/
def zoom {τ : Type} (part : τ → σ) (put : τ → σ → τ) (x : Prog σ α) : Prog τ α := fun t =>
  match x (part t) with
  | .done a s => .done a (put t s)
  | .exit s => .exit (put t s)
  | .fault => .fault
  | .timeout => .timeout

theorem zoom_done {τ : Type} {part : τ → σ} {put : τ → σ → τ} {x : Prog σ α} {t : τ} {a : α} {s : σ}
    (step : x (part t) = .done a s) : zoom part put x t = .done a (put t s) := by
  rw [zoom, step]

theorem of_zoom_done {τ : Type} {part : τ → σ} {put : τ → σ → τ} {x : Prog σ α} {t u : τ} {a : α}
    (run : zoom part put x t = .done a u) : ∃ s, x (part t) = .done a s ∧ u = put t s := by
  unfold zoom at run
  split at run
  next b s step =>
    rw [Outcome.done.injEq] at run
    obtain ⟨rfl, rfl⟩ := run
    exact ⟨s, step, rfl⟩
  all_goals cases run

@[simp] theorem pure_run (a : α) (s : σ) : (pure a : Prog σ α) s = .done a s := rfl

@[simp] theorem get_run (f : σ → α) (s : σ) : get f s = .done (f s) s := rfl

@[simp] theorem modify_run (f : σ → σ) (s : σ) : modify f s = .done () (f s) := rfl

@[simp] theorem fault_run (s : σ) : (fault : Prog σ α) s = .fault := rfl

/-- Symbolic execution: a first step with a known outcome is passed over. -/
theorem bind_done {x : Prog σ α} {s t : σ} {a : α} (next : α → Prog σ β)
    (step : x s = .done a t) : (x >>= next) s = next a t := by
  change bind x next s = next a t
  rw [bind, step]

theorem bind_fault {x : Prog σ α} {s : σ} (next : α → Prog σ β) (step : x s = .fault) :
    (x >>= next) s = .fault := by
  change bind x next s = .fault
  rw [bind, step]

theorem bind_exit {x : Prog σ α} {s t : σ} (next : α → Prog σ β) (step : x s = .exit t) :
    (x >>= next) s = .exit t := by
  change bind x next s = .exit t
  rw [bind, step]

@[simp] theorem pure_bind_run (a : α) (next : α → Prog σ β) (s : σ) :
    ((pure a : Prog σ α) >>= next) s = next a s := rfl

@[simp] theorem get_bind_run (f : σ → α) (next : α → Prog σ β) (s : σ) :
    (get f >>= next) s = next (f s) s := rfl

@[simp] theorem modify_bind_run (f : σ → σ) (next : Unit → Prog σ β) (s : σ) :
    (modify f >>= next) s = next () (f s) := rfl

/-- A returning composition returned from both of its parts. -/
theorem of_bind_done {x : Prog σ α} {next : α → Prog σ β} {s u : σ} {b : β}
    (run : (x >>= next) s = .done b u) : ∃ a t, x s = .done a t ∧ next a t = .done b u := by
  change bind x next s = .done b u at run
  unfold bind at run
  split at run
  next a t first => exact ⟨a, t, first, run⟩
  all_goals cases run

/-- What the routine returns, whenever it does. -/
def Yields (P : α → Prop) (x : Prog σ α) : Prop := ∀ s a t, x s = .done a t → P a

section
variable {P : α → Prop}

theorem Yields.pure {a : α} (holds : P a) : Yields P (Pure.pure a : Prog σ α) := by
  intro s b t run
  cases run
  exact holds

/-- What comes first has no say in it. -/
theorem Yields.bind {x : Prog σ β} {next : β → Prog σ α} (rest : ∀ b, Yields P (next b)) :
    Yields P (x >>= next) := by
  intro s a u run
  obtain ⟨b, t, -, run'⟩ := of_bind_done run
  exact rest b t a u run'

theorem Yields.ite {c : Prop} [Decidable c] {x y : Prog σ α} (yes : Yields P x) (no : Yields P y) :
    Yields P (if c then x else y) := by
  by_cases test : c
  · rwa [if_pos test]
  · rwa [if_neg test]

end

/-- The routine returns, whatever the state. -/
def Returns (x : Prog σ α) : Prop := ∀ s, ∃ a t, x s = .done a t

theorem Returns.pure (a : α) : Returns (Pure.pure a : Prog σ α) := fun s => ⟨a, s, rfl⟩

theorem Returns.get (f : σ → α) : Returns (Prog.get f) := fun s => ⟨f s, s, rfl⟩

theorem Returns.modify (f : σ → σ) : Returns (Prog.modify f) := fun s => ⟨(), f s, rfl⟩

theorem Returns.bind {x : Prog σ α} {next : α → Prog σ β} (first : Returns x) (rest : ∀ a, Returns (next a)) :
    Returns (x >>= next) := by
  intro s
  obtain ⟨a, t, run⟩ := first s
  rw [bind_done next run]
  exact rest a t

theorem Returns.ite {c : Prop} [Decidable c] {x y : Prog σ α} (yes : Returns x) (no : Returns y) :
    Returns (if c then x else y) := by
  by_cases test : c
  · rwa [if_pos test]
  · rwa [if_neg test]

/-- A part of the state that is the same when the routine returns. -/
def Keeps {β : Type} (f : σ → β) (x : Prog σ α) : Prop := ∀ s a t, x s = .done a t → f t = f s

section
variable {γ : Type} {f : σ → γ}

theorem Keeps.bind {x : Prog σ α} {next : α → Prog σ β} (first : Keeps f x) (rest : ∀ a, Keeps f (next a)) :
    Keeps f (x >>= next) := by
  intro s b u run
  obtain ⟨a, t, run, run'⟩ := of_bind_done run
  exact (rest a t b u run').trans (first s a t run)

theorem Keeps.pure (a : α) : Keeps f (Pure.pure a : Prog σ α) := by
  intro s b t run
  cases run
  rfl

theorem Keeps.get {g : σ → α} : Keeps f (Prog.get g) := by
  intro s b t run
  cases run
  rfl

theorem Keeps.fault : Keeps f (Prog.fault : Prog σ α) := by
  intro s b t run
  cases run

theorem Keeps.ite {c : Prop} [Decidable c] {x y : Prog σ α} (yes : Keeps f x) (no : Keeps f y) :
    Keeps f (if c then x else y) := by
  by_cases test : c
  · rwa [if_pos test]
  · rwa [if_neg test]

end

/-- A property of the state that the routine leaves true. -/
def Stays (P : σ → Prop) (x : Prog σ α) : Prop := ∀ s a t, P s → x s = .done a t → P t

section
variable {P : σ → Prop}

theorem Stays.bind {x : Prog σ α} {next : α → Prog σ β} (first : Stays P x) (rest : ∀ a, Stays P (next a)) :
    Stays P (x >>= next) := by
  intro s b u holds run
  obtain ⟨a, t, run, run'⟩ := of_bind_done run
  exact rest a t b u (first s a t holds run) run'

theorem Stays.pure (a : α) : Stays P (Pure.pure a : Prog σ α) := by
  intro s b t holds run
  cases run
  exact holds

theorem Stays.get (f : σ → α) : Stays P (Prog.get f) := by
  intro s b t holds run
  cases run
  exact holds

theorem Stays.fault : Stays P (Prog.fault : Prog σ α) := by
  intro s b t _ run
  cases run

theorem Stays.ite {c : Prop} [Decidable c] {x y : Prog σ α} (yes : Stays P x) (no : Stays P y) :
    Stays P (if c then x else y) := by
  by_cases test : c
  · rwa [if_pos test]
  · rwa [if_neg test]

end

end Prog

end Sos.Lib
