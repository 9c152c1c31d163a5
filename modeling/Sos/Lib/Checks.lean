import Sos.Lib.Prog

/-! A program beside another one that checks its accesses: it faults where a check fails, and does the
same everywhere else. -/

namespace Sos.Lib.Prog

variable {σ α β : Type} {bad : σ → Prop} {x y : Prog σ α}

/-- What comes behind a first part matters only where that part returns. -/
theorem bind_congr {f g : α → Prog σ β} {s : σ} (same : ∀ a t, x s = .done a t → f a t = g a t) :
    (x >>= f) s = (x >>= g) s := by
  change Prog.bind x f s = Prog.bind x g s
  unfold Prog.bind
  cases run : x s with
  | done a t => exact same a t run
  | exit t => rfl
  | fault => rfl
  | timeout => rfl

/-- The program does nothing undefined. -/
def Sound (x : Prog σ α) : Prop := ∀ s, x s ≠ .fault

namespace Sound

theorem pure (a : α) : Sound (Pure.pure a : Prog σ α) := fun _ => by rintro ⟨⟩

theorem get (f : σ → α) : Sound (Prog.get f) := fun _ => by rintro ⟨⟩

theorem modify (f : σ → σ) : Sound (Prog.modify f) := fun _ => by rintro ⟨⟩

theorem timeout : Sound (Prog.timeout : Prog σ α) := fun _ => by rintro ⟨⟩

theorem bind {f : α → Prog σ β} (first : Sound x) (rest : ∀ a, Sound (f a)) : Sound (x >>= f) := by
  intro s fault
  change Prog.bind x f s = .fault at fault
  unfold Prog.bind at fault
  split at fault
  next a t _ => exact rest a t fault
  next => cases fault
  next run => exact first s run
  next => cases fault

theorem ite {y : Prog σ α} {c : Prop} [Decidable c] (yes : Sound x) (no : Sound y) :
    Sound (if c then x else y) := by
  by_cases test : c
  · rwa [if_pos test]
  · rwa [if_neg test]

end Sound

structure Checks (bad : σ → Prop) (x y : Prog σ α) : Prop where
  fault : ∀ s, x s = .fault ↔ bad s
  same : ∀ s, ¬bad s → x s = y s

namespace Checks

/-- Nothing to check. -/
theorem of_sound (sound : Sound x) : Checks (fun _ => False) x x where
  fault s := iff_of_false (sound s) not_false
  same _ _ := rfl

theorem iff {bad' : σ → Prop} (checks : Checks bad x y) (when_ : ∀ s, bad' s ↔ bad s) : Checks bad' x y where
  fault s := (checks.fault s).trans (when_ s).symm
  same s good := checks.same s fun fails => good ((when_ s).mpr fails)

/-- The rest is checked in the states that the unchecked first part leads to. -/
theorem bind {bad' : α → σ → Prop} {f g : α → Prog σ β} (first : Checks bad x y)
    (rest : ∀ a, Checks (bad' a) (f a) (g a)) :
    Checks (fun s => bad s ∨ ∃ a t, y s = .done a t ∧ bad' a t) (x >>= f) (y >>= g) where
  fault s := by
    by_cases fails : bad s
    · exact ⟨fun _ => .inl fails, fun _ => bind_fault f ((first.fault s).mpr fails)⟩
    · change Prog.bind x f s = .fault ↔ _
      rw [Prog.bind, first.same s fails]
      cases run : y s with
      | done a t =>
        constructor
        · intro fault
          exact .inr ⟨a, t, rfl, ((rest a).fault t).mp fault⟩
        · rintro (fails' | ⟨b, u, same, fails'⟩)
          · exact absurd fails' fails
          · cases same
            exact ((rest a).fault t).mpr fails'
      | fault => exact absurd ((first.fault s).mp ((first.same s fails).trans run)) fails
      | exit t => simp [fails]
      | timeout => simp [fails]
  same s good := by
    have fine : ¬bad s := fun fails => good (.inl fails)
    change Prog.bind x f s = Prog.bind y g s
    rw [Prog.bind, Prog.bind, first.same s fine]
    cases run : y s with
    | done a t => exact (rest a).same t fun fails => good (.inr ⟨a, t, run, fails⟩)
    | fault => rfl
    | exit t => rfl
    | timeout => rfl

/-- What follows is the same in both programs. -/
theorem followed (first : Checks bad x y) {f : α → Prog σ β} (rest : ∀ a, Sound (f a)) :
    Checks bad (x >>= f) (y >>= f) := by
  apply (first.bind fun a => of_sound (rest a)).iff
  intro s
  simp

end Checks

end Sos.Lib.Prog
