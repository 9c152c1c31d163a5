import Sos.Kernel.TimerList

/-! One timer interrupt: what is ahead of the walk while callbacks take events off the list
and put others on it. -/

namespace Sos.Kernel
open Sos.Lib Timers

variable {ω : Type}

/-- The walk stands at `p`, and these events are ahead of it. First come events that were
taken off the list while the walk was there, then active ones. -/
structure Standing (t : Timers ω) (p : UInt32) (active ahead : List UInt32) : Prop where
  event : p ≠ 0
  actives : t.Actives active
  path : t.Path p ahead
  split : ∃ gone live before, p :: ahead = gone ++ live ∧ active = before ++ live ∧ ∀ x, x ∈ gone → x ∉ active

/-- A call is no obstacle to the walk when it does not set or add an event that the walk has
still to leave or to pass, unless that one is active. -/
def Safe (t : Timers ω) (p : UInt32) : TimerCall → Prop
  | .del e => e ≠ 0
  | .set e _ _ _ _ | .add e => e ≠ 0 ∧ ∀ active ahead, t.Actives active → t.Path p ahead →
    e ∈ p :: ahead → e ∈ active

def SafeCalls (p : UInt32) : List TimerCall → Timers ω → Prop
  | [], _ => True
  | c :: calls, t => Safe t p c ∧ ∀ fuel t', c.run fuel t = .done () t' → SafeCalls p calls t'

/-- The event before some of the active ones is none that is gone or further on. -/
theorem Standing.clear {t : Timers ω} {p : UInt32} {active ahead gone live before : List UInt32}
    (standing : Standing t p active ahead) (part : List UInt32) (split : p :: ahead = gone ++ live) (list : active = before ++ live)
    (off : ∀ x, x ∈ gone → x ∉ active) (early : ∀ x, x ∈ part → x ∈ before) :
    ∀ y, y ∈ p :: ahead → y ≠ part.getLastD 0 := by
  have once := (List.nodup_cons.mp standing.actives.nodup).2
  rw [list] at once
  rintro y member rfl
  have last : part.getLastD 0 ∈ (0 : UInt32) :: part := List.getLastD_mem_cons
  rcases List.mem_cons.mp last with zero | inside
  · rw [zero] at member
    rcases List.mem_cons.mp member with first | later
    · exact standing.event first.symm
    · exact standing.path.ne_null 0 later rfl
  · rw [split] at member
    rcases List.mem_append.mp member with early' | late
    · exact off _ early' (by rw [list]; exact List.mem_append_left live (early _ inside))
    · exact (List.nodup_append.mp once).2.2 _ (early _ inside) _ late rfl

namespace Standing
variable {t : Timers ω} {p : UInt32} {active ahead : List UInt32} (standing : Standing t p active ahead)
include standing

theorem ne_zero {x : UInt32} (member : x ∈ p :: ahead) : x ≠ 0 := by
  rcases List.mem_cons.mp member with rfl | member
  · exact standing.event
  · exact standing.path.ne_null x member

/-- The same links among the active events and ahead. -/
theorem congr {t' : Timers ω} (same : ∀ x, t'.link x = t.link x) : Standing t' p active ahead where
  event := standing.event
  actives := standing.actives.congr fun x _ => same x
  path := standing.path.congr fun x _ => same x
  split := standing.split

section
variable {x z : UInt32} {gone live before b₁ b₂ l₂ l' : List UInt32} (off : ∀ y, y ∈ gone → y ∉ active)
include off

/-- An active event that is not ahead any more is taken off. -/
theorem deleted_behind (split : p :: ahead = gone ++ live) (list : active = b₁ ++ x :: b₂ ++ live) :
    Standing (t.relinked (b₁.getLastD 0) (t.link x)) p (b₁ ++ (b₂ ++ live)) ahead := by
  have clear := standing.clear b₁ split list off fun y inside => List.mem_append_left _ inside
  have actives := standing.actives
  rw [list, List.append_assoc, List.cons_append] at actives
  refine ⟨standing.event, actives.relinked, standing.path.congr fun y member => ?_, gone, live, b₁ ++ b₂,
    split, (List.append_assoc _ _ _).symm, fun y member later => off y member ?_⟩
  · rw [link_relinked, if_neg (clear y member)]
  · rw [list]
    simp only [List.mem_append, List.mem_cons] at later ⊢
    tauto

/-- The first active event ahead stays on the way. -/
theorem deleted_first (split : p :: ahead = gone ++ x :: l₂) (list : active = before ++ x :: l₂) :
    Standing (t.relinked (before.getLastD 0) (t.link x)) p (before ++ l₂) ahead := by
  have clear := standing.clear before split list off fun y inside => inside
  have actives := standing.actives
  have once := (List.nodup_cons.mp standing.actives.nodup).2
  rw [list] at actives once off
  refine ⟨standing.event, actives.relinked, standing.path.congr fun y member => ?_, gone ++ [x], l₂, before,
    by simpa using split, rfl, ?_⟩
  · rw [link_relinked, if_neg (clear y member)]
  · intro y member later
    rcases List.mem_append.mp member with early | same
    · refine off y early ?_
      simp only [List.mem_append, List.mem_cons] at later ⊢
      tauto
    · obtain rfl := List.mem_singleton.mp same
      exact (List.nodup_cons.mp (List.perm_middle.nodup_iff.mp once)).1 later

/-- The event before a later one is ahead as well, and now leads past it. -/
theorem deleted_later (split : p :: ahead = gone ++ (l' ++ [z] ++ x :: l₂))
    (list : active = before ++ (l' ++ [z]) ++ x :: l₂) : ∃ q, ahead = q ++ x :: l₂ ∧
      Standing (t.relinked ((before ++ (l' ++ [z])).getLastD 0) (t.link x)) p (before ++ (l' ++ [z]) ++ l₂)
        (q ++ l₂) := by
  obtain ⟨q, whole⟩ : ∃ q, gone ++ (l' ++ [z]) = p :: q := by
    cases all : gone ++ (l' ++ [z]) with
    | nil => simp at all
    | cons y q =>
      rw [← List.append_assoc, all, List.cons_append] at split
      exact ⟨q, by rw [(List.cons.inj split).1]⟩
  have rest : ahead = q ++ x :: l₂ := by
    rw [← List.append_assoc, whole, List.cons_append] at split
    exact (List.cons.inj split).2
  have last : (before ++ (l' ++ [z])).getLastD 0 = q.getLastD p := by
    have twice := congrArg (fun l => List.getLastD l 0) whole
    simp only [← List.append_assoc, List.getLastD_concat, List.getLastD_cons] at twice ⊢
    exact twice
  have actives := standing.actives
  have path := standing.path
  rw [list] at actives
  rw [rest] at path
  refine ⟨q, rest, standing.event, actives.relinked, path.unlink ?_ ?_, gone, l' ++ [z] ++ l₂, before, ?_,
    List.append_assoc _ _ _, ?_⟩
  · rw [link_relinked, last, if_pos rfl]
  · intro y _ other
    rw [link_relinked, last, if_neg other]
  · rw [← List.append_assoc, whole, List.cons_append]
  · intro y member later
    refine off y member ?_
    rw [list]
    simp only [List.mem_append, List.mem_cons] at later ⊢
    tauto

end

/-- An event taken off the list is no longer ahead, or it is there among those that are gone. -/
theorem deleted {x : UInt32} (member : x ∈ active) : ∃ t' active' ahead',
    (∀ fuel, active.length < fuel → timeEventDel fuel x t = .done () t') ∧ active'.length ≤ active.length ∧
    Standing t' p active' ahead' ∧ List.Sublist ahead' ahead ∧ ∀ y, y ∈ ahead → y ∈ ahead' ∨ y = x := by
  obtain ⟨gone, live, before, split, list, off⟩ := standing.split
  have run : ∀ pre post, active = pre ++ x :: post → ∀ fuel, active.length < fuel →
      timeEventDel fuel x t = .done () (t.relinked (pre.getLastD 0) (t.link x)) := by
    intro pre post here fuel enough
    rw [here, List.length_append] at enough
    exact timeEventDel_hit (here ▸ standing.actives) (by omega)
  have short : ∀ pre post, active = pre ++ x :: post → (pre ++ post).length ≤ active.length := by
    intro pre post here
    simp only [here, List.length_append, List.length_cons]
    omega
  rcases List.mem_append.mp (list ▸ member) with early | late
  · obtain ⟨b₁, b₂, rfl⟩ := List.append_of_mem early
    have here : active = b₁ ++ x :: (b₂ ++ live) := by simpa using list
    exact ⟨_, _, ahead, run _ _ here, short _ _ here, standing.deleted_behind off split list,
      List.Sublist.refl _, fun y inside => Or.inl inside⟩
  · obtain ⟨l₁, l₂, rfl⟩ := List.append_of_mem late
    by_cases first : l₁ = []
    · subst first
      exact ⟨_, _, ahead, run _ _ list, short _ _ list, standing.deleted_first off split list,
        List.Sublist.refl _, fun y inside => Or.inl inside⟩
    · obtain ⟨l', z, rfl⟩ := (List.eq_nil_or_concat' l₁).resolve_left first
      have here : active = before ++ (l' ++ [z]) ++ x :: l₂ := list.trans (List.append_assoc _ _ _).symm
      obtain ⟨q, rest, standing'⟩ := standing.deleted_later off split here
      refine ⟨_, _, q ++ l₂, run _ _ here, short _ _ here, standing', ?_, ?_⟩
      · rw [rest]
        exact (List.sublist_cons_self x l₂).append_left q
      · intro y inside
        rw [rest] at inside
        simp only [List.mem_append, List.mem_cons] at inside ⊢
        tauto

/-- A call about an event that is neither active nor ahead changes no link there. -/
theorem outside {t' : Timers ω} {e : UInt32} (event : e ≠ 0) (absent : e ∉ active) (clear : e ∉ p :: ahead)
    (same : ∀ x, x ≠ e → t'.link x = t.link x) : Standing t' p active ahead where
  event := standing.event
  actives := standing.actives.congr fun x member => same x (by
    rintro rfl
    exact absent ((List.mem_cons.mp member).resolve_left event))
  path := standing.path.congr fun x member => same x (by
    rintro rfl
    exact clear member)
  split := standing.split

theorem added {e : UInt32} (event : e ≠ 0) (absent : e ∉ active) (clear : e ∉ p :: ahead) :
    Standing (t.added e) p (e :: active) ahead where
  event := standing.event
  actives := standing.actives.added event absent
  path := standing.path.congr fun x member => by
    rw [added_link, if_neg (standing.ne_zero member), if_neg]
    rintro rfl
    exact clear member
  split := by
    obtain ⟨gone, live, before, split, rfl, off⟩ := standing.split
    refine ⟨gone, live, e :: before, split, rfl, ?_⟩
    intro x member later
    rcases List.mem_cons.mp later with rfl | old
    · exact clear (by rw [split]; exact List.mem_append_left live member)
    · exact off x member old

/-- A safe call takes at most its event off the way. -/
theorem called {c : TimerCall} (safe : Safe t p c) : ∃ t' active' ahead',
    (∀ fuel, active.length < fuel → c.run fuel t = .done () t') ∧ Standing t' p active' ahead' ∧
    List.Sublist ahead' ahead ∧ ∀ y, y ∈ ahead → y ∈ ahead' ∨ c = .del y := by
  cases c with
  | del e =>
    by_cases member : e ∈ active
    · obtain ⟨t', active', ahead', run, -, standing', sub, kept⟩ := standing.deleted member
      refine ⟨t', active', ahead', run, standing', sub, fun y inside => ?_⟩
      exact (kept y inside).imp_right fun same => by rw [same]
    · exact ⟨t, active, ahead, fun fuel enough => timeEventDel_miss standing.actives safe member enough,
        standing, List.Sublist.refl _, fun y inside => Or.inl inside⟩
  | set e interval repeats funct arg =>
    by_cases member : e ∈ active
    · obtain ⟨pre, post, rfl⟩ := List.append_of_mem member
      refine ⟨t, _, ahead, fun fuel enough => timeEventSet_hit interval repeats funct arg standing.actives ?_,
        standing, List.Sublist.refl _, fun y inside => Or.inl inside⟩
      rw [List.length_append] at enough
      omega
    · have clear : e ∉ p :: ahead := fun way => member (safe.2 active ahead standing.actives standing.path way)
      exact ⟨_, active, ahead, fun fuel enough => timeEventSet_miss interval repeats funct arg
        standing.actives safe.1 member enough,
        standing.outside safe.1 member clear fun x other => link_put t e _ (Or.inl other),
        List.Sublist.refl _, fun y inside => Or.inl inside⟩
  | add e =>
    by_cases member : e ∈ active
    · obtain ⟨pre, post, rfl⟩ := List.append_of_mem member
      refine ⟨t, _, ahead, fun fuel enough => timeEventAdd_hit standing.actives ?_,
        standing, List.Sublist.refl _, fun y inside => Or.inl inside⟩
      rw [List.length_append] at enough
      omega
    · have clear : e ∉ p :: ahead := fun way => member (safe.2 active ahead standing.actives standing.path way)
      exact ⟨_, _, ahead, fun fuel enough => timeEventAdd_miss standing.actives safe.1 member enough,
        standing.added safe.1 member clear, List.Sublist.refl _, fun y inside => Or.inl inside⟩

theorem calls {calls : List TimerCall} (safe : SafeCalls p calls t) : ∃ n t' active' ahead',
    (∀ fuel, n ≤ fuel → runCalls fuel calls t = .done () t') ∧ Standing t' p active' ahead' ∧
    List.Sublist ahead' ahead ∧ ∀ y, y ∈ ahead → y ∈ ahead' ∨ .del y ∈ calls := by
  induction calls generalizing t active ahead with
  | nil => exact ⟨0, t, active, ahead, fun _ _ => rfl, standing, List.Sublist.refl _, fun y inside => Or.inl inside⟩
  | cons c calls ih =>
    obtain ⟨t₁, active₁, ahead₁, run₁, standing₁, sub₁, kept₁⟩ := standing.called safe.1
    obtain ⟨n, t₂, active₂, ahead₂, run₂, standing₂, sub₂, kept₂⟩ :=
      ih standing₁ (safe.2 _ t₁ (run₁ _ (Nat.lt_succ_self _)))
    refine ⟨max n (active.length + 1), t₂, active₂, ahead₂, ?_, standing₂, sub₂.trans sub₁, ?_⟩
    · intro fuel enough
      rw [runCalls, Prog.bind_done _ (run₁ fuel (by omega))]
      exact run₂ fuel (by omega)
    · intro y inside
      rcases kept₁ y inside with inside' | same
      · exact (kept₂ y inside').imp_right fun late => List.mem_cons_of_mem c late
      · exact Or.inr (by rw [same]; exact List.mem_cons_self)

theorem self_not_ahead : p ∉ ahead := standing.path.not_mem

/-- The event at which the walk stands is counted down; when it expires it is gone. -/
theorem counted : ∃ n due t' active' ahead', (∀ fuel, n ≤ fuel → countDown fuel p t = .done due t') ∧
    Standing t' p active' ahead' ∧ List.Sublist ahead' ahead ∧ ∀ y, y ∈ ahead → y ∈ ahead' := by
  let u : Timers ω := t.put p { t.events p with tRemaining := (t.events p).tRemaining - 1 }
  have standing₁ : Standing u p active ahead := standing.congr (link_put_same t p rfl)
  by_cases due : (u.events p).tRemaining = 0
  · by_cases once : (u.events p).tInterval = 0
    · have deleted : ∃ t' active' ahead', (∀ fuel, active.length < fuel → timeEventDel fuel p u = .done () t') ∧
          Standing t' p active' ahead' ∧ List.Sublist ahead' ahead ∧ ∀ y, y ∈ ahead → y ∈ ahead' := by
        by_cases member : p ∈ active
        · obtain ⟨t', active', ahead', run, -, standing', sub, kept⟩ := standing₁.deleted member
          refine ⟨t', active', ahead', run, standing', sub, fun y inside => (kept y inside).resolve_right ?_⟩
          rintro rfl
          exact standing.self_not_ahead inside
        · exact ⟨u, active, ahead, fun fuel enough =>
            timeEventDel_miss standing₁.actives standing.event member enough, standing₁,
            List.Sublist.refl _, fun y inside => inside⟩
      obtain ⟨t', active', ahead', run, standing', sub, kept⟩ := deleted
      refine ⟨active.length + 1, true, t', active', ahead', fun fuel enough => ?_, standing', sub, kept⟩
      rw [countDown, Prog.modify_bind_run, Prog.get_bind_run]
      refine (congrFun (if_pos due) _).trans ?_
      refine (congrFun (if_pos once) _).trans ?_
      exact Prog.bind_done _ (run fuel enough)
    · refine ⟨0, true, u.put p { u.events p with tRemaining := (u.events p).tInterval }, active, ahead,
        fun fuel _ => ?_, standing₁.congr (link_put_same u p rfl), List.Sublist.refl _, fun y inside => inside⟩
      rw [countDown, Prog.modify_bind_run, Prog.get_bind_run]
      refine (congrFun (if_pos due) _).trans ?_
      exact congrFun (if_neg once) _
  · refine ⟨0, false, u, active, ahead, fun fuel _ => ?_, standing₁, List.Sublist.refl _,
      fun y inside => inside⟩
    rw [countDown, Prog.modify_bind_run, Prog.get_bind_run]
    exact congrFun (if_neg due) _

end Standing

end Sos.Kernel
