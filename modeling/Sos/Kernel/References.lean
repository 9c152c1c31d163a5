import Sos.Kernel.FrameCalls

/-! References to frames: the count of a frame has eight bits. -/

namespace Sos.Kernel
open Sos.Lib Machine

inductive RefCall where
  | alloc (flags : UInt32)
  | use (f flags : UInt32)
  | free (f : UInt32)

inductive RefReply where
  | frame (error : Bool) (address : UInt32)
  | status (result : Int)

def refCall : RefCall → Prog Machine RefReply
  | .alloc flags => do
    let (error, address) ← memmanAllocFrame flags
    return .frame error address
  | .use f flags => do
    return .status (← memmanUseFrame f.toNat flags)
  | .free f => do
    return .status (← memmanFreeFrame goOn f)

/-- The references to a frame that were taken and not dropped since. -/
def outstanding (f : Nat) : List (RefCall × RefReply) → Nat
  | [] => 0
  | (.alloc _, .frame false address) :: log =>
    if address.toNat / 4096 = f then outstanding f log + 1 else outstanding f log
  | (.use g _, _) :: log => if g.toNat = f then outstanding f log + 1 else outstanding f log
  | (.free g, _) :: log => if g.toNat = f then outstanding f log - 1 else outstanding f log
  | _ :: log => outstanding f log

/-- The references there are, with those from before the calls. -/
def references (s : Machine) (log : List (RefCall × RefReply)) (f : Nat) : Nat :=
  (s.frameMap f).count.toNat + outstanding f log

/-- A further reference is taken to a frame in use only, and none is dropped that was not taken. -/
def Referring (s : Machine) (log : List (RefCall × RefReply)) : RefCall → Prop
  | .alloc _ => True
  | .use f _ => f.toNat < s.frameCount.toNat ∧ 0 < references s log f.toNat
  | .free f => 0 < outstanding f.toNat log

/-- The count has room for the reference that the call takes. -/
def Countable (s : Machine) (log : List (RefCall × RefReply)) : RefCall → Prop
  | .use f _ => references s log f.toNat ≠ 255
  | _ => True

/-- A frame with a reference has a count, and is not handed out. -/
def Truthful (log : List (RefCall × RefReply)) (t : Machine) : Prop :=
  ∀ f, 0 < outstanding f log → (t.frameMap f).count ≠ 0 ∧
    ∀ flags a u, memmanAllocFrame flags t = .done (false, a) u → a.toNat ≠ 4096 * f

/-- The counts of `t`, reached by these calls from `s`, are the references there are. -/
structure Referred (s : Machine) (log : List (RefCall × RefReply)) (t : Machine) : Prop where
  frameCount : t.frameCount = s.frameCount
  counts : ∀ f, (t.frameMap f).count.toNat = references s log f
  inside : ∀ f, 0 < outstanding f log → f < s.frameCount.toNat

/-- The machine after one more reference to a frame. -/
def Machine.further (s : Machine) (f : Nat) (flags : UInt32) : Machine :=
  { s with frameMap := fun i =>
            if i = f then ⟨flags &&& frameNoSwap ≠ 0, (s.frameMap f).count + 1⟩ else s.frameMap i }

theorem Machine.further_count (s : Machine) (f : Nat) (flags : UInt32) (g : Nat) :
    ((s.further f flags).frameMap g).count = if g = f then (s.frameMap g).count + 1 else (s.frameMap g).count := by
  by_cases same : g = f
  · simp [Machine.further, same]
  · simp [Machine.further, same]

theorem refCall_use {f : UInt32} {s : Machine} (inside : f.toNat < s.frameCount.toNat) (flags : UInt32) :
    refCall (.use f flags) s = .done (.status retSuccess) (s.further f.toNat flags) := by
  have run : memmanUseFrame f.toNat flags s = .done retSuccess (s.further f.toNat flags) := if_pos inside
  rw [refCall, Prog.bind_done _ run]
  rfl

namespace Referred
variable {s t : Machine} {log : List (RefCall × RefReply)}

theorem start (s : Machine) : Referred s [] s where
  frameCount := rfl
  counts := fun _ => rfl
  inside := fun _ none => absurd none (Nat.lt_irrefl 0)

section
variable (referred : Referred s log t) (bound : s.frameCount.toNat ≤ 1048576)
include referred

/-- A frame that is handed out has no references. -/
theorem unused {f : Nat} (free : f ∈ freeList t) : f < s.frameCount.toNat ∧ references s log f = 0 := by
  obtain ⟨inside, none⟩ := mem_freeList free
  rw [referred.frameCount] at inside
  refine ⟨inside, ?_⟩
  rw [← referred.counts, none]
  rfl

include bound

theorem truthful : Truthful log t := by
  intro f referred'
  have some : 0 < references s log f := Nat.add_pos_right _ referred'
  refine ⟨fun zero => ?_, ?_⟩
  · have count := referred.counts f
    rw [zero] at count
    simp at count
    omega
  · intro flags a u run same
    rcases memmanAllocFrame_flags flags t with ⟨-, refused⟩ | ⟨g, gs, list, given⟩
    · rw [refused] at run
      cases run
    · rw [given, Outcome.done.injEq, Prod.mk.injEq] at run
      obtain ⟨inside, none⟩ := referred.unused (f := g) (by simp [list])
      have place := frameAddr_toNat (inside.trans_le bound)
      rw [run.1.2, same] at place
      obtain rfl : f = g := by omega
      omega

theorem alloc (flags : UInt32) : ∃ r u, refCall (.alloc flags) t = .done r u ∧
    Referred s ((.alloc flags, r) :: log) u := by
  rcases memmanAllocFrame_flags flags t with ⟨full, run⟩ | ⟨f, fs, list, run⟩
  · refine ⟨.frame true 0, t, ?_, referred.frameCount, referred.counts, referred.inside⟩
    rw [refCall, Prog.bind_done _ run]
    rfl
  · obtain ⟨inside, none⟩ := referred.unused (f := f) (by simp [list])
    have index : (frameAddr f).toNat / 4096 = f := by
      rw [frameAddr_toNat (inside.trans_le bound)]
      omega
    refine ⟨.frame false (frameAddr f), t.taken f flags, ?_, referred.frameCount, ?_, ?_⟩
    · rw [refCall, Prog.bind_done _ run]
      rfl
    · intro g
      unfold references at none ⊢
      simp only [outstanding, index]
      by_cases same : g = f
      · subst same
        rw [if_pos rfl]
        simp only [Machine.taken, if_pos]
        change 1 = _
        omega
      · rw [if_neg (Ne.symm same)]
        simp only [Machine.taken, if_neg same]
        exact referred.counts g
    · intro g some
      simp only [outstanding, index] at some
      by_cases same : f = g
      · exact same ▸ inside
      · rw [if_neg same] at some
        exact referred.inside g some

omit bound in
/-- A count below 255 takes one more reference. -/
theorem used {f flags : UInt32} {r : RefReply} (inside : f.toNat < s.frameCount.toNat)
    (room : references s log f.toNat ≠ 255) :
    Referred s ((.use f flags, r) :: log) (t.further f.toNat flags) where
  frameCount := referred.frameCount
  counts := by
    intro g
    have before := referred.counts g
    have byte := (t.frameMap g).count.toNat_lt
    unfold references at before room ⊢
    simp only [outstanding, Machine.further_count]
    by_cases same : g = f.toNat
    · subst same
      rw [if_pos rfl, if_pos rfl, UInt8.toNat_add]
      simp only [UInt8.reduceToNat]
      omega
    · rw [if_neg same, if_neg (Ne.symm same)]
      exact before
  inside := by
    intro g some
    simp only [outstanding] at some
    by_cases same : f.toNat = g
    · exact same ▸ inside
    · rw [if_neg same] at some
      exact referred.inside g some

omit bound in
/-- The reference after 255 makes the count zero. -/
theorem overflows {f flags : UInt32} {r : RefReply} (full : references s log f.toNat = 255) :
    ¬Truthful ((.use f flags, r) :: log) (t.further f.toNat flags) := by
  intro truthful
  have some : 0 < outstanding f.toNat ((.use f flags, r) :: log) := by
    simp only [outstanding, if_pos, Nat.succ_pos]
  refine (truthful f.toNat some).1 ?_
  have before := referred.counts f.toNat
  rw [full] at before
  have top : (t.frameMap f.toNat).count = 255 := UInt8.toNat_inj.mp before
  rw [Machine.further_count, if_pos rfl, top]
  rfl

omit bound in
theorem free {f : UInt32} (taken : 0 < outstanding f.toNat log) : ∃ r u,
    refCall (.free f) t = .done r u ∧ Referred s ((.free f, r) :: log) u := by
  have before := referred.counts f.toNat
  have held : HeldFrame t f.toNat := by
    refine ⟨referred.frameCount ▸ referred.inside f.toNat taken, fun zero => ?_⟩
    rw [zero] at before
    unfold references at before
    simp at before
    omega
  have run := memmanFreeFrame_done held goOn
  rw [UInt32.ofNat_toNat] at run
  refine ⟨.status retSuccess, t.dropped [f.toNat], ?_, referred.frameCount, ?_, ?_⟩
  · rw [refCall, Prog.bind_done _ run]
    rfl
  · intro g
    have count := referred.counts g
    unfold references at count ⊢
    simp only [outstanding, Machine.dropped, List.mem_singleton]
    by_cases same : g = f.toNat
    · subst same
      rw [if_pos rfl, if_pos rfl]
      change ((t.frameMap f.toNat).count - 1).toNat = _
      have one : (1 : UInt8).toNat = 1 := rfl
      rw [UInt8.toNat_sub_of_le _ _ (UInt8.le_iff_toNat_le.mpr (by omega))]
      omega
    · rw [if_neg same, if_neg (Ne.symm same)]
      exact count
  · intro g some
    refine referred.inside g ?_
    simp only [outstanding] at some
    by_cases same : f.toNat = g
    · rw [if_pos same] at some
      omega
    · rwa [if_neg same] at some

/-- A call keeps the counts if it does not take the reference after 255, and only then. -/
theorem step {c : RefCall} (refer : Referring s log c) : ∃ r u, refCall c t = .done r u ∧
    (Countable s log c → Referred s ((c, r) :: log) u) ∧
    (¬Countable s log c → ¬Truthful ((c, r) :: log) u) := by
  cases c with
  | alloc flags =>
    obtain ⟨r, u, run, next⟩ := referred.alloc bound flags
    exact ⟨r, u, run, fun _ => next, fun not => absurd trivial not⟩
  | use f flags =>
    have inside : f.toNat < t.frameCount.toNat := referred.frameCount ▸ refer.1
    exact ⟨_, _, refCall_use inside flags, referred.used refer.1, fun full => referred.overflows (not_not.mp full)⟩
  | free f =>
    obtain ⟨r, u, run, next⟩ := referred.free refer
    exact ⟨r, u, run, fun _ => next, fun not => absurd trivial not⟩

end

end Referred

/-- As long as no reference is taken to a frame that has 255, the counts tell which frames are
in use, and after a further call they do if and only if that is so for it. -/
theorem references_counted_iff {s t : Machine} {log : List (RefCall × RefReply)}
    (bound : s.frameCount.toNat ≤ 1048576)
    (session : Session refCall (fun log c => Referring s log c ∧ Countable s log c) s log t) :
    Truthful log t ∧ ∀ c, Referring s log c → ∃ r u, refCall c t = .done r u ∧
      (Truthful ((c, r) :: log) u ↔ Countable s log c) := by
  have referred : Referred s log t := by
    refine session.invariant (Referred s) (Referred.start s) ?_
    rintro log u c r v referred ⟨refer, countable⟩ run
    obtain ⟨r', v', run', kept, -⟩ := referred.step bound refer
    rw [run', Outcome.done.injEq] at run
    obtain ⟨rfl, rfl⟩ := run
    exact kept countable
  refine ⟨referred.truthful bound, fun c refer => ?_⟩
  obtain ⟨r, u, run, kept, broken⟩ := referred.step bound refer
  refine ⟨r, u, run, fun truthful => ?_, fun countable => (kept countable).truthful bound⟩
  by_contra not
  exact broken not truthful

/-- After the second frame was handed out and given up again. -/
theorem references_counted_iff_four : ∃ log t,
    Session refCall (fun log c => Referring fourFrames log c ∧ Countable fourFrames log c) fourFrames log t ∧
      log.length = 2 ∧ Truthful log t ∧ ∀ c, Referring fourFrames log c → ∃ r u, refCall c t = .done r u ∧
        (Truthful ((c, r) :: log) u ↔ Countable fourFrames log c) := by
  have given : Session refCall (fun log c => Referring fourFrames log c ∧ Countable fourFrames log c) fourFrames
      [(.alloc 0, .frame false 0x1000)] (fourFrames.taken 1 0) := Session.nil.call ⟨trivial, trivial⟩ rfl
  obtain ⟨t, freed⟩ : ∃ t, refCall (.free 1) (fourFrames.taken 1 0) = .done (.status retSuccess) t := ⟨_, rfl⟩
  have owed : Referring fourFrames [(.alloc 0, .frame false 0x1000)] (.free 1) :=
    show 0 < outstanding 1 [(.alloc 0, .frame false 0x1000)] by decide
  have session := given.call ⟨owed, trivial⟩ freed
  exact ⟨_, t, session, rfl, references_counted_iff (by decide) session⟩

/-- Further references to the frame that was handed out. -/
theorem refer_again (n : Nat) : ∃ t, Session refCall (Referring fourFrames) fourFrames
    (List.replicate n (.use 1 0, .status retSuccess) ++ [(.alloc 0, .frame false 0x1000)]) t ∧
      outstanding 1 (List.replicate n (.use 1 0, .status retSuccess) ++ [(.alloc 0, .frame false 0x1000)]) = n + 1 ∧
      t.memmanInited = true ∧ t.frameCount = 4 ∧
      ∀ i, (t.frameMap i).count = if i = 1 then UInt8.ofNat (n + 1) else (fourFrames.frameMap i).count := by
  induction n with
  | zero =>
    refine ⟨fourFrames.taken 1 0, Session.nil.call trivial rfl, rfl, rfl, rfl, fun i => ?_⟩
    by_cases same : i = 1
    · simp [Machine.taken, same]
    · simp [Machine.taken, same]
  | succ n ih =>
    obtain ⟨t, session, taken, inited, frameCount, counts⟩ := ih
    have inside : (1 : UInt32).toNat < t.frameCount.toNat := by
      rw [frameCount]
      decide
    have refer : Referring fourFrames (List.replicate n (.use 1 0, .status retSuccess) ++
        [(.alloc 0, .frame false 0x1000)]) (.use 1 0) := by
      refine ⟨by decide, Nat.add_pos_right _ ?_⟩
      change 0 < outstanding 1 _
      rw [taken]
      exact Nat.succ_pos n
    refine ⟨t.further 1 0, session.call refer (refCall_use inside 0), ?_, inited, frameCount, fun i => ?_⟩
    · rw [List.replicate_succ, List.cons_append]
      simp only [outstanding, taken]
      rfl
    · rw [Machine.further_count, counts]
      by_cases same : i = 1
      · rw [if_pos same, if_pos same, if_pos same]
        exact (UInt8.ofNat_add (n + 1) 1).symm
      · rw [if_neg same, if_neg same, if_neg same]

/-- With 256 references the count is zero, and the frame is handed out again. -/
theorem references_lost : ∃ log t, Session refCall (Referring fourFrames) fourFrames log t ∧
    outstanding 1 log = 256 ∧ (t.frameMap 1).count = 0 ∧
    (∃ u, memmanAllocFrame 0 t = .done (false, 0x1000) u) ∧ ¬Truthful log t := by
  obtain ⟨t, session, taken, inited, frameCount, counts⟩ := refer_again 255
  have zero : (t.frameMap 1).count = 0 := by
    rw [counts]
    rfl
  refine ⟨_, t, session, taken, zero, ?_, fun truthful => ?_⟩
  · have list : freeList t = [1, 2] := by
      unfold freeList
      simp only [if_pos inited, frameCount, counts]
      rfl
    rcases memmanAllocFrame_flags 0 t with ⟨full, -⟩ | ⟨f, fs, list', run⟩
    · rw [list] at full
      cases full
    · rw [list, List.cons.injEq] at list'
      obtain ⟨rfl, -⟩ := list'
      exact ⟨_, run⟩
  · have some : 0 < outstanding 1 (List.replicate 255 (RefCall.use 1 0, RefReply.status retSuccess) ++
        [(.alloc 0, .frame false 0x1000)]) := by
      rw [taken]
      decide
    exact (truthful 1 some).1 zero

end Sos.Kernel
