import Sos.Lib.Writes
import Sos.Kernel.Memman

/-! Frames are handed out in the order in which the frame map has them free. -/

namespace Sos.Kernel
open Sos.Lib Machine

/-- The frames without references, lowest first. -/
def freeList (s : Machine) : List Nat :=
  if s.memmanInited then
    (List.range s.frameCount.toNat).filter fun i => (s.frameMap i).count = 0
  else []

/-- The frame map with frames handed out to users. -/
def claim (map : Nat → Frame) (fs : List Nat) : Nat → Frame := fun i =>
  if i ∈ fs then ⟨false, 1⟩ else map i

def Machine.claimed (s : Machine) (fs : List Nat) : Machine :=
  { s with frameMap := claim s.frameMap fs }

/-- The machine after some word stores. -/
def Machine.stored (s : Machine) (ws : List (UInt32 × UInt32)) : Machine :=
  s.withMem (s.mem.storeAll ws)

def frameAddr (f : Nat) : UInt32 := UInt32.ofNat f * frameLen

@[simp] theorem claim_nil (map : Nat → Frame) : claim map [] = map := by
  funext i
  simp [claim]

theorem claim_append (map : Nat → Frame) (fs gs : List Nat) :
    claim (claim map fs) gs = claim map (fs ++ gs) := by
  funext i
  unfold claim
  by_cases later : i ∈ gs
  · simp [later]
  · by_cases earlier : i ∈ fs
    · simp [later, earlier]
    · simp [later, earlier]

namespace Machine
variable (s : Machine)

@[simp] theorem claimed_nil : s.claimed [] = s := by
  unfold claimed
  rw [claim_nil]

theorem claimed_append (fs gs : List Nat) : (s.claimed fs).claimed gs = s.claimed (fs ++ gs) := by
  unfold claimed
  rw [claim_append]

/-- Of claims and stores only the claims are left when the memory is replaced. -/
theorem withMem_stored (m m' : Mem) (fs : List Nat) (ws : List (UInt32 × UInt32)) :
    (((s.withMem m).claimed fs).stored ws).withMem m' = (s.claimed fs).withMem m' := rfl

@[simp] theorem stored_nil : s.stored [] = s := rfl

theorem stored_append (ws ws' : List (UInt32 × UInt32)) :
    (s.stored ws).stored ws' = s.stored (ws ++ ws') := by
  unfold stored withMem
  rw [Mem.storeAll_append]

theorem stored_claimed (ws : List (UInt32 × UInt32)) (fs : List Nat) :
    (s.stored ws).claimed fs = (s.claimed fs).stored ws := rfl

end Machine

theorem freeList_nodup (s : Machine) : (freeList s).Nodup := by
  unfold freeList
  split
  · exact List.nodup_range.filter _
  · exact List.nodup_nil

theorem mem_freeList_iff {s : Machine} {f : Nat} : f ∈ freeList s ↔
    s.memmanInited = true ∧ f < s.frameCount.toNat ∧ (s.frameMap f).count = 0 := by
  unfold freeList
  by_cases inited : s.memmanInited = true
  · rw [if_pos inited, List.mem_filter, List.mem_range]
    simp [inited]
  · rw [if_neg inited]
    simp [inited]

theorem mem_freeList {s : Machine} {f : Nat} (member : f ∈ freeList s) :
    f < s.frameCount.toNat ∧ (s.frameMap f).count = 0 := (mem_freeList_iff.mp member).2

/-- Handing out a first part of the free frames leaves the rest. -/
theorem freeList_claimed {s : Machine} {fs gs : List Nat} (split : freeList s = fs ++ gs) :
    freeList (s.claimed fs) = gs := by
  have once := freeList_nodup s
  rw [split, List.nodup_append] at once
  by_cases inited : s.memmanInited
  · have list : freeList s = (List.range s.frameCount.toNat).filter
        fun i => (s.frameMap i).count = 0 := if_pos inited
    have now : freeList (s.claimed fs) = (freeList s).filter fun i => i ∉ fs := by
      rw [list, List.filter_filter]
      refine (if_pos inited).trans ?_
      apply List.filter_congr
      intro i _
      by_cases taken : i ∈ fs
      · simp [Machine.claimed, claim, taken]
      · simp [Machine.claimed, claim, taken]
    rw [now, split, List.filter_append]
    have none : fs.filter (fun i => i ∉ fs) = [] := by
      rw [List.filter_eq_nil_iff]
      simp
    have all : gs.filter (fun i => i ∉ fs) = gs := by
      rw [List.filter_eq_self]
      intro i member
      simpa using fun early => once.2.2 i early i member rfl
    rw [none, all, List.nil_append]
  · have empty : freeList s = [] := if_neg inited
    rw [empty] at split
    have rest : gs = [] := (List.append_eq_nil_iff.mp split.symm).2
    rw [rest]
    exact if_neg inited

theorem getFreeFrame_head (s : Machine) : getFreeFrame s = (freeList s).head? := by
  unfold getFreeFrame freeList
  split
  · rw [List.head?_filter]
  · rfl

/-- The machine after a frame was handed out with these flags. -/
def Machine.taken (s : Machine) (f : Nat) (flags : UInt32) : Machine :=
  { s with frameMap := fun i => if i = f then ⟨flags &&& frameNoSwap ≠ 0, 1⟩ else s.frameMap i }

theorem Machine.taken_user (s : Machine) (f : Nat) : s.taken f frameUser = s.claimed [f] := by
  unfold taken claimed
  congr 1
  funext i
  by_cases same : i = f
  · simp [claim, same, frameUser, frameNoSwap]
  · simp [claim, same]

/-- What is free depends on the counts alone. -/
theorem freeList_congr {s t : Machine} (inited : t.memmanInited = s.memmanInited)
    (frameCount : t.frameCount = s.frameCount) (counts : ∀ i, (t.frameMap i).count = (s.frameMap i).count) :
    freeList t = freeList s := by
  unfold freeList
  simp only [inited, frameCount, counts]

theorem freeList_taken {s : Machine} {f : Nat} {fs : List Nat} (list : freeList s = f :: fs) (flags : UInt32) :
    freeList (s.taken f flags) = fs := by
  have counts : ∀ i, ((s.taken f flags).frameMap i).count = ((s.claimed [f]).frameMap i).count := by
    intro i
    unfold Machine.taken Machine.claimed claim
    by_cases same : i = f
    · simp [same]
    · simp [same]
  have after : freeList (s.taken f flags) = freeList (s.claimed [f]) := freeList_congr rfl rfl counts
  rw [after]
  exact freeList_claimed (show freeList s = [f] ++ fs from list)

theorem memmanAllocFrame_flags (flags : UInt32) (s : Machine) :
    (freeList s = [] ∧ memmanAllocFrame flags s = .done (true, 0) s) ∨
    ∃ f fs, freeList s = f :: fs ∧
      memmanAllocFrame flags s = .done (false, frameAddr f) (s.taken f flags) := by
  have first := getFreeFrame_head s
  cases list : freeList s with
  | nil =>
    left
    rw [list] at first
    refine ⟨rfl, ?_⟩
    unfold memmanAllocFrame
    rw [Prog.get_bind_run, first]
    rfl
  | cons f fs =>
    right
    obtain ⟨inside, unused⟩ := mem_freeList (s := s) (f := f) (by simp [list])
    rw [list] at first
    have used : memmanUseFrame f flags s = .done retSuccess (s.taken f flags) := by
      unfold memmanUseFrame
      rw [if_pos inside, unused]
      rfl
    refine ⟨f, fs, rfl, ?_⟩
    unfold memmanAllocFrame
    rw [Prog.get_bind_run, first]
    exact Prog.bind_done _ used

theorem memmanAllocFrame_cases (s : Machine) :
    (freeList s = [] ∧ memmanAllocFrame frameUser s = .done (true, 0) s) ∨
    ∃ f fs, freeList s = f :: fs ∧
      memmanAllocFrame frameUser s = .done (false, frameAddr f) (s.claimed [f]) := by
  rcases memmanAllocFrame_flags frameUser s with none | ⟨f, fs, list, run⟩
  · exact Or.inl none
  · rw [Machine.taken_user] at run
    exact Or.inr ⟨f, fs, list, run⟩

/-- The frame map with a reference to each of these frames given up. -/
def Machine.dropped (fs : List Nat) (s : Machine) : Machine :=
  { s with frameMap := fun i =>
            if i ∈ fs then { s.frameMap i with count := (s.frameMap i).count - 1 } else s.frameMap i }

theorem Machine.dropped_nil (s : Machine) : s.dropped [] = s := by
  simp [dropped]

theorem Machine.dropped_dropped {fs gs : List Nat} (apart : ∀ f, f ∈ fs → f ∉ gs) (s : Machine) :
    (s.dropped fs).dropped gs = s.dropped (fs ++ gs) := by
  unfold dropped
  congr 1
  funext i
  by_cases late : i ∈ gs
  · have early : i ∉ fs := fun member => apart i member late
    simp [late, early]
  · by_cases early : i ∈ fs
    · simp [late, early]
    · simp [late, early]

/-- A frame with a reference. -/
def HeldFrame (s : Machine) (f : Nat) : Prop := f < s.frameCount.toNat ∧ (s.frameMap f).count ≠ 0

theorem HeldFrame.dropped {s : Machine} {f : Nat} {fs : List Nat} (held : HeldFrame s f) (apart : f ∉ fs) :
    HeldFrame (s.dropped fs) f := by
  refine ⟨held.1, ?_⟩
  change (if f ∈ fs then _ else s.frameMap f).count ≠ 0
  rw [if_neg apart]
  exact held.2

theorem memmanFreeFrame_done {s : Machine} {f : Nat} (held : HeldFrame s f) (unheld : Prog Machine Unit) :
    memmanFreeFrame unheld (UInt32.ofNat f) s = .done retSuccess (s.dropped [f]) := by
  have bound := s.frameCount.toNat_lt
  obtain ⟨inside, count⟩ := held
  have index : (UInt32.ofNat f).toNat = f := by
    rw [UInt32.toNat_ofNat']
    omega
  unfold memmanFreeFrame
  rw [index, if_pos inside, if_pos count]
  congr 1
  unfold dropped
  congr 1
  funext i
  simp

end Sos.Kernel
