import Sos.Kernel.Tables

/-! The loop over the page tables, and all the stores of a new address space. -/

namespace Sos.Kernel
open Sos.Lib Machine

variable {unheld : Prog Machine Unit}

/-- The stores for the page tables from `i` on, `left` of them, when `p` pages are
wanted and these frames are free. -/
def spaceWrites (as : AddrSpace) : Nat → UInt32 → Nat → List Nat → List (UInt32 × UInt32)
  | 0, _, _, _ => []
  | _ + 1, _, _, [] => []
  | left + 1, i, p, f :: fs =>
    (as.pts + 4 * i, frameAddr f) :: tableWrites as (frameAddr f) 0 (fs.take (min 1024 p)) ++
      (as.pd + 4 * (i + kernPdOffset), frameToPdeUser (frameAddr f)) ::
        spaceWrites as left (i + 1) (p - min 1024 p) (fs.drop (min 1024 p))

/-- The frames that this takes. -/
def demand (left p : Nat) : Nat := left + min p (1024 * left)

theorem demand_succ (left p : Nat) :
    demand (left + 1) p = min 1024 p + demand left (p - min 1024 p) + 1 := by
  unfold demand
  omega

theorem index_shift (i : UInt32) (k : Nat) : i + UInt32.ofNat (k + 1) = i + 1 + UInt32.ofNat k := by
  rw [UInt32.ofNat_add, UInt32.add_assoc, UInt32.add_comm (UInt32.ofNat k)]
  rfl

theorem mem_tableWrites {as : AddrSpace} {a j x v : UInt32} {fs : List Nat} :
    (x, v) ∈ tableWrites as a j fs ↔ ∃ k f, fs[k]? = some f ∧
      ((x = as.frames + 4 * (j + UInt32.ofNat k) ∧ v = frameAddr f + 1) ∨
        (x = a + 4 * (j + UInt32.ofNat k) ∧ v = frameToPteUser (frameAddr f + 1))) := by
  induction fs generalizing j with
  | nil => simp [tableWrites]
  | cons f fs ih =>
    have here : j + UInt32.ofNat 0 = j := UInt32.add_zero j
    rw [tableWrites, List.mem_cons, List.mem_cons, ih]
    constructor
    · rintro (same | same | ⟨k, g, at_, place⟩)
      · obtain ⟨rfl, rfl⟩ := Prod.mk.inj same
        exact ⟨0, f, rfl, Or.inl ⟨by rw [here], rfl⟩⟩
      · obtain ⟨rfl, rfl⟩ := Prod.mk.inj same
        exact ⟨0, f, rfl, Or.inr ⟨by rw [here], rfl⟩⟩
      · rw [← index_shift] at place
        exact ⟨k + 1, g, at_, place⟩
    · rintro ⟨k, g, at_, place⟩
      cases k with
      | zero =>
        rw [here] at place
        obtain rfl : f = g := by simpa using at_
        rcases place with ⟨rfl, rfl⟩ | ⟨rfl, rfl⟩
        · exact Or.inl rfl
        · exact Or.inr (Or.inl rfl)
      | succ k =>
        rw [index_shift] at place
        exact Or.inr (Or.inr ⟨k, g, by simpa using at_, place⟩)

/-- The stores for table `k`, whose frame is `f`. -/
def TableStore (as : AddrSpace) (i : UInt32) (p : Nat) (fs : List Nat) (k f : Nat)
    (x v : UInt32) : Prop :=
  (x = as.pts + 4 * (i + UInt32.ofNat k) ∧ v = frameAddr f) ∨
  (x = as.pd + 4 * (i + UInt32.ofNat k + kernPdOffset) ∧ v = frameToPdeUser (frameAddr f)) ∨
  ∃ j g, j < 1024 ∧ 1024 * k + j < p ∧ fs[k + min p (1024 * k) + 1 + j]? = some g ∧
    ((x = as.frames + 4 * UInt32.ofNat j ∧ v = frameAddr g + 1) ∨
      (x = frameAddr f + 4 * UInt32.ofNat j ∧ v = frameToPteUser (frameAddr g + 1)))

/-- Of the frames behind the first table and its pages, those of the tables that follow. -/
theorem getElem?_behind (f p : Nat) (fs : List Nat) (k d : Nat) :
    (fs.drop (min 1024 p))[k + min (p - min 1024 p) (1024 * k) + d]? =
      (f :: fs)[(k + 1) + min p (1024 * (k + 1)) + d]? := by
  rw [List.getElem?_drop, show (k + 1) + min p (1024 * (k + 1)) + d =
    (min 1024 p + (k + min (p - min 1024 p) (1024 * k) + d)) + 1 by omega, List.getElem?_cons_succ]

theorem tableStore_succ {as : AddrSpace} {p f : Nat} {i x v : UInt32} {fs : List Nat} (k g : Nat) :
    TableStore as (i + 1) (p - min 1024 p) (fs.drop (min 1024 p)) k g x v ↔
      TableStore as i p (f :: fs) (k + 1) g x v := by
  unfold TableStore
  rw [index_shift]
  refine or_congr Iff.rfl (or_congr Iff.rfl ?_)
  refine exists_congr fun j => exists_congr fun g' => and_congr Iff.rfl ?_
  rw [Nat.add_assoc, getElem?_behind f, ← Nat.add_assoc _ 1 j]
  refine and_congr ?_ Iff.rfl
  omega

theorem mem_spaceWrites {as : AddrSpace} {left p : Nat} {i x v : UInt32} {fs : List Nat} :
    (x, v) ∈ spaceWrites as left i p fs ↔ ∃ k f, k < left ∧ fs[k + min p (1024 * k)]? = some f ∧
      TableStore as i p fs k f x v := by
  induction left generalizing i p fs with
  | zero => simp [spaceWrites]
  | succ left ih =>
    cases fs with
    | nil => simp [spaceWrites]
    | cons f fs =>
      have here : i + UInt32.ofNat 0 = i := UInt32.add_zero i
      have zero : ∀ j, 0 + UInt32.ofNat j = UInt32.ofNat j := fun j => UInt32.zero_add _
      rw [spaceWrites, List.cons_append, List.mem_cons, List.mem_append, List.mem_cons, mem_tableWrites,
        ih]
      constructor
      · rintro (same | ⟨j, g, at_, where_⟩ | same | ⟨k, g, short, at_, store⟩)
        · obtain ⟨rfl, rfl⟩ := Prod.mk.inj same
          exact ⟨0, f, by omega, by simp, Or.inl ⟨by rw [here], rfl⟩⟩
        · rw [List.getElem?_take] at at_
          split at at_
          next inside =>
            rw [zero] at where_
            refine ⟨0, f, by omega, by simp, Or.inr (Or.inr ⟨j, g, by omega, by omega, ?_, where_⟩)⟩
            simpa [Nat.add_comm 1 j] using at_
          next => cases at_
        · obtain ⟨rfl, rfl⟩ := Prod.mk.inj same
          exact ⟨0, f, by omega, by simp, Or.inr (Or.inl ⟨by rw [here], rfl⟩)⟩
        · exact ⟨k + 1, g, by omega, (getElem?_behind f p fs k 0).symm.trans at_,
            (tableStore_succ k g).mp store⟩
      · rintro ⟨k, g, short, at_, store⟩
        cases k with
        | zero =>
          obtain rfl : f = g := by simpa using at_
          rcases store with ⟨rfl, rfl⟩ | ⟨rfl, rfl⟩ | ⟨j, g, small, wanted, at_, where_⟩
          · left
            rw [here]
          · right; right; left
            rw [here]
          · right; left
            refine ⟨j, g, ?_, by rwa [zero]⟩
            rw [List.getElem?_take, if_pos (by omega)]
            simpa [Nat.add_comm 1 j] using at_
        | succ k =>
          exact Or.inr (Or.inr (Or.inr ⟨k, g, by omega, (getElem?_behind f p fs k 0).trans at_,
            (tableStore_succ k g).mpr store⟩))

/-- The stores for the tables from the `n`th on come last. -/
theorem spaceWrites_from {as : AddrSpace} {n left p : Nat} {i : UInt32} {fs : List Nat} (tables : n ≤ left)
    (pages : 1024 * n ≤ p) (length : 1025 * n ≤ fs.length) : ∃ early late,
      spaceWrites as left i p fs = early ++ late ∧ ∀ x v, (x, v) ∈ late ↔
        ∃ k f, n ≤ k ∧ k < left ∧ fs[k + min p (1024 * k)]? = some f ∧ TableStore as i p fs k f x v := by
  induction n generalizing left i p fs with
  | zero =>
    refine ⟨[], _, rfl, fun x v => ?_⟩
    rw [mem_spaceWrites]
    simp only [Nat.zero_le, true_and]
  | succ n ih =>
    obtain ⟨left, rfl⟩ := Nat.exists_eq_add_of_lt tables
    cases fs with
    | nil => simp at length
    | cons f fs =>
      rw [List.length_cons] at length
      have full : min 1024 p = 1024 := by omega
      obtain ⟨early, late, split, members⟩ := @ih (n + left) (p - min 1024 p) (i + 1)
        (fs.drop (min 1024 p)) (by omega) (by omega) (by rw [List.length_drop]; omega)
      refine ⟨(as.pts + 4 * i, frameAddr f) :: tableWrites as (frameAddr f) 0 (fs.take (min 1024 p)) ++
        (as.pd + 4 * (i + kernPdOffset), frameToPdeUser (frameAddr f)) :: early, late, ?_, fun x v => ?_⟩
      · rw [spaceWrites, split, List.append_assoc _ _ late]
        rfl
      · rw [members]
        constructor
        · rintro ⟨k, g, behind, short, at_, store⟩
          exact ⟨k + 1, g, by omega, by omega, (getElem?_behind f p fs k 0).symm.trans at_,
            (tableStore_succ k g).mp store⟩
        · rintro ⟨k, g, behind, short, at_, store⟩
          obtain ⟨k, rfl⟩ := Nat.exists_eq_add_of_lt behind
          exact ⟨n + k, g, by omega, by omega, (getElem?_behind f p fs (n + k) 0).trans at_,
            (tableStore_succ (n + k) g).mpr store⟩

theorem Clear.after {as : AddrSpace} {i a : UInt32} {bound : Nat} (clear : Clear as i a bound)
    (m : Mem) {fs : List Nat} (inside : fs.length ≤ bound) (small : bound ≤ 1024) :
    (m.storeAll (tableWrites as a 0 fs)).load (as.pts + 4 * i) = m.load (as.pts + 4 * i) := by
  refine Mem.load_storeAll_other m (clear.pts.add (Mem.aligned_four i))
    (tableWrites_aligned clear.frames clear.table fs 0) ?_
  rintro ⟨x, v⟩ member
  obtain ⟨k, f, at_, place⟩ := mem_tableWrites.mp member
  have short : k < fs.length := (List.getElem?_eq_some_iff.mp at_).1
  have index : (0 + UInt32.ofNat k).toNat < bound := by
    rw [UInt32.zero_add, UInt32.toNat_ofNat']
    omega
  rcases place with ⟨rfl, -⟩ | ⟨rfl, -⟩
  · exact (clear.apartList _ index).symm
  · exact (clear.apartTable _ index).symm

/-- One page table, with its entries. -/
theorem fillTables_step (unheld : Prog Machine Unit) (fuel left : Nat) {as : AddrSpace} {i p : UInt32}
    {f bound : Nat} {fs : List Nat} {s : Machine} (pts : as.pts ≠ 0) (frames : as.frames ≠ 0)
    (list : freeList s = f :: fs)
    (clear : Clear as i (frameAddr f) bound) (small : bound ≤ 1024)
    (inside : min 1024 p.toNat ≤ bound) (enough : min 1024 p.toNat ≤ fs.length) : ∃ r : UInt32,
      r.toNat = p.toNat - min 1024 p.toNat ∧
      fillTables unheld fuel as (left + 1) i p s = fillTables unheld fuel as left (i + 1) r
        ((s.claimed (f :: fs.take (min 1024 p.toNat))).stored
          ((as.pts + 4 * i, frameAddr f) ::
            tableWrites as (frameAddr f) 0 (fs.take (min 1024 p.toNat)) ++
              [(as.pd + 4 * (i + kernPdOffset), frameToPdeUser (frameAddr f))])) := by
  rcases memmanAllocFrame_cases s with ⟨none, -⟩ | ⟨g, gs, some, first⟩
  · rw [list] at none
    cases none
  · rw [list, List.cons.injEq] at some
    obtain ⟨rfl, rfl⟩ := some
    have list' : freeList ((s.claimed [f]).stored [(as.pts + 4 * i, frameAddr f)]) = fs :=
      freeList_claimed (show freeList s = [f] ++ fs from list)
    obtain ⟨r, value, run⟩ := fillTable_done unheld fuel clear pts frames small 1024 (j := 0)
      (p := p) (s := (s.claimed [f]).stored [(as.pts + 4 * i, frameAddr f)]) (by simpa using inside)
      (Mem.load_store_same _ _ _) (by rwa [list'])
    rw [list', stored_claimed, stored_append, claimed_append] at run
    have run' : fillTable unheld fuel as i ptEntries.toNat 0 p
        ((s.claimed [f]).stored [(as.pts + 4 * i, frameAddr f)]) = _ := run
    have entry : ((s.claimed ([f] ++ fs.take (min 1024 p.toNat))).stored
        ([(as.pts + 4 * i, frameAddr f)] ++
          tableWrites as (frameAddr f) 0 (fs.take (min 1024 p.toNat)))).mem.load (as.pts + 4 * i) =
        frameAddr f := by
      have short : (fs.take (min 1024 p.toNat)).length ≤ bound := by
        rw [List.length_take]
        omega
      have kept := clear.after (s.mem.store (as.pts + 4 * i) (frameAddr f)) short small
      exact kept.trans (Mem.load_store_same _ _ _)
    refine ⟨r, value, ?_⟩
    rw [fillTables, Prog.bind_done _ first]
    simp only []
    rw [Prog.bind_done _ (assign_done pts i _)]
    simp only [Bool.false_eq_true, if_false]
    rw [Prog.bind_done _ run']
    simp only []
    rw [Prog.bind_done _ (fetch_done pts i), entry, Prog.bind_done _ (setFrameWord_done _ _ _ _),
      stored_append]
    rfl

/-- What is free after a table and its entries. -/
theorem claimed_table {s : Machine} {f : Nat} {fs : List Nat} (list : freeList s = f :: fs) (p : UInt32)
    (as : AddrSpace) (i : UInt32) :
    freeList ((s.claimed (f :: fs.take (min 1024 p.toNat))).stored
      ((as.pts + 4 * i, frameAddr f) :: tableWrites as (frameAddr f) 0 (fs.take (min 1024 p.toNat)) ++
        [(as.pd + 4 * (i + kernPdOffset), frameToPdeUser (frameAddr f))])) =
    fs.drop (min 1024 p.toNat) :=
  freeList_claimed (show freeList s =
    (f :: fs.take (min 1024 p.toNat)) ++ fs.drop (min 1024 p.toNat) by simp [list])

/-- All page tables, when there are frames for them and their entries. -/
theorem fillTables_done (unheld : Prog Machine Unit) (fuel : Nat) {as : AddrSpace} (pts : as.pts ≠ 0)
    (frames : as.frames ≠ 0)
    {bound : Nat} (small : bound ≤ 1024) (left : Nat) (i p : UInt32) (s : Machine)
    (clear : ∀ k f, f ∈ freeList s → k < left → Clear as (i + UInt32.ofNat k) (frameAddr f) bound)
    (inside : min 1024 p.toNat ≤ bound) (enough : demand left p.toNat ≤ (freeList s).length) :
    fillTables unheld fuel as left i p s = .done true
      ((s.claimed ((freeList s).take (demand left p.toNat))).stored
        (spaceWrites as left i p.toNat (freeList s))) := by
  induction left generalizing i p s with
  | zero => simp [fillTables, spaceWrites, demand]
  | succ left ih =>
    rw [demand_succ] at enough ⊢
    cases list : freeList s with
    | nil =>
      rw [list] at enough
      simp at enough
    | cons f fs =>
      rw [list, List.length_cons] at enough
      have first := clear 0 f (by simp [list]) (by omega)
      rw [show i + UInt32.ofNat 0 = i from UInt32.add_zero i] at first
      obtain ⟨r, value, run⟩ := fillTables_step unheld fuel left pts frames list first small inside
        (by omega)
      have list' := claimed_table list p as i
      have clear' : ∀ k g, g ∈ fs.drop (min 1024 p.toNat) → k < left →
          Clear as (i + 1 + UInt32.ofNat k) (frameAddr g) bound := by
        intro k g member short
        rw [← index_shift]
        refine clear (k + 1) g ?_ (by omega)
        rw [list]
        exact List.mem_cons_of_mem f (List.mem_of_mem_drop member)
      rw [run, ih (i + 1) r _ (by rwa [list']) (by omega)
        (by rw [list', value, List.length_drop]; omega), list', value, stored_claimed, stored_append,
        claimed_append, List.take_succ_cons, List.take_add]
      congr 2
      rw [spaceWrites, List.append_assoc, List.singleton_append]

/-- A table that was made had a frame of its own, a place in the list, and its entries. -/
theorem fillTables_true {fuel left : Nat} {as : AddrSpace} {i p : UInt32} {s t : Machine}
    (run : fillTables unheld fuel as (left + 1) i p s = .done true t) : as.pts ≠ 0 ∧
      ∃ f fs r u, freeList s = f :: fs ∧ fillTable unheld fuel as i (1023 + 1) 0 p
        ((s.claimed [f]).stored [(as.pts + 4 * i, frameAddr f)]) = .done (some r) u := by
  rcases memmanAllocFrame_cases s with ⟨-, first⟩ | ⟨f, fs, list, first⟩
  · rw [fillTables, Prog.bind_done _ first] at run
    simp only [if_true] at run
    obtain ⟨_, _, -, run⟩ := Prog.of_bind_done run
    obtain ⟨_, _, -, run⟩ := Prog.of_bind_done run
    obtain ⟨_, _, -, run⟩ := Prog.of_bind_done run
    obtain ⟨_, _, -, run⟩ := Prog.of_bind_done run
    obtain ⟨_, _, -, run⟩ := Prog.of_bind_done run
    cases run
  · rw [fillTables, Prog.bind_done _ first] at run
    simp only [] at run
    by_cases pts : as.pts = 0
    · simp only [pts] at run
      obtain ⟨_, _, null, -⟩ := Prog.of_bind_done run
      cases null
    · rw [Prog.bind_done _ (assign_done pts i _)] at run
      simp only [Bool.false_eq_true, if_false] at run
      obtain ⟨outcome, u, table, run⟩ := Prog.of_bind_done run
      cases outcome with
      | none => cases run
      | some r => exact ⟨pts, f, fs, r, u, list, table⟩

theorem fillTables_frames {fuel left : Nat} {as : AddrSpace} {i p : UInt32} {s t : Machine}
    (wanted : p ≠ 0) (run : fillTables unheld fuel as (left + 1) i p s = .done true t) :
    as.frames ≠ 0 := by
  obtain ⟨-, f, fs, r, u, -, table⟩ := fillTables_true run
  exact fun frames => fillTable_unlisted wanted frames r u table

theorem fillTables_served {fuel : Nat} {as : AddrSpace} (pts : as.pts ≠ 0) (frames : as.frames ≠ 0)
    {bound : Nat} (small : bound ≤ 1024) {left : Nat} {i p : UInt32} {s t : Machine}
    (clear : ∀ k f, f ∈ freeList s → k < left → Clear as (i + UInt32.ofNat k) (frameAddr f) bound)
    (inside : min 1024 p.toNat ≤ bound) (run : fillTables unheld fuel as left i p s = .done true t) :
    demand left p.toNat ≤ (freeList s).length := by
  induction left generalizing i p s with
  | zero => simp [demand]
  | succ left ih =>
    have here : ∀ f, f ∈ freeList s → Clear as i (frameAddr f) bound := by
      intro f member
      have first := clear 0 f member (by omega)
      rwa [show i + UInt32.ofNat 0 = i from UInt32.add_zero i] at first
    obtain ⟨-, f, fs, _, u, list, table⟩ := fillTables_true run
    have first := here f (by simp [list])
    have list' : freeList ((s.claimed [f]).stored [(as.pts + 4 * i, frameAddr f)]) = fs :=
      freeList_claimed (show freeList s = [f] ++ fs from list)
    have own := fillTable_served unheld fuel first pts frames small (j := 0) (p := p)
      (s := (s.claimed [f]).stored [(as.pts + 4 * i, frameAddr f)]) (by simpa using inside)
      (Mem.load_store_same _ _ _) table
    rw [list'] at own
    obtain ⟨r, value, step⟩ := fillTables_step unheld fuel left pts frames list first small inside own
    rw [step] at run
    have after := claimed_table list p as i
    have rest := ih (i := i + 1) (p := r) (by
      intro k g member short
      rw [after] at member
      rw [← index_shift]
      refine clear (k + 1) g ?_ (by omega)
      rw [list]
      exact List.mem_cons_of_mem f (List.mem_of_mem_drop member)) (by omega) run
    rw [after, value, List.length_drop] at rest
    rw [demand_succ, list, List.length_cons]
    omega

end Sos.Kernel
