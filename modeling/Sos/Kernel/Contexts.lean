import Sos.Kernel.Released
import Sos.Kernel.Tasks

/-! Processes made, killed and switched in any order: each goes on with the registers it had last. -/

namespace Sos.Kernel
open Sos.Lib Sos.Lib.Stack Machine Tasks

/-- What is saved is what is loaded. -/
theorem Registers.load_fields {tss : UInt32} (aligned : Mem.Aligned tss) (room : tss.toNat + 104 ≤ 4294967296)
    (m : Mem) (r : Registers) : Registers.load (m.storeAll (fieldWrites tss r.fields)) tss = r := by
  have word : ∀ i v, (i, v) ∈ r.fields → (m.storeAll (fieldWrites tss r.fields)).load (tss + 4 * i) = v := by
    intro i v listed
    refine load_fieldWrites aligned room ?_ ?_ m listed
    · simp [fields]
    · simp [fields]
  unfold Registers.load
  rw [word 8 r.eip (by simp [fields]), word 9 r.eflags (by simp [fields]), word 10 r.eax (by simp [fields]),
    word 11 r.ecx (by simp [fields]), word 12 r.edx (by simp [fields]), word 13 r.ebx (by simp [fields]),
    word 14 r.esp (by simp [fields]), word 15 r.ebp (by simp [fields]), word 16 r.esi (by simp [fields]),
    word 17 r.edi (by simp [fields]), word 18 r.es (by simp [fields]), word 19 r.cs (by simp [fields]),
    word 20 r.ss (by simp [fields]), word 21 r.ds (by simp [fields]), word 22 r.fs (by simp [fields]),
    word 23 r.gs (by simp [fields])]

/-- A byte of the 104 at `tss`. -/
def TssByte (tss x : UInt32) : Prop := tss.toNat ≤ x.toNat ∧ x.toNat < tss.toNat + 104

theorem Registers.save_outside {tss x : UInt32} (aligned : Mem.Aligned tss) (room : tss.toNat + 104 ≤ 4294967296)
    (m : Mem) (r : Registers) (outside : ¬TssByte tss x) : m.storeAll (fieldWrites tss r.fields) x = m x := by
  unfold TssByte at outside
  refine fieldWrites_outside aligned room ?_ m (by omega)
  simp [fields]

/-- The first eight words are not among those that a jump saves, and the last two neither. -/
theorem Registers.save_other {tss i : UInt32} (aligned : Mem.Aligned tss) (room : tss.toNat + 104 ≤ 4294967296)
    (m : Mem) (r : Registers) (other : i.toNat < 8 ∨ i.toNat = 24 ∨ i.toNat = 25) :
    (m.storeAll (fieldWrites tss r.fields)).load (tss + 4 * i) = m.load (tss + 4 * i) := by
  have place := field_toNat (i := i) room (by omega)
  have target : Mem.Aligned (tss + 4 * i) := by
    unfold Mem.Aligned at aligned ⊢
    omega
  apply Mem.load_storeAll_other m target (fieldWrites_aligned aligned _)
  intro w member same
  obtain ⟨field, listed, rfl⟩ := List.mem_map.mp member
  have saved : 8 ≤ field.1.toNat ∧ field.1.toNat < 24 := by
    revert field
    simp [fields]
  have here := field_toNat (i := field.1) room (by omega)
  change tss + 4 * field.1 = tss + 4 * i at same
  rw [same, place] at here
  omega

/-- A word of a `tss_t` stays while its bytes do. -/
theorem tssWord_congr {tss i : UInt32} (room : tss.toNat + 104 ≤ 4294967296) {m m' : Mem}
    (kept : ∀ x, TssByte tss x → m' x = m x) (small : i.toNat < 26) :
    m'.load (tss + 4 * i) = m.load (tss + 4 * i) := by
  have place := field_toNat (i := i) room (by omega)
  apply Mem.load_congr (by omega)
  intro x lower upper
  apply kept
  unfold TssByte
  omega

/-- The registers that a `tss_t` holds stay while its bytes do. -/
theorem Registers.load_congr {tss : UInt32} (room : tss.toNat + 104 ≤ 4294967296) {m m' : Mem}
    (kept : ∀ x, TssByte tss x → m' x = m x) : Registers.load m' tss = Registers.load m tss := by
  have word : ∀ i : UInt32, i.toNat < 26 → m'.load (tss + 4 * i) = m.load (tss + 4 * i) :=
    fun i small => tssWord_congr room kept small
  unfold Registers.load
  rw [word 8 (by decide), word 9 (by decide), word 10 (by decide), word 11 (by decide), word 12 (by decide),
    word 13 (by decide), word 14 (by decide), word 15 (by decide), word 16 (by decide), word 17 (by decide),
    word 18 (by decide), word 19 (by decide), word 20 (by decide), word 21 (by decide), word 22 (by decide),
    word 23 (by decide)]

theorem Rejected.congr {tss : UInt32} (room : tss.toNat + 104 ≤ 4294967296) {m m' : Mem}
    (kept : ∀ x, TssByte tss x → m' x = m x) : Rejected m' tss ↔ Rejected m tss := by
  unfold Rejected
  rw [tssWord_congr room kept (by decide), tssWord_congr room kept (by decide)]

/-- The descriptor behind a process's selector. -/
theorem taskSelector_entry {i : Nat} (small : i < 4) : tssEntry (UInt32.ofNat i) = 5 + i ∧
    (taskSelector (UInt32.ofNat i) >>> 3).toNat = 5 + i ∧ taskSelector (UInt32.ofNat i) &&& 3 = dplUser := by
  have four : i = 0 ∨ i = 1 ∨ i = 2 ∨ i = 3 := by omega
  rcases four with rfl | rfl | rfl | rfl
  all_goals decide

/-- The process that `schedule` goes on with. -/
def upcoming (maxProcs : UInt32) (s : Machine) : Option Nat :=
  (lap maxProcs.toNat (s.curproc + 1).toNat).find? (Runnable s)

section
variable {maxProcs : UInt32} {s t : Machine}

theorem nextProc_switched {lastproc : UInt32} {left : Nat} {waiting w : Bool}
    (run : nextProc maxProcs lastproc left waiting s = .done w t) : ∃ c, t = s.switched c s.gdt := by
  induction left generalizing s waiting with
  | zero => cases run
  | succ left ih =>
    rw [nextProc_succ] at run
    split at run
    · cases run
      exact ⟨_, rfl⟩
    · obtain ⟨c, same⟩ := ih run
      exact ⟨c, same⟩

/-- The one descriptor that `schedule` changes. -/
theorem schedule_gdt {exit : SchedExit} (run : schedule maxProcs s = .done exit t) : t.gdt =
    if exit = .switched then (s.setType (tssEntry (s.proctab t.curproc.toNat).pid) available).gdt else s.gdt := by
  unfold schedule at run
  rw [Prog.get_bind_run] at run
  obtain ⟨waiting, u, next, run⟩ := Prog.of_bind_done run
  obtain ⟨c, rfl⟩ := nextProc_switched next
  rw [Prog.get_bind_run, Prog.get_bind_run] at run
  split at run
  · split at run
    · cases run
      rfl
    · cases run
      rfl
  · split at run
    · cases run
      rfl
    · cases run
      rfl

/-- How `schedule` ends where no process waits: at a switch to the next process, with the current one, or in
`kend`. -/
theorem schedule_cases (small : s.curproc.toNat < maxProcs.toNat) (zero : (s.proctab 0).status = .null)
    (status : ∀ i, i < maxProcs.toNat → (s.proctab i).status = .null ∨ (s.proctab i).status = .run)
    {exit : SchedExit} (run : schedule maxProcs s = .done exit t) :
    (exit = .switched ∧ ∃ c : UInt32, upcoming maxProcs s = some c.toNat ∧ c ≠ s.curproc ∧
      t = s.switched c (s.setType (tssEntry (s.proctab c.toNat).pid) available).gdt) ∨
    (exit = .same ∧ t = s ∧ upcoming maxProcs s = some s.curproc.toNat) ∨
    exit = .ended ∧ upcoming maxProcs s = none := by
  have table := schedule_gdt run
  by_cases some : ∃ i, i < maxProcs.toNat ∧ Runnable s i = true
  · obtain ⟨x, first⟩ := first_runnable some
    obtain ⟨c, gdt, rfl, run'⟩ := schedule_first first
    rw [run, Outcome.done.injEq] at run'
    obtain ⟨rfl, rfl⟩ := run'
    by_cases same : c = s.curproc
    · subst same
      rw [if_pos rfl, if_neg (by decide)] at table
      exact Or.inr (Or.inl ⟨if_pos rfl, congrArg (s.switched s.curproc) table, first⟩)
    · rw [if_neg same, if_pos rfl] at table
      exact Or.inl ⟨if_neg same, c, first, same, congrArg (s.switched c) table⟩
  · have none : ∀ i, i < maxProcs.toNat → Runnable s i = false := fun i inside => by
      by_contra runs
      exact some ⟨i, inside, by simpa using runs⟩
    obtain ⟨exit', gdt, run', cases⟩ := schedule_none small none
    rw [run, Outcome.done.injEq] at run'
    obtain ⟨rfl, rfl⟩ := run'
    rcases cases with ⟨runs, rfl⟩ | ⟨stopped, ⟨-, i, inside, waits⟩ | ⟨rfl, -⟩⟩
    · have idle := none s.curproc.toNat small
      rw [Runnable, decide_eq_false_iff_not, not_and, not_not] at idle
      rw [idle runs, zero] at runs
      cases runs
    · rcases status i inside with null | runs
      · rw [null] at waits
        cases waits
      · rw [runs] at waits
        cases waits
    · refine Or.inr (Or.inr ⟨rfl, List.find?_eq_none.mpr fun i member => ?_⟩)
      rw [none i (mem_lap.mp member)]
      decide

end

/-- The entry of a process leads to what it owns whatever its `tss_t` holds. -/
theorem Records.rewritten {R : Region} {s : Machine} {h : Heap R} {p : Process} {r : Owned} (records : Records s p r)
    (used : ∀ b, b ∈ r.blocks → b ∈ h.used) {t : Machine}
    (kept : ∀ b, b ∈ r.blocks → b ≠ r.tss → ∀ x, b.Has x → t.mem x = s.mem x)
    (once : r.tss ∉ [r.info, r.space, r.links, r.list]) : Records t p r := by
  simp only [List.mem_cons, List.not_mem_nil, or_false, not_or] at once
  obtain ⟨notInfo, notSpace, notLinks, notList⟩ := once
  have word : ∀ b, b ∈ r.blocks → b ≠ r.tss → ∀ i : UInt32, 4 * i.toNat + 4 ≤ b.len.toNat →
      t.mem.load (b.addr + 8 + 4 * i) = s.mem.load (b.addr + 8 + 4 * i) := fun b mine other i short =>
    h.layout.word_kept (List.mem_append_right h.free (used b mine)) short (kept b mine other)
  obtain ⟨list, links, -, info⟩ := records.lens
  refine { records with fields := ?_, pages := ?_, link := ?_, tss := ?_ }
  · intro field member
    rw [word r.space (by simp [Owned.blocks]) (Ne.symm notSpace) _ (records.short_field member),
      records.fields _ member]
  · intro i f at_
    have inside := (List.getElem?_eq_some_iff.mp at_).1
    have few := records.few
    rw [word r.list (by simp [Owned.blocks]) (Ne.symm notList) _ (by rw [UInt32.toNat_ofNat']; omega),
      records.pages i f at_]
  · rw [word r.links (by simp [Owned.blocks]) (Ne.symm notLinks) _ (by simpa using links), records.link]
  · rw [word r.info (by simp [Owned.blocks]) (Ne.symm notInfo) _ (by simpa using info), records.tss]

namespace Lives
variable {R : Region} {s₀ s : Machine} {h₀ h : Heap R} {own : List (Nat × Owned)} (lives : Lives s₀ h₀ s h own)
include lives

theorem used_of {i : Nat} {r : Owned} (member : (i, r) ∈ own) {b : Slot} (mine : b ∈ r.blocks) : b ∈ h.used :=
  lives.used.mem_iff.mpr (List.mem_append_left _ (List.mem_flatMap.mpr ⟨_, member, mine⟩))

/-- The blocks of all processes are different ones. -/
theorem blocks_once : (ownedBlocks own).Nodup :=
  (List.nodup_append.mp (lives.used.nodup_iff.mp (List.nodup_append.mp h.layout.1.nodup).2.1)).1

theorem blocks_apart {i : Nat} {r : Owned} (member : (i, r) ∈ own) : r.blocks.Nodup ∧
    ∀ k q, (k, q) ∈ own → (k, q) ≠ (i, r) → ∀ b, b ∈ q.blocks → b ∉ r.blocks := by
  obtain ⟨rest, perm, -, blocks⟩ := lives.split member
  obtain ⟨mine, -, apart⟩ := List.nodup_append.mp (blocks.nodup_iff.mp lives.blocks_once)
  refine ⟨mine, fun k q listed differ b other own' => ?_⟩
  rcases List.mem_cons.mp (perm.mem_iff.mp listed) with same | late
  · exact differ same
  · exact apart b own' b (List.mem_flatMap.mpr ⟨_, late, other⟩) rfl

theorem unique {i : Nat} {r q : Owned} (first : (i, r) ∈ own) (second : (i, q) ∈ own) : r = q :=
  congrArg Prod.snd (List.inj_on_of_nodup_map lives.once first second rfl)

theorem tss_once {i : Nat} {r : Owned} (member : (i, r) ∈ own) : r.tss ∉ [r.info, r.space, r.links, r.list] :=
  (List.nodup_cons.mp (lives.blocks_apart member).1).1

/-- Memory changes that leave the heap as it is and spare all that is not a `tss_t`. -/
theorem rewritten {m : Mem} (hosts' : Hosts (s.withMem m) h)
    (kept : ∀ i r, (i, r) ∈ own → ∀ b, b ∈ r.blocks → b ≠ r.tss → ∀ x, b.Has x → m x = s.mem x) :
    Lives s₀ h₀ (s.withMem m) h own :=
  { lives with
    hosts := hosts'
    kernel := lives.kernel
    cur := lives.cur
    records := fun i r member =>
      (lives.records i r member).rewritten (fun _ mine => lives.used_of member mine) (kept i r member)
        (lives.tss_once member) }

end Lives

/-- The kernel's stack for a process ends in its last page. -/
structure Seated (m : Mem) (r : Owned) : Prop where
  top : ∃ tLen : UInt32, tLen.toNat + dataLen.toNat < 4194304 - 4096 ∧ r.pages.length = numFrames (tLen + dataLen) ∧
    m.load (r.tss.addr + 8 + 4 * esp0Field) = memspaceUserMem + tLen + dataLen
  segment : m.load (r.tss.addr + 8 + 4 * ss0Field) = kdataSelector

theorem Seated.congr {m m' : Mem} {r : Owned} (seated : Seated m r)
    (kept : ∀ i : UInt32, i.toNat < 8 → m'.load (r.tss.addr + 8 + 4 * i) = m.load (r.tss.addr + 8 + 4 * i)) :
    Seated m' r := by
  obtain ⟨tLen, short, pages, top⟩ := seated.top
  have stack := (kept esp0Field (by decide)).trans top
  exact ⟨⟨tLen, short, pages, stack⟩, (kept ss0Field (by decide)).trans seated.segment⟩

/-- The table of processes and the descriptors of their tasks, of which only that of the current one is busy. -/
structure Gated {R : Region} (s₀ : Machine) (h₀ : Heap R) (s : Tasks) (h : Heap R) (own : List (Nat × Owned)) :
    Prop where
  lives : Lives s₀ h₀ s.machine h own
  zero : (s.machine.proctab 0).status = .null
  status : ∀ i, i < 4 → (s.machine.proctab i).status = .null ∨ (s.machine.proctab i).status = .run
  long : ∀ i r, (i, r) ∈ own → r.tss.len.toNat = 104
  gates : ∀ i r, (i, r) ∈ own → (s.machine.gdt (5 + i)).base = r.tss.addr + 8 ∧
    (s.machine.gdt (5 + i)).dpl = dplUser ∧ (s.machine.gdt (5 + i)).type = if i = s.cur then busy else available
  entry : s.entry = 5 + s.cur
  seated : ∀ i r, (i, r) ∈ own → Seated s.machine.mem r

/-- Every process has the registers that it had last. At first it is the kernel that runs, with a `tss_t` of
its own at `sys`. -/
structure Contexts {R : Region} (sys : UInt32) (s₀ : Machine) (h₀ : Heap R) (log : List (Turn × Seen)) (s : Tasks)
    (h : Heap R) (own : List (Nat × Owned)) : Prop extends Gated s₀ h₀ s h own where
  regs : ∀ i r, (i, r) ∈ own → lastRegs i log = some (s.regsOf i)
  loadable : ∀ i r, (i, r) ∈ own → (s.regsOf i).Loadable
  runs : (s.cur = 0 ∧ s.tss = sys) ∨ ∃ r, (s.cur, r) ∈ own ∧ s.tss = r.tss.addr + 8

/-- The same when the scheduler is about to be called: the current process may have been killed, and its
registers can still be saved. -/
structure Due {R : Region} (s₀ : Machine) (h₀ : Heap R) (log : List (Turn × Seen)) (s : Tasks) (h : Heap R)
    (own : List (Nat × Owned)) : Prop extends Gated s₀ h₀ s h own where
  place : Mem.Aligned s.tss ∧ s.tss.toNat + 104 ≤ 4294967296
  clear : ∀ x, TssByte s.tss x → (x.toNat < R.base.toNat ∨ R.lo ≤ x.toNat) ∧
    ∀ b, b ∈ h.free ++ h.used → x.toNat < b.addr.toNat ∨ b.addr.toNat + 8 ≤ x.toNat
  others : ∀ i r, (i, r) ∈ own → ∀ b, b ∈ r.blocks → (i = s.cur → b ≠ r.tss) → ∀ x, b.Has x → ¬TssByte s.tss x
  saved : ∀ i r, (i, r) ∈ own → i ≠ s.cur →
    lastRegs i log = some (Registers.load s.machine.mem (r.tss.addr + 8)) ∧
      (Registers.load s.machine.mem (r.tss.addr + 8)).Loadable
  now : ∀ r, (s.cur, r) ∈ own → s.tss = r.tss.addr + 8 ∧ lastRegs s.cur log = some s.regs ∧ s.regs.Loadable

/-- The kernel's own `tss_t` is not in the heap. -/
structure Apart (R : Region) (sys : UInt32) : Prop where
  aligned : Mem.Aligned sys
  room : sys.toNat + 104 ≤ 4294967296
  outside : sys.toNat + 104 ≤ R.base.toNat ∨ R.hi ≤ sys.toNat

@[simp] theorem Tasks.regsOf_cur (s : Tasks) : s.regsOf s.cur = s.regs := if_pos rfl

@[simp] theorem Tasks.seen_regs (s : Tasks) : (s.seen s.cur).regs = s.regs := s.regsOf_cur

section
variable {R : Region} {sys : UInt32} {s₀ : Machine} {h₀ h : Heap R} {log : List (Turn × Seen)} {s : Tasks}
  {own : List (Nat × Owned)}

theorem mem_tss {r : Owned} : r.tss ∈ r.blocks := List.mem_cons_self

namespace Gated
variable (gated : Gated s₀ h₀ s h own)
include gated

theorem tss_place {i : Nat} {r : Owned} (member : (i, r) ∈ own) :
    (r.tss.addr + 8).toNat = r.tss.addr.toNat + 8 ∧ Mem.Aligned (r.tss.addr + 8) ∧
      (r.tss.addr + 8).toNat + 104 ≤ 4294967296 ∧ ∀ x, TssByte (r.tss.addr + 8) x ↔ r.tss.Has x := by
  have slot : r.tss ∈ h.free ++ h.used := List.mem_append_right _ (gated.lives.used_of member mem_tss)
  have past := h.layout.past_le slot
  have length := gated.long i r member
  unfold Slot.past at past
  have start : (r.tss.addr + 8).toNat = r.tss.addr.toNat + 8 := by
    rw [UInt32.toNat_add]
    simp
    omega
  refine ⟨start, (h.layout.2 _ slot).add (by decide), by omega, fun x => ?_⟩
  unfold TssByte Slot.Has Slot.past
  omega

theorem tssOf_eq {i : Nat} {r : Owned} (member : (i, r) ∈ own) : s.tssOf i = r.tss.addr + 8 := by
  have records := gated.lives.records i r member
  rw [tssOf, records.archInfo, ← records.tss]
  exact congrArg s.machine.mem.load (UInt32.add_zero _).symm

theorem ne_zero {i : Nat} {r : Owned} (member : (i, r) ∈ own) : i ≠ 0 := by
  rintro rfl
  exact (gated.lives.live 0 (by decide)).mpr ⟨r, member⟩ gated.zero

end Gated

theorem Contexts.due (contexts : Contexts sys s₀ h₀ log s h own) (apart : Apart R sys) : Due s₀ h₀ log s h own := by
  have saved : ∀ i r, (i, r) ∈ own → i ≠ s.cur →
      lastRegs i log = some (Registers.load s.machine.mem (r.tss.addr + 8)) ∧
        (Registers.load s.machine.mem (r.tss.addr + 8)).Loadable := by
    intro i r member other
    have loadable := contexts.loadable i r member
    rw [regsOf, if_neg (Ne.symm other), contexts.tssOf_eq member] at loadable
    rw [contexts.regs i r member, regsOf, if_neg (Ne.symm other), contexts.tssOf_eq member]
    exact ⟨rfl, loadable⟩
  rcases contexts.runs with ⟨idle, tss⟩ | ⟨r, running, tss⟩
  · refine ⟨contexts.toGated, ?_, ?_, ?_, saved, ?_⟩
    · rw [tss]
      exact ⟨apart.aligned, apart.room⟩
    · intro x byte
      rw [tss] at byte
      unfold TssByte at byte
      have outside := apart.outside
      have enough := R.enough
      have bound : R.lo ≤ R.hi := by
        unfold Region.lo Region.hi
        omega
      refine ⟨by omega, fun b member => ?_⟩
      have lower := h.layout.addr_bounds member
      have upper := h.layout.1.upper b member
      unfold Slot.past at upper
      omega
    · intro i r member b mine _ x data byte
      rw [tss] at byte
      have slot : b ∈ h.free ++ h.used := List.mem_append_right _ (contexts.lives.used_of member mine)
      have lower := h.layout.addr_bounds slot
      have upper := h.layout.1.upper b slot
      have outside := apart.outside
      unfold TssByte at byte
      unfold Slot.Has at data
      omega
    · intro r member
      exact absurd idle (contexts.ne_zero member)
  · obtain ⟨-, aligned, room, bytes⟩ := contexts.tss_place running
    have slot : r.tss ∈ h.free ++ h.used := List.mem_append_right _ (contexts.lives.used_of running mem_tss)
    refine ⟨contexts.toGated, ?_, ?_, ?_, saved, ?_⟩
    · rw [tss]
      exact ⟨aligned, room⟩
    · intro x byte
      rw [tss, bytes] at byte
      exact h.layout.data_clear slot byte
    · intro i q member b mine other x data byte
      rw [tss, bytes] at byte
      have slot' : b ∈ h.free ++ h.used := List.mem_append_right _ (contexts.lives.used_of member mine)
      refine h.layout.data_apart slot' slot ?_ data byte
      rintro rfl
      by_cases same : (i, q) = (s.cur, r)
      · obtain ⟨rfl, rfl⟩ := Prod.mk.inj same
        exact other rfl rfl
      · exact (contexts.lives.blocks_apart running).2 i q member same _ mine mem_tss
    · intro q member
      obtain rfl := contexts.lives.unique running member
      have loadable := contexts.loadable _ r member
      rw [Tasks.regsOf_cur] at loadable
      refine ⟨tss, ?_, loadable⟩
      rw [contexts.regs _ r member, Tasks.regsOf_cur]

/-- The machine when it jumps to process `c`, with `schedule` done. -/
def Tasks.leaving (c : UInt32) (s : Tasks) : Tasks :=
  { s with machine := s.machine.switched c (s.machine.setType (5 + c.toNat) available).gdt }

/-- The machine behind the jump. -/
def Tasks.jumped (c tss : UInt32) (s : Tasks) : Tasks where
  machine := (s.machine.switched c (((s.leaving c).machine.setType s.entry available).setType (5 + c.toNat)
    busy).gdt).withMem (s.machine.mem.storeAll (fieldWrites s.tss s.regs.fields))
  regs := Registers.load (s.machine.mem.storeAll (fieldWrites s.tss s.regs.fields)) tss
  cr3 := (s.machine.mem.storeAll (fieldWrites s.tss s.regs.fields)).load (tss + 4 * cr3Field)
  entry := 5 + c.toNat
  tss := tss

/-- The scheduler has no process to go on with, or one whose task the processor does not accept. -/
def Tasks.Ending (s : Tasks) : Prop :=
  ∀ i, upcoming schedMaxProcs s.machine = some i → i ≠ s.cur ∧ Rejected s.machine.mem (s.tssOf i)

/-- The current process goes on, or the processor has jumped to another one. -/
def Onward (own : List (Nat × Owned)) (s t : Tasks) : Prop :=
  (t = s ∧ ∃ r, (s.cur, r) ∈ own) ∨ ∃ c r, (c.toNat, r) ∈ own ∧ c.toNat ≠ s.cur ∧ t = s.jumped c (r.tss.addr + 8)

namespace Due
variable (due : Due s₀ h₀ log s h own)
include due

theorem mem_kept {x : UInt32} (outside : ¬TssByte s.tss x) :
    s.machine.mem.storeAll (fieldWrites s.tss s.regs.fields) x = s.machine.mem x :=
  Registers.save_outside due.place.1 due.place.2 _ _ outside

/-- What is saved does not touch the other tasks. -/
theorem task_kept {i : Nat} {q : Owned} (listed : (i, q) ∈ own) (other : i ≠ s.cur) {x : UInt32}
    (byte : TssByte (q.tss.addr + 8) x) :
    s.machine.mem.storeAll (fieldWrites s.tss s.regs.fields) x = s.machine.mem x := by
  obtain ⟨-, -, -, bytes⟩ := due.tss_place listed
  apply due.mem_kept
  exact due.others i q listed q.tss mem_tss (fun same => absurd same other) x ((bytes x).mp byte)

/-- Of no task the words that are not saved are changed. -/
theorem word_kept {i : Nat} {q : Owned} (listed : (i, q) ∈ own) {field : UInt32}
    (other : field.toNat < 8 ∨ field.toNat = 24 ∨ field.toNat = 25) :
    (s.machine.mem.storeAll (fieldWrites s.tss s.regs.fields)).load (q.tss.addr + 8 + 4 * field) =
      s.machine.mem.load (q.tss.addr + 8 + 4 * field) := by
  by_cases last : i = s.cur
  · subst last
    rw [← (due.now q listed).1]
    exact Registers.save_other due.place.1 due.place.2 _ _ other
  · obtain ⟨-, -, room, -⟩ := due.tss_place listed
    exact tssWord_congr room (fun x byte => due.task_kept listed last byte) (by omega)

/-- The jump finds a task that can be entered, but for what the process was not given when it was made. -/
theorem settle_jumps {c : UInt32} {r : Owned} (member : (c.toNat, r) ∈ own) (differ : c ≠ s.machine.curproc) :
    settle .switched (s.leaving c) =
      if Rejected s.machine.mem (r.tss.addr + 8) then .exit (s.jumped c (r.tss.addr + 8))
      else .done () (s.jumped c (r.tss.addr + 8)) := by
  have small := due.lives.small _ r member
  have pid := due.lives.pid _ r member
  obtain ⟨base, dpl, -⟩ := due.gates _ r member
  obtain ⟨-, entry, rights⟩ := taskSelector_entry small
  have other : c.toNat ≠ s.cur := fun same => differ (UInt32.toNat_inj.mp same)
  obtain ⟨-, -, room, -⟩ := due.tss_place member
  have gate : (s.leaving c).machine.gdt (5 + c.toNat) = { s.machine.gdt (5 + c.toNat) with type := available } :=
    if_pos rfl
  have rejected : Rejected (s.machine.mem.storeAll (fieldWrites s.tss s.regs.fields)) (r.tss.addr + 8) ↔
      Rejected s.machine.mem (r.tss.addr + 8) := Rejected.congr room fun x byte => due.task_kept member other byte
  have loadable : Registers.Loadable
      (Registers.load (s.machine.mem.storeAll (fieldWrites s.tss s.regs.fields)) (r.tss.addr + 8)) := by
    rw [Registers.load_congr room fun x byte => due.task_kept member other byte]
    exact (due.saved _ r member other).2
  rw [settle, Prog.get_bind_run]
  change ljmp (taskSelector (s.machine.proctab c.toNat).pid) (s.leaving c) = _
  rw [pid, ljmp, entry, rights, gate]
  dsimp only
  rw [if_pos ⟨rfl, dpl.symm ▸ UInt32.le_refl dplUser⟩, base]
  by_cases stale : Rejected s.machine.mem (r.tss.addr + 8)
  · rw [if_pos stale]
    exact if_pos (Or.inl (rejected.mpr stale))
  · rw [if_neg stale]
    exact if_neg (not_or.mpr ⟨fun found => stale (rejected.mp found), not_not.mpr loadable⟩)

/-- The registers are saved in the data of a block, be it used or given back. -/
theorem hosts_saved : Hosts (s.machine.withMem (s.machine.mem.storeAll (fieldWrites s.tss s.regs.fields))) h where
  base := due.lives.hosts.base
  inited := due.lives.hosts.inited
  rep := by
    refine due.lives.hosts.rep.congr h.layout ?_
    intro x lower header
    refine due.mem_kept fun byte => ?_
    obtain ⟨heads, headers⟩ := due.clear x byte
    rcases header with head | ⟨b, listed, above, below⟩
    · omega
    · have apart := headers b listed
      omega

theorem jumped_lives {c tss : UInt32} (small : c.toNat < 4) : Lives s₀ h₀ (s.jumped c tss).machine h own := by
  have lives := due.lives.switched small
    (((s.leaving c).machine.setType s.entry available).setType (5 + c.toNat) busy).gdt
  refine lives.rewritten ⟨due.hosts_saved.base, due.hosts_saved.inited, due.hosts_saved.rep⟩ ?_
  intro i r member b mine other x data
  exact due.mem_kept (due.others i r member b mine (fun _ => other) x data)

theorem jumped_gates {c tss : UInt32} (differ : c ≠ s.machine.curproc) {i : Nat} {r : Owned} (member : (i, r) ∈ own) :
    ((s.jumped c tss).machine.gdt (5 + i)).base = r.tss.addr + 8 ∧
      ((s.jumped c tss).machine.gdt (5 + i)).dpl = dplUser ∧
      ((s.jumped c tss).machine.gdt (5 + i)).type = if i = c.toNat then busy else available := by
  obtain ⟨base, dpl, type⟩ := due.gates i r member
  have old : c.toNat ≠ s.cur := fun same => differ (UInt32.toNat_inj.mp same)
  have here (k : Nat) (v : UInt32) (m : Machine) : (m.setType k v).gdt (5 + i) =
      if 5 + i = k then { m.gdt k with type := v } else m.gdt (5 + i) := rfl
  change ((((s.leaving c).machine.setType s.entry available).setType (5 + c.toNat) busy).gdt (5 + i)).base = _ ∧
    ((((s.leaving c).machine.setType s.entry available).setType (5 + c.toNat) busy).gdt (5 + i)).dpl = _ ∧
    ((((s.leaving c).machine.setType s.entry available).setType (5 + c.toNat) busy).gdt (5 + i)).type = _
  have leaving : (s.leaving c).machine.gdt (5 + i) =
      if 5 + i = 5 + c.toNat then { s.machine.gdt (5 + c.toNat) with type := available }
        else s.machine.gdt (5 + i) := rfl
  rw [due.entry]
  by_cases new : i = c.toNat
  · subst new
    rw [here, if_pos rfl, if_pos rfl, here, if_neg (by omega), leaving, if_pos rfl]
    exact ⟨base, dpl, rfl⟩
  · rw [if_neg new, here, if_neg (by omega)]
    by_cases last : i = s.cur
    · subst last
      rw [here, if_pos rfl, leaving, if_neg (by omega)]
      exact ⟨base, dpl, rfl⟩
    · rw [here, if_neg (by omega), leaving, if_neg (by omega), type, if_neg last]
      exact ⟨base, dpl, rfl⟩

theorem jumped_gated {c tss : UInt32} (small : c.toNat < 4) (differ : c ≠ s.machine.curproc) :
    Gated s₀ h₀ (s.jumped c tss) h own where
  lives := due.jumped_lives small
  zero := due.zero
  status := due.status
  long := due.long
  gates := fun _ _ member => due.jumped_gates differ member
  entry := rfl
  seated := fun i r member => (due.seated i r member).congr fun _ small => due.word_kept member (Or.inl small)

/-- The process that is entered gets its registers, and those of the process that is left are kept. -/
theorem jumped_regs {c : UInt32} {r : Owned} (member : (c.toNat, r) ∈ own) (differ : c ≠ s.machine.curproc) {i : Nat}
    {q : Owned} (listed : (i, q) ∈ own) : lastRegs i log = some ((s.jumped c (r.tss.addr + 8)).regsOf i) ∧
      ((s.jumped c (r.tss.addr + 8)).regsOf i).Loadable := by
  have gated : Gated s₀ h₀ (s.jumped c (r.tss.addr + 8)) h own :=
    due.jumped_gated (due.lives.small _ r member) differ
  have old : c.toNat ≠ s.cur := fun same => differ (UInt32.toNat_inj.mp same)
  have cur : (s.jumped c (r.tss.addr + 8)).cur = c.toNat := rfl
  rw [regsOf, cur]
  by_cases last : i = s.cur
  · subst last
    obtain ⟨tss, regs, loadable⟩ := due.now q listed
    have saved : Registers.load (s.jumped c (r.tss.addr + 8)).machine.mem s.tss = s.regs :=
      Registers.load_fields due.place.1 due.place.2 _ _
    rw [if_neg old, gated.tssOf_eq listed, ← tss, saved]
    exact ⟨regs, loadable⟩
  · obtain ⟨-, -, room, -⟩ := due.tss_place listed
    have kept : Registers.load (s.jumped c (r.tss.addr + 8)).machine.mem (q.tss.addr + 8) =
        Registers.load s.machine.mem (q.tss.addr + 8) :=
      Registers.load_congr room fun x byte => due.task_kept listed last byte
    have saved := due.saved i q listed last
    rw [← kept] at saved
    by_cases new : c.toNat = i
    · subst new
      obtain rfl := due.lives.unique member listed
      rw [if_pos rfl]
      exact saved
    · rw [if_neg new, gated.tssOf_eq listed]
      exact saved

theorem jumped_contexts (sys : UInt32) {c : UInt32} {r : Owned} (member : (c.toNat, r) ∈ own)
    (differ : c ≠ s.machine.curproc) : Contexts sys s₀ h₀ log (s.jumped c (r.tss.addr + 8)) h own where
  toGated := due.jumped_gated (due.lives.small _ r member) differ
  runs := Or.inr ⟨r, member, rfl⟩
  regs := fun _ _ listed => (due.jumped_regs member differ listed).1
  loadable := fun _ _ listed => (due.jumped_regs member differ listed).2

theorem current_regs {i : Nat} {q : Owned} (listed : (i, q) ∈ own) :
    lastRegs i log = some (s.regsOf i) ∧ (s.regsOf i).Loadable := by
  rw [regsOf]
  by_cases same : s.cur = i
  · subst same
    rw [if_pos rfl]
    exact (due.now q listed).2
  · rw [if_neg same, due.tssOf_eq listed]
    exact due.saved i q listed (Ne.symm same)

theorem current {r : Owned} (member : (s.cur, r) ∈ own) (sys : UInt32) : Contexts sys s₀ h₀ log s h own where
  toGated := due.toGated
  runs := Or.inr ⟨r, member, (due.now r member).1⟩
  regs := fun _ _ listed => (due.current_regs listed).1
  loadable := fun _ _ listed => (due.current_regs listed).2

theorem upcoming_listed {i : Nat} (found : upcoming schedMaxProcs s.machine = some i) : ∃ r, (i, r) ∈ own := by
  have small : i < 4 := mem_lap.mp (List.mem_of_find?_eq_some found)
  have runnable : Runnable s.machine i = true := List.find?_some found
  have runs : (s.machine.proctab i).status = .run := (of_decide_eq_true runnable).1
  apply (due.lives.live i small).mp
  rw [runs]
  decide

/-- After the scheduler a process goes on, or there is none that can, and the kernel has ended. -/
theorem settled (sys : UInt32) :
    (∃ t, timeSlice s = .done () t ∧ Onward own s t ∧ Contexts sys s₀ h₀ log t h own ∧ ¬s.Ending) ∨
      (∃ t, timeSlice s = .exit t) ∧ s.Ending := by
  have small : s.machine.curproc.toNat < schedMaxProcs.toNat := due.lives.cur
  obtain ⟨exit, c, gdt, -, run⟩ := schedule_done schedMaxProcs small
  have step : onMachine (schedule schedMaxProcs) s = .done exit { s with machine := s.machine.switched c gdt } :=
    Prog.zoom_done run
  rw [timeSlice, Prog.bind_done _ step]
  rcases schedule_cases small due.zero due.status run with
    ⟨rfl, c', found, differ, same⟩ | ⟨rfl, same, found⟩ | ⟨rfl, none⟩
  · obtain ⟨r, member⟩ := due.upcoming_listed found
    have other : c'.toNat ≠ s.cur := fun same => differ (UInt32.toNat_inj.mp same)
    rw [due.lives.pid _ r member, (taskSelector_entry (due.lives.small _ r member)).1] at same
    rw [same]
    by_cases rejected : Rejected s.machine.mem (r.tss.addr + 8)
    · refine Or.inr ⟨⟨_, (due.settle_jumps member differ).trans (if_pos rejected)⟩, fun i next => ?_⟩
      rw [found, Option.some.injEq] at next
      rw [← next, due.tssOf_eq member]
      exact ⟨other, rejected⟩
    · refine Or.inl ⟨_, (due.settle_jumps member differ).trans (if_neg rejected), Or.inr ⟨c', r, member, other, rfl⟩,
        due.jumped_contexts sys member differ, fun ending => rejected ?_⟩
      rw [← due.tssOf_eq member]
      exact (ending _ found).2
  · obtain ⟨r, member⟩ := due.upcoming_listed found
    rw [same]
    exact Or.inl ⟨s, rfl, Or.inl ⟨rfl, r, member⟩, due.current member sys, fun ending => (ending _ found).1 rfl⟩
  · refine Or.inr ⟨⟨_, rfl⟩, fun i next => ?_⟩
    rw [none] at next
    cases next

end Due

end

end Sos.Kernel
