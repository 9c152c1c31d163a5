import Sos.Kernel.Contexts

/-! What each turn does to the registers that the processes have. -/

namespace Sos.Kernel
open Sos.Lib Machine Tasks

section
variable {R : Region} {sys : UInt32} {s₀ : Machine} {h₀ h : Heap R} {log : List (Turn × Seen)} {s : Tasks}
  {own : List (Nat × Owned)}

namespace Contexts
variable (contexts : Contexts sys s₀ h₀ log s h own) (apart : Apart R sys)
include contexts apart

/-- The current process is gone, and its registers can still be saved where its `tss_t` was. -/
theorem killed_due {r : Owned} (member : (s.cur, r) ∈ own) {rest : List (Nat × Owned)}
    (perm : own.Perm ((s.cur, r) :: rest)) {h' : Heap R} {m : Mem}
    (lives : Lives s₀ h₀ (s.machine.killed s.cur r m) h' rest)
    (kept : ∀ b, b ∈ h'.used → ∀ x, b.Has x → m x = s.machine.mem x)
    (heads : ∀ b, b ∈ h'.free ++ h'.used → ∃ b₀, b₀ ∈ h.free ++ h.used ∧ b₀.addr = b.addr) :
    Due s₀ h₀ log { s with machine := s.machine.killed s.cur r m } h' rest := by
  have due := contexts.due apart
  have tss : s.tss = r.tss.addr + 8 := (due.now r member).1
  obtain ⟨-, aligned, room, bytes⟩ := contexts.tss_place member
  have old : ∀ {k q}, (k, q) ∈ rest → (k, q) ∈ own := fun listed => perm.mem_iff.mpr (List.mem_cons_of_mem _ listed)
  have fresh : ∀ {k q}, (k, q) ∈ rest → k ≠ s.cur := by
    rintro k q listed rfl
    have keys := (perm.map Prod.fst).nodup_iff.mp contexts.lives.once
    exact (List.nodup_cons.mp keys).1 (List.mem_map.mpr ⟨_, listed, rfl⟩)
  have entry : ∀ k, k ≠ s.cur → (s.machine.killed s.cur r m).proctab k = s.machine.proctab k := fun k differ =>
    if_neg differ
  have taskKept : ∀ {k q}, (k, q) ∈ rest → ∀ x, TssByte (q.tss.addr + 8) x → m x = s.machine.mem x := by
    intro k q listed x byte
    obtain ⟨-, -, -, bytes'⟩ := contexts.tss_place (old listed)
    exact kept q.tss (lives.used_of listed mem_tss) x ((bytes' x).mp byte)
  refine ⟨⟨lives, ?_, ?_, ?_, ?_, contexts.entry, ?_⟩, ?_, ?_, ?_, ?_, ?_⟩
  · exact (congrArg Process.status (entry 0 (contexts.ne_zero member).symm)).trans contexts.zero
  · intro k small
    by_cases same : k = s.cur
    · exact Or.inl (congrArg Process.status (if_pos same))
    · change ((s.machine.killed s.cur r m).proctab k).status = _ ∨
        ((s.machine.killed s.cur r m).proctab k).status = _
      rw [entry k same]
      exact contexts.status k small
  · exact fun k q listed => contexts.long k q (old listed)
  · exact fun k q listed => contexts.gates k q (old listed)
  · intro k q listed
    obtain ⟨-, -, room', -⟩ := contexts.tss_place (old listed)
    apply (contexts.seated k q (old listed)).congr
    intro i small
    exact tssWord_congr room' (taskKept listed) (by omega)
  · change Mem.Aligned s.tss ∧ s.tss.toNat + 104 ≤ 4294967296
    rw [tss]
    exact ⟨aligned, room⟩
  · intro x byte
    obtain ⟨outside, headers⟩ := due.clear x byte
    refine ⟨outside, fun b listed => ?_⟩
    obtain ⟨b₀, listed', same⟩ := heads b listed
    rw [← same]
    exact headers b₀ listed'
  · intro k q listed b mine _ x data byte
    refine due.others k q (old listed) b mine ?_ x data byte
    exact fun same => absurd same (fresh listed)
  · intro k q listed other
    obtain ⟨-, -, room', -⟩ := contexts.tss_place (old listed)
    have same : Registers.load m (q.tss.addr + 8) = Registers.load s.machine.mem (q.tss.addr + 8) :=
      Registers.load_congr room' (taskKept listed)
    have saved := due.saved k q (old listed) other
    rw [← same] at saved
    exact saved
  · intro q listed
    exact absurd rfl (fresh listed)

/-- A process ends, and then the scheduler is called. -/
theorem dies (spared : Spared R s₀ 1) {fuel : Nat} (steps : R.length.toNat / 8 < fuel) {r : Owned}
    (member : (s.cur, r) ∈ own) : ∃ rest h' m, own.Perm ((s.cur, r) :: rest) ∧
      syscallExit fuel s = timeSlice { s with machine := s.machine.killed s.cur r m } ∧
      Due s₀ h₀ log { s with machine := s.machine.killed s.cur r m } h' rest ∧
      Touches R (h.free ++ h.used) s.machine.mem m ∧ ∀ b, b ∈ h'.used → ∀ x, b.Has x → m x = s.machine.mem x := by
  have lives := contexts.lives
  obtain ⟨rest, perm, -, blocks⟩ := lives.split member
  have used : h.used.Perm (r.blocks ++ (ownedBlocks rest ++ h₀.used)) := by
    rw [← List.append_assoc]
    exact lives.used.trans (blocks.append_right h₀.used)
  have small : s.machine.curproc.toNat < schedMaxProcs.toNat := lives.cur
  obtain ⟨h', m, run, hosts', used', kept⟩ := processKill_done schedMaxProcs small
    (lives.records _ r member) (lives.exclusive member (lives.spared spared).count) lives.hosts steps used
  have killed := lives.killed member (m := m) hosts' perm used' kept
  obtain ⟨exit, c, gdt, -, next⟩ := schedule_done schedMaxProcs killed.cur
  have all : processKill schedMaxProcs goOn fuel s.machine.curproc s.machine = .done exit _ := (run goOn).trans next
  obtain ⟨⟨h'', hosts'', heads⟩, touches⟩ := Shrunk.processKill steps _ _ _ _ _ (Shrunk.refl lives.hosts) all
  obtain ⟨free, listed⟩ := hosts'.unique ⟨hosts''.base, hosts''.inited, hosts''.rep⟩
  have due := contexts.killed_due apart member perm killed kept (by
    rw [free, listed]
    exact heads)
  have step : onMachine (processKill schedMaxProcs goOn fuel s.machine.curproc) s =
      onMachine (schedule schedMaxProcs) { s with machine := s.machine.killed s.cur r m } := by
    have same : processKill schedMaxProcs goOn fuel s.machine.curproc s.machine = schedule schedMaxProcs
      (s.machine.killed s.cur r m) := run goOn
    rw [onMachine, onMachine, Prog.zoom, Prog.zoom, same]
  refine ⟨rest, h', m, perm, ?_, due, touches, kept⟩
  change Prog.bind _ _ s = Prog.bind _ _ _
  unfold Prog.bind
  rw [step]

omit apart in
theorem cur_listed : s.cur = 0 ∨ ∃ r, (s.cur, r) ∈ own := by
  rcases contexts.runs with ⟨idle, -⟩ | ⟨r, member, -⟩
  · exact Or.inl idle
  · exact Or.inr ⟨r, member⟩

end Contexts

theorem lastRegs_spawn_other {p : Process} {text tLen : UInt32} {o : Seen} {i : Nat} (other : o.pid ≠ i)
    (log : List (Turn × Seen)) : lastRegs i ((.spawn p text tLen, o) :: log) = lastRegs i log :=
  if_neg other

/-- What `sched_add` does in an entry without a process. -/
theorem schedAdd_entry {m t : Machine} {p : Process} {r : Int} (run : schedAdd p m = .done r t)
    {i : Nat} (found : nullEntry m = some i) : t =
      (m.setProc i { p with status := .run, pid := UInt32.ofNat i }).setGdt (5 + i)
        ⟨m.mem.load p.archInfo, tssSize, available, dplUser, 1, 1⟩ := by
  have inside := List.mem_of_find?_eq_some found
  rw [List.mem_range'_1] at inside
  unfold schedAdd at run
  rw [Prog.get_bind_run, found] at run
  simp only [] at run
  rw [Prog.modify_bind_run] at run
  obtain ⟨_, u, added, run⟩ := Prog.of_bind_done run
  cases run
  unfold archSchedAdd at added
  by_cases valid : p.archInfo = 0
  · simp only [valid] at added
    obtain ⟨_, _, fault, -⟩ := Prog.of_bind_done added
    cases fault
  · rw [Prog.bind_done _ (fetch_done valid 0)] at added
    cases added
    rw [(taskSelector_entry (by omega)).1, show p.archInfo + 4 * 0 = p.archInfo from UInt32.add_zero _]
    rfl

theorem nullEntry_some {m : Machine} {i : Nat} (found : nullEntry m = some i) :
    1 ≤ i ∧ i < 4 ∧ (m.proctab i).status = .null := by
  have null := List.find?_some found
  have inside := List.mem_of_find?_eq_some found
  rw [List.mem_range'_1] at inside
  exact ⟨inside.1, by omega, by simpa using null⟩

theorem schedAdd_found {m t : Machine} {p : Process} (run : schedAdd p m = .done retSuccess t) :
    ∃ i, nullEntry m = some i := by
  cases found : nullEntry m with
  | none =>
    unfold schedAdd at run
    rw [Prog.get_bind_run, found] at run
    cases run
  | some i => exact ⟨i, rfl⟩

theorem spawn_performed {fuel : Nat} {p q : Process} {text tLen : UInt32} {r : Int} {t u : Machine} {i : Nat}
    (made : createProcess goOn fuel p text tLen s.machine = .done (r, q) t)
    (added : schedAdd q t = .done retSuccess u) (found : nullEntry t = some i) :
    perform fuel (.spawn p text tLen) s =
      .done (Tasks.seen i { s with machine := u }) { s with machine := u } := by
  have first : onMachine (createProcess goOn fuel p text tLen) s = .done (r, q) { s with machine := t } :=
    Prog.zoom_done made
  have second : onMachine (schedAdd q) { s with machine := t } = .done retSuccess { s with machine := u } :=
    Prog.zoom_done added
  rw [perform, Prog.bind_done _ first]
  change ((Prog.get fun s => nullEntry s.machine) >>= fun entry => onMachine (schedAdd q) >>= fun _ =>
    Prog.get (Tasks.seen (entry.getD 0))) { s with machine := t } = _
  rw [Prog.get_bind_run, Prog.bind_done _ second, found]
  rfl

/-- The machine after a process was made in `t` and entered into the table. -/
structure Joined (s t u : Machine) (q : Process) (i : Nat) : Prop where
  positive : 1 ≤ i
  small : i < 4
  null : (s.proctab i).status = .null
  mem : u.mem = t.mem
  cur : u.curproc = s.curproc
  self : u.proctab i = { q with status := .run, pid := UInt32.ofNat i }
  table : ∀ k, k ≠ i → u.proctab k = s.proctab k
  gate : u.gdt (5 + i) = ⟨t.mem.load q.archInfo, tssSize, available, dplUser, 1, 1⟩
  gdt : ∀ k, k ≠ 5 + i → u.gdt k = s.gdt k

section
variable {s t u v : Machine} {h h₂ h' : Heap R} {own : List (Nat × Owned)} {as : AddrSpace} {tLen : UInt32}
  {p q : Process} {b c d e g : Slot} {m : Mem} {pd i : Nat} {fs : List Nat}
  (built : Built s h (tLen + dataLen) as v b c h₂ m pd fs) (created : Created s v h' as tLen p d e g q t)
  (added : schedAdd q t = .done retSuccess u) (found : nullEntry t = some i)
include built created

omit built in
/-- A new process starts in ring 3. -/
theorem Created.user :
    (Registers.load t.mem (g.addr + 8)).InUser ∧ (Registers.load t.mem (g.addr + 8)).Loadable := by
  have word : ∀ i w, (i, w) ∈ tssFields tLen v.schedStartProc as.pd → t.mem.load (g.addr + 8 + 4 * i) = w :=
    fun i w member => created.task (i, w) member
  unfold Registers.Loadable Registers.InUser Registers.InKernel Registers.load
  dsimp only
  rw [word 9 0x200 (by simp [tssFields]),
    word 19 (ucodeSelector ||| 3) (by simp [tssFields]), word 20 (udataSelector ||| 3) (by simp [tssFields]),
    word 18 (udataSelector ||| 3) (by simp [tssFields]), word 21 (udataSelector ||| 3) (by simp [tssFields]),
    word 22 (udataSelector ||| 3) (by simp [tssFields]), word 23 (udataSelector ||| 3) (by simp [tssFields])]
  decide

theorem Created.seated (short : tLen.toNat + dataLen.toNat < 4194304 - 4096) :
    Seated t.mem (newborn (tLen + dataLen) pd fs b c d e g) := by
  refine ⟨⟨tLen, short, ?_, ?_⟩, ?_⟩
  · obtain ⟨f, gs, rfl, long, -⟩ := built.one_table (numFrames_lt short)
    exact List.length_take_of_le long
  · exact created.task (esp0Field, memspaceUserMem + tLen + dataLen) (by simp [tssFields, esp0Field])
  · exact created.task (ss0Field, kdataSelector) (by simp [tssFields, ss0Field])

include added found

theorem Created.joined : Joined s t u q i := by
  obtain ⟨positive, small, null⟩ := nullEntry_some found
  have result := schedAdd_entry added found
  have table := created.proctab built
  rw [table] at null
  have cur : t.curproc = s.curproc := by
    rw [created.machine_eq built]
    rfl
  have gdt : t.gdt = s.gdt := by
    rw [created.machine_eq built]
    rfl
  refine ⟨positive, small, null, ?_, ?_, ?_, ?_, ?_, ?_⟩
  all_goals rw [result]
  · rfl
  · exact cur
  · exact if_pos rfl
  · intro k differ
    rw [← table]
    exact if_neg differ
  · exact if_pos rfl
  · intro k differ
    rw [← gdt]
    exact if_neg differ

theorem Lives.entered {s₀ : Machine} {h₀ : Heap R} (lives : Lives s₀ h₀ s h own) (spared₀ : Spared R s₀ 1)
    (few : numFrames (tLen + dataLen) < 1024) (blocks : Blocks h (tLen + dataLen) b c d e g h₂ h') :
    Lives s₀ h₀ u h' ((i, newborn (tLen + dataLen) pd fs b c d e g) :: own) := by
  have joined := created.joined built added found
  rw [schedAdd_entry added found]
  exact lives.born spared₀ few built blocks created joined.small joined.null _

end

namespace Contexts
variable (contexts : Contexts sys s₀ h₀ log s h own)
include contexts

section
variable {t u v : Machine} {h₂ h' : Heap R} {as : AddrSpace} {text tLen : UInt32} {p q : Process} {b c d e g : Slot}
  {m : Mem} {pd i : Nat} {fs : List Nat} (spared₀ : Spared R s₀ 1)
  (short : tLen.toNat + dataLen.toNat < 4194304 - 4096)
  (built : Built s.machine h (tLen + dataLen) as v b c h₂ m pd fs)
  (blocks : Blocks h (tLen + dataLen) b c d e g h₂ h') (created : Created s.machine v h' as tLen p d e g q t)

theorem ne_joined (joined : Joined s.machine t u q i) : i ≠ s.cur ∧ ∀ k r, (k, r) ∈ own → k ≠ i := by
  have fresh : ∀ k r, (k, r) ∈ own → k ≠ i := by
    rintro k r listed rfl
    exact (contexts.lives.live k joined.small).mpr ⟨r, listed⟩ joined.null
  refine ⟨?_, fresh⟩
  rintro rfl
  rcases contexts.cur_listed with idle | ⟨r, member⟩
  · have positive := joined.positive
    omega
  · exact fresh _ r member rfl

include spared₀ short built blocks created

/-- The tasks of the others are left alone. -/
theorem joined_task (joined : Joined s.machine t u q i) {k : Nat} {r : Owned} (old : (k, r) ∈ own) {x : UInt32}
    (byte : TssByte (r.tss.addr + 8) x) : u.mem x = s.machine.mem x := by
  obtain ⟨-, -, -, bytes⟩ := contexts.tss_place old
  rw [joined.mem]
  exact created.others_kept built blocks (contexts.lives.spared spared₀) (numFrames_lt short)
    (contexts.lives.used_of old mem_tss) ((bytes x).mp byte)

theorem joined_gated (joined : Joined s.machine t u q i)
    (lives : Lives s₀ h₀ u h' ((i, newborn (tLen + dataLen) pd fs b c d e g) :: own)) :
    Gated s₀ h₀ { s with machine := u } h' ((i, newborn (tLen + dataLen) pd fs b c d e g) :: own) := by
  obtain ⟨other, fresh⟩ := contexts.ne_joined joined
  have positive := joined.positive
  have same : Tasks.cur { s with machine := u } = s.cur := congrArg UInt32.toNat joined.cur
  refine ⟨lives, ?_, ?_, ?_, ?_, contexts.entry.trans (congrArg (5 + ·) same.symm), ?_⟩
  · exact (congrArg Process.status (joined.table 0 (by omega))).trans contexts.zero
  · intro k inside
    by_cases new : k = i
    · subst new
      exact Or.inr (congrArg Process.status joined.self)
    · change (u.proctab k).status = _ ∨ (u.proctab k).status = _
      rw [joined.table k new]
      exact contexts.status k inside
  · intro k r listed
    rcases List.mem_cons.mp listed with new | old
    · obtain ⟨rfl, rfl⟩ := Prod.mk.inj new
      exact blocks.lens.2.2.2.2
    · exact contexts.long k r old
  · intro k r listed
    rw [same]
    change (u.gdt (5 + k)).base = _ ∧ (u.gdt (5 + k)).dpl = _ ∧ (u.gdt (5 + k)).type = _
    rcases List.mem_cons.mp listed with new | old
    · obtain ⟨rfl, rfl⟩ := Prod.mk.inj new
      rw [joined.gate, if_neg other]
      have info : q.archInfo = e.addr + 8 := by rw [created.process]
      refine ⟨?_, rfl, rfl⟩
      change t.mem.load q.archInfo = g.addr + 8
      rw [info, ← created.info]
      exact congrArg t.mem.load (UInt32.add_zero _).symm
    · have differ := fresh k r old
      rw [joined.gdt (5 + k) (by omega)]
      exact contexts.gates k r old
  · intro k r listed
    change Seated u.mem r
    rcases List.mem_cons.mp listed with new | old
    · obtain ⟨rfl, rfl⟩ := Prod.mk.inj new
      rw [joined.mem]
      exact created.seated built short
    · obtain ⟨-, -, room, -⟩ := contexts.tss_place old
      apply (contexts.seated k r old).congr
      intro i small
      apply tssWord_congr room _ (by omega)
      exact fun x byte => contexts.joined_task spared₀ short built blocks created joined old byte

/-- The others keep their registers. -/
theorem joined_regs (joined : Joined s.machine t u q i)
    (lives : Lives s₀ h₀ u h' ((i, newborn (tLen + dataLen) pd fs b c d e g) :: own)) {k : Nat} {r : Owned}
    (old : (k, r) ∈ own) : Tasks.regsOf k { s with machine := u } = s.regsOf k := by
  have gated := contexts.joined_gated spared₀ short built blocks created joined lives
  have same : Tasks.cur { s with machine := u } = s.cur := congrArg UInt32.toNat joined.cur
  obtain ⟨-, -, room, -⟩ := contexts.tss_place old
  rw [regsOf, regsOf, same, gated.tssOf_eq (List.mem_cons_of_mem _ old), contexts.tssOf_eq old]
  have kept : Registers.load u.mem (r.tss.addr + 8) = Registers.load s.machine.mem (r.tss.addr + 8) :=
    Registers.load_congr room fun x byte => contexts.joined_task spared₀ short built blocks created joined old byte
  rw [kept]

/-- The new process has those in its `tss_t`. -/
theorem joined_new (joined : Joined s.machine t u q i)
    (lives : Lives s₀ h₀ u h' ((i, newborn (tLen + dataLen) pd fs b c d e g) :: own)) :
    Tasks.regsOf i { s with machine := u } = Registers.load t.mem (g.addr + 8) := by
  have gated := contexts.joined_gated spared₀ short built blocks created joined lives
  have same : Tasks.cur { s with machine := u } = s.cur := congrArg UInt32.toNat joined.cur
  rw [regsOf, same, if_neg (Ne.symm (contexts.ne_joined joined).1), gated.tssOf_eq List.mem_cons_self, ← joined.mem]
  rfl

variable (p text) in
/-- A process is made. -/
theorem born (added : schedAdd q t = .done retSuccess u) (found : nullEntry t = some i) :
    Contexts sys s₀ h₀ ((.spawn p text tLen, Tasks.seen i { s with machine := u }) :: log) { s with machine := u } h'
      ((i, newborn (tLen + dataLen) pd fs b c d e g) :: own) := by
  have joined := created.joined built added found
  have lives := contexts.lives.entered built created added found spared₀ (numFrames_lt short) blocks
  have gated := contexts.joined_gated spared₀ short built blocks created joined lives
  have regs {k : Nat} {r : Owned} (old : (k, r) ∈ own) : Tasks.regsOf k { s with machine := u } = s.regsOf k :=
    contexts.joined_regs spared₀ short built blocks created joined lives old
  have fresh := (contexts.ne_joined joined).2
  have same : Tasks.cur { s with machine := u } = s.cur := congrArg UInt32.toNat joined.cur
  refine ⟨gated, ?_, ?_, ?_⟩
  · intro k r listed
    rcases List.mem_cons.mp listed with new | old
    · obtain ⟨rfl, rfl⟩ := Prod.mk.inj new
      exact if_pos rfl
    · rw [lastRegs_spawn_other (Ne.symm (fresh k r old)), contexts.regs k r old, regs old]
  · intro k r listed
    rcases List.mem_cons.mp listed with new | old
    · obtain ⟨rfl, rfl⟩ := Prod.mk.inj new
      rw [contexts.joined_new spared₀ short built blocks created joined lives]
      exact created.user.2
    · rw [regs old]
      exact contexts.loadable k r old
  · rw [same]
    rcases contexts.runs with ⟨idle, tss⟩ | ⟨r, member, tss⟩
    · exact Or.inl ⟨idle, tss⟩
    · exact Or.inr ⟨r, List.mem_cons_of_mem _ member, tss⟩

end

theorem spawned (spared₀ : Spared R s₀ 1) {fuel : Nat} (steps : R.length.toNat / 8 < fuel) {p : Process}
    {text tLen : UInt32} (allow : Allowed fuel (.spawn p text tLen) s.machine) : ∃ o t h' own',
      perform fuel (.spawn p text tLen) s = .done o t ∧
      Contexts sys s₀ h₀ ((.spawn p text tLen, o) :: log) t h' own' := by
  obtain ⟨short, q, t, u, made, added⟩ := allow
  obtain ⟨as, v, b, c, d, e, g, h₂, h', m, pd, fs, built, blocks, created, -⟩ :=
    createProcess_created contexts.lives.hosts steps (contexts.lives.spared spared₀) (numFrames_lt short) made
  obtain ⟨i, found⟩ := schedAdd_found added
  exact ⟨_, _, h', _, spawn_performed made added found,
    contexts.born text p spared₀ short built blocks created added found⟩

/-- The current process has other registers from now on. -/
theorem worked {regs : Registers} {e : Turn × Seen} (loadable : regs.Loadable)
    (last : ∀ i, lastRegs i (e :: log) = if s.cur = i then some regs else lastRegs i log) :
    Contexts sys s₀ h₀ (e :: log) { s with regs := regs } h own := by
  have same (i : Nat) : Tasks.regsOf i { s with regs := regs } = if s.cur = i then regs else s.regsOf i := by
    rw [regsOf, regsOf]
    by_cases now : s.cur = i
    · exact (if_pos now).trans (if_pos now).symm
    · exact (if_neg now).trans ((if_neg now).trans (if_neg now)).symm
  refine { contexts.toGated with
    runs := contexts.runs, regs := fun i r listed => ?_, loadable := fun i r listed => ?_ }
  · rw [last, same]
    by_cases now : s.cur = i
    · rw [if_pos now, if_pos now]
    · rw [if_neg now, if_neg now]
      exact contexts.regs i r listed
  · rw [same]
    by_cases now : s.cur = i
    · rw [if_pos now]
      exact loadable
    · rw [if_neg now]
      exact contexts.loadable i r listed

/-- Bytes outside the heap are no one's registers. -/
theorem aside {m : Mem} (outside : ∀ x : UInt32, R.base.toNat ≤ x.toNat → x.toNat < R.hi → m x = s.machine.mem x) :
    Contexts sys s₀ h₀ log { s with machine := s.machine.withMem m } h own := by
  have data : ∀ b, b ∈ h.used → ∀ x, b.Has x → m x = s.machine.mem x := by
    intro b listed x has
    have slot : b ∈ h.free ++ h.used := List.mem_append_right _ listed
    have lower := h.layout.addr_bounds slot
    have upper := h.layout.1.upper b slot
    unfold Slot.Has at has
    exact outside x (by omega) (by omega)
  have hosts : Hosts (s.machine.withMem m) h :=
    contexts.lives.hosts.congr rfl rfl fun x lower upper _ => outside x lower upper
  have lives : Lives s₀ h₀ (s.machine.withMem m) h own :=
    contexts.lives.rewritten hosts fun i r member b mine _ => data b (contexts.lives.used_of member mine)
  have task {i : Nat} {r : Owned} (listed : (i, r) ∈ own) :
      ∀ x, TssByte (r.tss.addr + 8) x → m x = s.machine.mem x := by
    obtain ⟨-, -, -, bytes⟩ := contexts.tss_place listed
    exact fun x byte => data r.tss (contexts.lives.used_of listed mem_tss) x ((bytes x).mp byte)
  have seated : ∀ i r, (i, r) ∈ own → Seated m r := by
    intro i r listed
    obtain ⟨-, -, room, -⟩ := contexts.tss_place listed
    exact (contexts.seated i r listed).congr fun _ small => tssWord_congr room (task listed) (by omega)
  have gated : Gated s₀ h₀ { s with machine := s.machine.withMem m } h own :=
    ⟨lives, contexts.zero, contexts.status, contexts.long, contexts.gates, contexts.entry, seated⟩
  have same {i : Nat} {r : Owned} (listed : (i, r) ∈ own) :
      Tasks.regsOf i { s with machine := s.machine.withMem m } = s.regsOf i := by
    obtain ⟨-, -, room, -⟩ := contexts.tss_place listed
    have kept : Registers.load m (r.tss.addr + 8) = Registers.load s.machine.mem (r.tss.addr + 8) :=
      Registers.load_congr room (task listed)
    rw [regsOf, regsOf, gated.tssOf_eq listed, contexts.tssOf_eq listed]
    change (if s.cur = i then s.regs else Registers.load m (r.tss.addr + 8)) = _
    rw [kept]
  refine ⟨gated, fun i r listed => ?_, fun i r listed => ?_, contexts.runs⟩
  · rw [same listed]
    exact contexts.regs i r listed
  · rw [same listed]
    exact contexts.loadable i r listed

omit contexts in
/-- A turn that gives no process other registers. -/
theorem logged {e : Turn × Seen} (same : ∀ i, lastRegs i (e :: log) = lastRegs i log)
    (contexts : Contexts sys s₀ h₀ log s h own) : Contexts sys s₀ h₀ (e :: log) s h own :=
  { contexts with regs := fun i r listed => (same i).trans (contexts.regs i r listed) }

end Contexts

theorem userStore_done {va frame : UInt32} (walk : pageWalk s.machine.mem s.cr3 va = some ⟨frame, true, true⟩)
    (v : UInt8) : userStore va v s = .done () (s.stored (frame + (va &&& 0xFFF)) v) := by
  unfold userStore storeAt
  rw [walk]
  rfl

theorem kernelStore_done {va : UInt32} {place : Translation} (walk : pageWalk s.machine.mem s.cr3 va = some place)
    (v : UInt8) : kernelStore va v s = .done () (s.stored (place.frame + (va &&& 0xFFF)) v) := by
  unfold kernelStore storeAt
  rw [walk]
  rfl

theorem kernelStores_done {l : List (UInt32 × UInt8)} {s t : Tasks} (run : kernelStores l s = .done () t) :
    ∃ m, t = { s with machine := s.machine.withMem m } := by
  induction l generalizing s with
  | nil =>
    cases run
    exact ⟨_, rfl⟩
  | cons p l ih =>
    obtain ⟨_, u, first, rest⟩ := Prog.of_bind_done run
    obtain ⟨m, rfl⟩ := ih rest
    unfold kernelStore storeAt at first
    split at first
    · cases first
      exact ⟨m, rfl⟩
    · cases first

theorem enter_done {wrapper : UInt32} {t : Tasks} (run : enter wrapper s = .done () t) : ∃ m, t =
    { s with machine := s.machine.withMem m,
             regs := s.regs.entered wrapper (s.machine.mem.load (s.tss + 4 * esp0Field))
               (s.machine.mem.load (s.tss + 4 * ss0Field)) } := by
  unfold enter at run
  rw [Prog.get_bind_run, Prog.get_bind_run, Prog.get_bind_run] at run
  obtain ⟨_, u, pushed, last⟩ := Prog.of_bind_done run
  obtain ⟨m, rfl⟩ := kernelStores_done pushed
  cases last
  exact ⟨m, rfl⟩

theorem Registers.Loadable.entered {r : Registers} (loadable : r.Loadable) (wrapper esp0 : UInt32) :
    (r.entered wrapper esp0 kdataSelector).Loadable := by
  have wider {ring sel : UInt32} (opened : DataOpen ring sel) : DataOpen 0 sel := by
    rcases opened with null | code | data | ⟨-, kernel⟩
    · exact Or.inl null
    · exact Or.inr (Or.inl code)
    · exact Or.inr (Or.inr (Or.inl data))
    · exact Or.inr (Or.inr (Or.inr ⟨rfl, kernel⟩))
  obtain ⟨-, -, es, ds, fs, gs⟩ := loadable
  have ring : kcodeSelector &&& 3 = 0 := by decide
  have flags : quiet r.eflags &&& 0x20000 = 0 := by
    unfold quiet
    rw [UInt32.and_assoc]
    exact UInt32.and_zero
  refine ⟨Or.inr ⟨rfl, rfl⟩, flags, ?_⟩
  change DataOpen (kcodeSelector &&& 3) r.es ∧ DataOpen (kcodeSelector &&& 3) r.ds ∧
    DataOpen (kcodeSelector &&& 3) r.fs ∧ DataOpen (kcodeSelector &&& 3) r.gs
  rw [ring]
  exact ⟨wider es, wider ds, wider fs, wider gs⟩

theorem Tasks.of_popped {user : Registers} (found : s.popped = some user) : user.InUser ∧ user.Loadable := by
  unfold Tasks.popped at found
  simp only [Option.bind_eq_bind, Option.bind_eq_some_iff] at found
  obtain ⟨ws, -, regs, -, last⟩ := found
  split at last
  · next checked =>
    cases last
    exact checked.2
  · cases last

theorem leave_done {user : Registers} (found : s.popped = some user) :
    leave s = .done () { s with regs := user } := by
  unfold leave
  rw [found]

/-- A byte outside the heap. -/
def Outside (R : Region) (x : UInt32) : Prop := x.toNat < R.base.toNat ∨ R.hi ≤ x.toNat

def Tasks.Live (s : Tasks) : Prop := (s.machine.proctab s.cur).status ≠ .null

/-- Registers that can come of a computation in one ring. The kernel leaves the data segments and the flag NT as they
are. -/
def Computes (regs : Registers) (s : Tasks) : Prop :=
  regs.Loadable ∧ regs.cs = s.regs.cs ∧
    (s.regs.InKernel → regs.es = s.regs.es ∧ regs.ds = s.regs.ds ∧ regs.fs = s.regs.fs ∧ regs.gs = s.regs.gs ∧
      (regs.Nested → s.regs.Nested))

/-- What is asked of a turn: that it is one of the ring which the processor is in, that a process can be made, that
there is a stack for an interrupt and a user to return to, and that nothing is written in the heap. -/
def Fair (R : Region) (fuel : Nat) : Turn → Tasks → Prop
  | .spawn p text tLen, s => s.regs.InKernel ∧ Allowed fuel (.spawn p text tLen) s.machine
  | .interrupt wrapper, s => s.Live ∧ s.regs.InUser ∧
      ∃ t, enter wrapper s = .done () t ∧ ∀ x, Outside R x ∨ t.machine.mem x = s.machine.mem x
  | .store va _, s => s.regs.InKernel ∧
      ∃ place, pageWalk s.machine.mem s.cr3 va = some place ∧ Outside R (place.frame + (va &&& 0xFFF))
  | .exit, s => s.Live ∧ s.regs.InKernel
  | .tick, s => s.regs.InKernel
  | .iret, s => s.Live ∧ s.regs.InKernel ∧ ∃ user, s.popped = some user
  | .work regs, s => Computes regs s
  | .write va _, s => s.regs.InUser ∧
      ∀ place, pageWalk s.machine.mem s.cr3 va = some place → Outside R (place.frame + (va &&& 0xFFF))

/-- The machine when the current process is gone, for the scheduler. -/
def Tasks.ended (s : Tasks) : Tasks :=
  { s with machine := s.machine.setProc s.cur { s.machine.proctab s.cur with status := .null } }

/-- After what there is no going on: nothing can be run, or not as it was made, or a store has no page. -/
def Halted : Turn → Tasks → Prop
  | .exit, s => s.ended.Ending
  | .tick, s => s.Ending
  | .write va _, s => ∀ place, pageWalk s.machine.mem s.cr3 va = some place → (place.user && place.writable) = false
  | _, _ => False

namespace Contexts
variable (contexts : Contexts sys s₀ h₀ log s h own)
include contexts

theorem stored {a : UInt32} (outside : Outside R a) (v : UInt8) : Contexts sys s₀ h₀ log (s.stored a v) h own := by
  apply contexts.aside
  intro x lower upper
  apply if_neg
  rintro rfl
  unfold Outside at outside
  omega

theorem member_of_live (live : s.Live) : ∃ r, (s.cur, r) ∈ own :=
  (contexts.lives.live s.cur contexts.lives.cur).mp live

theorem last {r : Owned} (member : (s.cur, r) ∈ own) : lastRegs s.cur log = some s.regs ∧ s.regs.Loadable := by
  have regs := contexts.regs _ r member
  have loadable := contexts.loadable _ r member
  rw [Tasks.regsOf_cur] at regs loadable
  exact ⟨regs, loadable⟩

theorem tss_eq {r : Owned} (member : (s.cur, r) ∈ own) : s.tss = r.tss.addr + 8 := by
  rcases contexts.runs with ⟨idle, -⟩ | ⟨q, running, tss⟩
  · exact absurd idle (contexts.ne_zero member)
  · rw [tss, contexts.lives.unique member running]

/-- The kernel takes over with its own segments. -/
theorem interrupted {wrapper : UInt32} {t : Tasks} (live : s.Live) (run : enter wrapper s = .done () t)
    (aside : ∀ x, Outside R x ∨ t.machine.mem x = s.machine.mem x) :
    Contexts sys s₀ h₀ ((.interrupt wrapper, t.seen t.cur) :: log) t h own := by
  obtain ⟨r, member⟩ := contexts.member_of_live live
  obtain ⟨m, rfl⟩ := enter_done run
  have segment := (contexts.seated _ r member).segment
  rw [← contexts.tss_eq member] at segment
  have moved : Contexts sys s₀ h₀ log { s with machine := s.machine.withMem m } h own := by
    apply contexts.aside
    intro x lower upper
    rcases aside x with outside | same
    · unfold Outside at outside
      omega
    · exact same
  apply moved.worked
  · rw [segment]
    exact (contexts.last member).2.entered _ _
  · intro i
    rw [lastRegs, Tasks.seen_regs]
    rfl

/-- The process goes on with what the stack has for it. -/
theorem returned {user : Registers} (popped : s.popped = some user) : Contexts sys s₀ h₀
    ((.iret, Tasks.seen s.cur { s with regs := user }) :: log) { s with regs := user } h own := by
  apply contexts.worked (Tasks.of_popped popped).2
  intro i
  have now : (Tasks.seen s.cur { s with regs := user }).regs = user := Tasks.seen_regs { s with regs := user }
  rw [lastRegs, now]
  rfl

/-- A process that is alone goes on. -/
theorem alone (apart : Apart R sys) (live : s.Live)
    (only : ∀ i, i < 4 → (s.machine.proctab i).status ≠ .null → i = s.cur) : timeSlice s = .done () s := by
  have due := contexts.due apart
  have listed {i : Nat} {r : Owned} (member : (i, r) ∈ own) : i = s.cur := by
    have small := contexts.lives.small i r member
    exact only i small ((contexts.lives.live i small).mpr ⟨r, member⟩)
  rcases due.settled sys with ⟨t, run, onward, -, -⟩ | ⟨-, ends⟩
  · rcases onward with ⟨rfl, -⟩ | ⟨c, r, member, differ, -⟩
    · exact run
    · exact absurd (listed member) differ
  · obtain ⟨q, here⟩ := contexts.member_of_live live
    have runs : Runnable s.machine s.cur = true := by
      apply decide_eq_true
      refine ⟨?_, contexts.ne_zero here⟩
      rcases contexts.status s.cur contexts.lives.cur with null | run
      · exact absurd null live
      · exact run
    obtain ⟨i, first⟩ := @first_runnable schedMaxProcs s.machine ⟨s.cur, contexts.lives.cur, runs⟩
    obtain ⟨r, member⟩ := due.upcoming_listed first
    exact absurd (listed member) (ends i first).1

/-- The same machine is left whether a process is gone or its blocks are free as well. -/
theorem killed_ending {r : Owned} {rest : List (Nat × Owned)} (perm : own.Perm ((s.cur, r) :: rest)) {h' : Heap R}
    {m : Mem} (due : Due s₀ h₀ log { s with machine := s.machine.killed s.cur r m } h' rest)
    (kept : ∀ b, b ∈ h'.used → ∀ x, b.Has x → m x = s.machine.mem x) :
    Tasks.Ending { s with machine := s.machine.killed s.cur r m } ↔ s.ended.Ending := by
  have each : ∀ i, upcoming schedMaxProcs s.ended.machine = some i →
      (Rejected m (Tasks.tssOf i { s with machine := s.machine.killed s.cur r m }) ↔
        Rejected s.machine.mem (s.ended.tssOf i)) := by
    intro i found
    obtain ⟨q, listed⟩ := due.upcoming_listed found
    have old : (i, q) ∈ own := perm.mem_iff.mpr (List.mem_cons_of_mem _ listed)
    have other : i ≠ s.cur := by
      rintro rfl
      have keys := (perm.map Prod.fst).nodup_iff.mp contexts.lives.once
      exact (List.nodup_cons.mp keys).1 (List.mem_map.mpr ⟨_, listed, rfl⟩)
    obtain ⟨-, -, room, bytes⟩ := contexts.tss_place old
    have entry : s.ended.machine.proctab i = s.machine.proctab i := if_neg other
    have place : s.ended.tssOf i = q.tss.addr + 8 := by
      rw [← contexts.tssOf_eq old, tssOf, tssOf, entry]
      rfl
    rw [due.tssOf_eq listed, place]
    exact Rejected.congr room fun x byte => kept q.tss (due.lives.used_of listed mem_tss) x ((bytes x).mp byte)
  constructor
  · exact fun ending i found => ⟨(ending i found).1, (each i found).mp (ending i found).2⟩
  · exact fun ending i found => ⟨(ending i found).1, (each i found).mpr (ending i found).2⟩

end Contexts

/-- A turn comes back, or there is nothing to come back to. -/
theorem Contexts.performed (contexts : Contexts sys s₀ h₀ log s h own) (apart : Apart R sys) (spared : Spared R s₀ 1)
    {fuel : Nat} (steps : R.length.toNat / 8 < fuel) {turn : Turn} (fair : Fair R fuel turn s) :
    (∃ o t h' own', perform fuel turn s = .done o t ∧ Contexts sys s₀ h₀ ((turn, o) :: log) t h' own' ∧
      ¬Halted turn s) ∨ (∃ t, perform fuel turn s = .exit t) ∧ Halted turn s := by
  cases turn with
  | spawn p text tLen =>
    obtain ⟨o, t, h', own', run, contexts'⟩ := contexts.spawned spared steps fair.2
    exact Or.inl ⟨o, t, h', own', run, contexts', id⟩
  | interrupt wrapper =>
    obtain ⟨live, -, t, run, aside⟩ := fair
    exact Or.inl ⟨_, t, h, own, Prog.bind_done _ run, contexts.interrupted live run aside, id⟩
  | store va v =>
    obtain ⟨-, place, walk, outside⟩ := fair
    exact Or.inl ⟨_, _, h, own, Prog.bind_done _ (kernelStore_done walk v),
      (contexts.stored outside v).logged fun _ => rfl, id⟩
  | exit =>
    obtain ⟨r, member⟩ := contexts.member_of_live fair.1
    obtain ⟨rest, h', m, perm, whole, due, -, kept⟩ := contexts.dies apart spared steps member
    have ending := contexts.killed_ending perm due kept
    rcases due.settled sys with ⟨t, run, -, contexts', goes⟩ | ⟨⟨t, run⟩, ends⟩
    all_goals rw [← whole] at run
    · exact Or.inl ⟨_, t, h', rest, Prog.bind_done _ run, contexts'.logged fun _ => rfl,
        fun ends => goes (ending.mpr ends)⟩
    · exact Or.inr ⟨⟨t, Prog.bind_exit _ run⟩, ending.mp ends⟩
  | tick =>
    rcases (contexts.due apart).settled sys with ⟨t, run, -, contexts', goes⟩ | ⟨⟨t, run⟩, ends⟩
    · exact Or.inl ⟨_, t, h, own, Prog.bind_done _ run, contexts'.logged fun _ => rfl, goes⟩
    · exact Or.inr ⟨⟨t, Prog.bind_exit _ run⟩, ends⟩
  | iret =>
    obtain ⟨-, -, user, popped⟩ := fair
    exact Or.inl ⟨_, _, h, own, Prog.bind_done _ (leave_done popped), contexts.returned popped, id⟩
  | work regs => exact Or.inl ⟨_, _, h, own, rfl, contexts.worked fair.1 fun _ => rfl, id⟩
  | write va v =>
    cases walk : pageWalk s.machine.mem s.cr3 va with
    | none =>
      have halted : userStore va v s = .exit s := by
        unfold userStore storeAt
        rw [walk]
      refine Or.inr ⟨⟨s, Prog.bind_exit _ halted⟩, fun place found => ?_⟩
      rw [walk] at found
      cases found
    | some place =>
      by_cases rights : (place.user && place.writable) = true
      · have run : userStore va v s = .done () (s.stored (place.frame + (va &&& 0xFFF)) v) := by
          unfold userStore storeAt
          rw [walk]
          exact if_pos rights
        refine Or.inl ⟨_, _, h, own, Prog.bind_done _ run,
          (contexts.stored (fair.2 place walk) v).logged fun _ => rfl, fun halted => ?_⟩
        rw [halted place walk] at rights
        cases rights
      · have halted : userStore va v s = .exit s := by
          unfold userStore storeAt
          rw [walk]
          exact if_neg rights
        refine Or.inr ⟨⟨s, Prog.bind_exit _ halted⟩, fun other found => ?_⟩
        rw [walk, Option.some.injEq] at found
        rw [← found]
        exact Bool.eq_false_iff.mpr rights

theorem Contexts.first (s₀ : Tasks) {h₀ : Heap R} (hosts : Hosts s₀.machine h₀) (idle : Idle s₀.machine)
    (kernel : s₀.cur = 0) (entry : s₀.entry = 5) (tss : s₀.tss = sys) :
    Contexts sys s₀.machine h₀ [] s₀ h₀ [] where
  lives := idle.lives hosts
  zero := idle.null 0 (by decide)
  status := fun i small => Or.inl (idle.null i small)
  long := fun _ _ member => absurd member List.not_mem_nil
  gates := fun _ _ member => absurd member List.not_mem_nil
  entry := by rw [kernel, entry]
  seated := fun _ _ member => absurd member List.not_mem_nil
  regs := fun _ _ member => absurd member List.not_mem_nil
  loadable := fun _ _ member => absurd member List.not_mem_nil
  runs := Or.inl ⟨kernel, tss⟩

/-- The kernel runs in its segments, and nothing else does. -/
def atRest (m : Machine) : Tasks :=
  ⟨m, ⟨0, 0, 0, 0, 0, 0, 0, 0, 0, 0, kdataSelector, kcodeSelector, kdataSelector, kdataSelector, kdataSelector,
    kdataSelector⟩, 0, 5, 0x100⟩

theorem idle_fourMegabytes (m : Mem) : Idle (fourMegabytes m) := by
  refine ⟨?_, fun _ _ => rfl⟩
  change (0 : UInt32).toNat < 4
  decide

theorem apart_megabyte : Apart megabyte 0x100 := ⟨by decide, by decide, by decide⟩

theorem megabyte_above {m m₀ : Mem} (init : initAlloc 0x100000 0x100000 m = .done retSuccess m₀) {x : UInt32}
    (above : 0x100010 ≤ x.toNat) : m₀ x = m x := by
  have written : m₀ = (((m.store 0x100004 0).store 0x100008 0).store 0x10000C 0xFFFF0).store 0x100000 0x100008 := by
    cases init
    rfl
  have step {n : Mem} {a v : UInt32} (room : a.toNat + 4 ≤ 0x100010) : n.store a v x = n x :=
    Mem.store_outside n v (by omega) (by omega)
  rw [written, step (by decide), step (by decide), step (by decide), step (by decide)]

section
variable {m₀ : Mem} (init : initAlloc 0x100000 0x100000 (fun _ => 0) = .done retSuccess m₀)
include init

theorem hosts_fourMegabytes : Hosts (fourMegabytes m₀) (Heap.init megabyte) := by
  obtain ⟨m, init', rep⟩ := initAlloc_done megabyte fun _ => 0
  have same := init.symm.trans init'
  rw [Outcome.done.injEq] at same
  obtain ⟨-, rfl⟩ := same
  exact ⟨rfl, rfl, rep⟩

/-- A process is made, and can be switched to. -/
theorem spawn_fourMegabytes : Allowed 131073 (.spawn ⟨0, .null, 0, 0⟩ 0x3000 10) (fourMegabytes m₀) ∧
    ∃ o t h' r, perform 131073 (.spawn ⟨0, .null, 0, 0⟩ 0x3000 10) (atRest (fourMegabytes m₀)) = .done o t ∧
      Contexts 0x100 (fourMegabytes m₀) (Heap.init megabyte) [(.spawn ⟨0, .null, 0, 0⟩ 0x3000 10, o)] t h' [(1, r)] ∧
      t.cur = 0 ∧ t.regs = (atRest (fourMegabytes m₀)).regs ∧ o.pid = 1 ∧ o.regs.InUser ∧ ¬t.Ending := by
  have hosts := hosts_fourMegabytes init
  have spared := spared_fourMegabytes m₀ 1
  have idle := idle_fourMegabytes m₀
  have apart := apart_megabyte
  have short : (10 : UInt32).toNat + dataLen.toNat < 4194304 - 4096 := by decide
  have list : freeList (fourMegabytes m₀) = 512 :: List.range' 513 511 := freeList_fourMegabytes m₀
  obtain ⟨b, c, d, e, g, h₂, h', blocks⟩ := blocks_megabyte
  obtain ⟨as, v, m, q, t, built, created, made⟩ := createProcess_room ⟨0, .null, 0, 0⟩ 0x3000
    hosts (show megabyte.length.toNat / 8 < 131073 by decide) spared (le_refl 1) (by decide) list
    (by rw [List.length_range']; decide) blocks
    fun k late inside => absurd inside (by
      have few : numFrames (10 + dataLen) = 17 := by decide
      omega)
  have found : nullEntry t = some 1 := by
    unfold nullEntry
    rw [created.proctab built]
    rfl
  obtain ⟨u, added⟩ := schedAdd_room found (p := q) (by
    rw [created.process]
    exact blocks.valid.2.1)
  have joined := created.joined built added found
  have rest : Contexts 0x100 (fourMegabytes m₀) (Heap.init megabyte) [] (atRest (fourMegabytes m₀))
      (Heap.init megabyte) [] := Contexts.first (atRest (fourMegabytes m₀)) hosts idle rfl rfl rfl
  have contexts := rest.born 0x3000 ⟨0, .null, 0, 0⟩ spared short built blocks created added found
  have run := spawn_performed (s := atRest (fourMegabytes m₀)) (made goOn) added found
  have lives := rest.lives.entered built created added found spared (numFrames_lt short) blocks
  have starts : (Tasks.regsOf 1 { atRest (fourMegabytes m₀) with machine := u }).InUser := by
    rw [rest.joined_new spared short built blocks created joined lives]
    exact created.user.1
  refine ⟨⟨short, q, t, u, made goOn, added⟩, _, _, h', _, run, contexts, congrArg UInt32.toNat joined.cur, rfl, rfl,
    starts, fun ending => ?_⟩
  -- what the processor reads was never written
  have clear (i : UInt32) (last : i.toNat = 24 ∨ i.toNat = 25) : u.mem.load (g.addr + 8 + 4 * i) = 0 := by
    have slot := blocks.slots.2.2.2.2
    have long := blocks.lens.2.2.2.2
    have place := h'.layout.word_toNat slot (i := i) (by omega)
    have lower := h'.layout.addr_bounds slot
    have past := h'.layout.past_le slot
    have base : megabyte.base.toNat = 0x100000 := by decide
    unfold Slot.past at past
    have zero : ∀ x : UInt32, (g.addr + 8 + 4 * i).toNat ≤ x.toNat → x.toNat < (g.addr + 8 + 4 * i).toNat + 4 →
        u.mem x = 0 := by
      intro x first behind
      have data : g.Has x := by
        unfold Slot.Has Slot.past
        omega
      have kept : t.mem x = m₀ x := by
        apply created.unset_kept built blocks spared (le_refl 1) (by decide) data
        intro field listed
        have other : field.1.toNat < 24 := by
          revert field
          simp [tssFields]
        omega
      rw [joined.mem, kept]
      exact megabyte_above init (by omega)
    rw [Mem.load_congr (m := fun _ => 0) (by omega) zero]
    rfl
  have runs : Runnable u 1 = true := by
    unfold Runnable
    rw [joined.self]
    rfl
  obtain ⟨x, first⟩ := @first_runnable schedMaxProcs u ⟨1, by decide, runs⟩
  obtain ⟨r, member⟩ := (contexts.due apart).upcoming_listed first
  obtain ⟨rfl, rfl⟩ := Prod.mk.inj (List.mem_singleton.mp member)
  have rejected := (ending 1 first).2
  rw [contexts.tssOf_eq member] at rejected
  change Rejected u.mem (g.addr + 8) at rejected
  unfold Rejected at rejected
  rw [clear ldtField (Or.inl rfl), clear traceField (Or.inr rfl)] at rejected
  revert rejected
  decide

/-- The timer calls the scheduler, which switches to it. -/
theorem tick_fourMegabytes : Allowed 131073 (.spawn ⟨0, .null, 0, 0⟩ 0x3000 10) (fourMegabytes m₀) ∧
    ∃ o s t h' r, perform 131073 (.spawn ⟨0, .null, 0, 0⟩ 0x3000 10) (atRest (fourMegabytes m₀)) = .done o s ∧
      s.regs.InKernel ∧ perform 131073 .tick s = .done (t.seen t.cur) t ∧ t.cur = 1 ∧ t.regs.InUser ∧
      Contexts 0x100 (fourMegabytes m₀) (Heap.init megabyte)
        [(.tick, t.seen t.cur), (.spawn ⟨0, .null, 0, 0⟩ 0x3000 10, o)] t h' [(1, r)] := by
  obtain ⟨allow, o, s, h', r, made, contexts, kernel, regs, pid, user, goes⟩ := spawn_fourMegabytes init
  have apart := apart_megabyte
  have inKernel : s.regs.InKernel := by
    rw [regs]
    exact ⟨rfl, rfl⟩
  rcases (contexts.due apart).settled 0x100 with ⟨t, switch, onward, contexts', -⟩ | ⟨-, ends⟩
  · have here : t.cur = 1 := by
      rcases onward with ⟨-, q, member⟩ | ⟨c, q, member, -, rfl⟩
      · exact absurd kernel (contexts.ne_zero member)
      · exact congrArg Prod.fst (List.mem_singleton.mp member)
    have last := (contexts'.last (r := r) (here ▸ List.mem_cons_self)).1
    have first : lastRegs t.cur [(.spawn ⟨0, .null, 0, 0⟩ 0x3000 10, o)] = some o.regs :=
      if_pos (pid.trans here.symm)
    have same : some o.regs = some t.regs := first.symm.trans last
    refine ⟨allow, o, s, t, h', r, made, inKernel, Prog.bind_done _ switch, here, ?_, contexts'.logged fun _ => rfl⟩
    rw [← Option.some.inj same]
    exact user
  · exact absurd ends goes

end

end

end Sos.Kernel
