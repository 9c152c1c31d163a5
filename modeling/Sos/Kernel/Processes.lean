import Sos.Kernel.Lifecycle
import Sos.Kernel.Mapping

/-! Every sequence of processes made, scheduled and killed keeps the accounts of frames and
blocks in order. -/

namespace Sos.Kernel
open Sos.Lib Machine

/-- There is no process yet. -/
structure Idle (s : Machine) : Prop where
  cur : s.curproc.toNat < 4
  null : ∀ i, i < 4 → (s.proctab i).status = .null

section
variable {R : Region} {s₀ s : Machine} {h₀ h : Heap R} {own : List (Nat × Owned)} {fuel : Nat}

theorem Idle.lives (idle : Idle s₀) (hosts : Hosts s₀ h₀) : Lives s₀ h₀ s₀ h₀ [] where
  hosts := hosts
  kernel := ⟨rfl, rfl⟩
  cur := idle.cur
  small := fun _ _ member => absurd member List.not_mem_nil
  pid := fun _ _ member => absurd member List.not_mem_nil
  records := fun _ _ member => absurd member List.not_mem_nil
  live := fun i small => iff_of_false (fun live => live (idle.null i small))
    fun ⟨_, member⟩ => absurd member List.not_mem_nil
  once := List.nodup_nil
  frames := List.nodup_nil
  free := fun _ member => absurd member List.not_mem_nil
  owned := fun _ member => absurd member List.not_mem_nil
  others := fun _ _ => ⟨rfl, Or.inl rfl⟩
  used := List.Perm.refl _

/-- A program of less than 4 MB, its data and a page needs one page table. -/
theorem numFrames_lt {tLen : UInt32} (short : tLen.toNat + dataLen.toNat < 4194304 - 4096) :
    numFrames (tLen + dataLen) < 1024 := by
  unfold numFrames
  rw [UInt32.toNat_add]
  omega

namespace Lives
variable (lives : Lives s₀ h₀ s h own)
include lives

theorem spawned (spared₀ : Spared R s₀ 1) (steps : R.length.toNat / 8 < fuel) {p : Process}
    {text tLen : UInt32} (allow : Allowed fuel (.spawn p text tLen) s) : ∃ t,
      (∀ unheld, obey unheld fuel (.spawn p text tLen) s = .done () t) ∧
      ∃ h' i r, i < 4 ∧ Lives s₀ h₀ t h' ((i, r) :: own) := by
  obtain ⟨short, q, t, u, made, added⟩ := allow
  have few := numFrames_lt short
  obtain ⟨as, v, b, c, d, e, g, h₂, h', m, pd, fs, built, blocks, created, again⟩ :=
    createProcess_created lives.hosts steps (lives.spared spared₀) few made
  obtain ⟨i, gdt, small, null, rfl⟩ := schedAdd_done added
  rw [created.proctab built] at null
  refine ⟨_, ?_, h', i, _, small, lives.born spared₀ few built blocks created small null gdt⟩
  intro unheld
  rw [obey, Prog.bind_done _ (again unheld)]
  exact Prog.bind_done _ added

theorem dead (spared₀ : Spared R s₀ 1) (steps : R.length.toNat / 8 < fuel) {pid : UInt32}
    (allow : Allowed fuel (.kill pid) s) : ∃ t, (∀ unheld, obey unheld fuel (.kill pid) s = .done () t) ∧
      ∃ h' own', Lives s₀ h₀ t h' own' := by
  obtain ⟨small, live⟩ := allow
  obtain ⟨r, member⟩ := (lives.live pid.toNat small).mp live
  obtain ⟨rest, perm, -, blocks⟩ := lives.split member
  have used : h.used.Perm (r.blocks ++ (ownedBlocks rest ++ h₀.used)) := by
    rw [← List.append_assoc]
    exact lives.used.trans (blocks.append_right h₀.used)
  obtain ⟨h', m, run, hosts', used', kept⟩ := processKill_done schedMaxProcs small
    (lives.records _ r member) (lives.exclusive member (lives.spared spared₀).count) lives.hosts steps used
  have killed := lives.killed member (m := m) hosts' perm used' kept
  obtain ⟨exit, c, gdt, below, next⟩ := schedule_done schedMaxProcs killed.cur
  refine ⟨_, ?_, h', rest, killed.switched below gdt⟩
  intro unheld
  exact Prog.bind_done _ ((run unheld).trans next)

theorem ticked (fuel : Nat) : ∃ t, (∀ unheld, obey unheld fuel .tick s = .done () t) ∧
    Lives s₀ h₀ t h own := by
  obtain ⟨exit, c, gdt, below, run⟩ := schedule_done schedMaxProcs lives.cur
  exact ⟨_, fun _ => Prog.bind_done _ run, lives.switched below gdt⟩

/-- Every order that is allowed is carried out, whatever would happen at a free of
something that is not held. -/
theorem obeyed (spared₀ : Spared R s₀ 1) (steps : R.length.toNat / 8 < fuel) {o : Order}
    (allow : Allowed fuel o s) : ∃ t, (∀ unheld, obey unheld fuel o s = .done () t) ∧
      ∃ h' own', Lives s₀ h₀ t h' own' := by
  cases o with
  | spawn p text tLen =>
    obtain ⟨t, run, h', i, r, -, lives'⟩ := lives.spawned spared₀ steps allow
    exact ⟨t, run, h', _, lives'⟩
  | kill pid => exact lives.dead spared₀ steps allow
  | tick =>
    obtain ⟨t, run, lives'⟩ := lives.ticked fuel
    exact ⟨t, run, h, own, lives'⟩

/-- Without a process nothing is owned, and all is as it was. -/
theorem returned (ended : ∀ i, i < 4 → (s.proctab i).status = .null) : h.used.Perm h₀.used ∧
    (∀ f, (s.frameMap f).count = (s₀.frameMap f).count) ∧
    ((∀ f, f ∈ freeList s₀ → (s₀.frameMap f).ns = false) → s.frameMap = s₀.frameMap) := by
  have none : own = [] := by
    refine List.eq_nil_iff_forall_not_mem.mpr ?_
    rintro ⟨i, r⟩ member
    have small := lives.small i r member
    exact (lives.live i small).mpr ⟨r, member⟩ (ended i small)
  subst none
  have others := fun f => lives.others f List.not_mem_nil
  refine ⟨lives.used, fun f => (others f).1, ?_⟩
  intro clear
  funext f
  obtain ⟨count, same | ⟨free, now⟩⟩ := others f
  · exact Frame.ext same count
  · exact Frame.ext (now.trans (clear f free).symm) count

end Lives

/-- What the table, the frame map and the heap have to do with the processes `own`. -/
structure Accounts {R : Region} (fuel : Nat) (s₀ : Machine) (h₀ : Heap R) (s : Machine) (h : Heap R)
    (own : List (Nat × Owned)) : Prop where
  hosts : Hosts s h
  live : ∀ i, i < 4 → ((s.proctab i).status ≠ .null ↔ ∃ r, (i, r) ∈ own)
  once : (own.map Prod.fst).Nodup
  entry : ∀ i r, (i, r) ∈ own → (s.proctab i).pid = UInt32.ofNat i ∧ Records s (s.proctab i) r
  frames : (ownedFrames own).Nodup
  counted : ∀ f, f ∈ ownedFrames own → f < s.frameCount.toNat ∧ (s.frameMap f).count = 1
  blocks : (ownedBlocks own).Nodup
  used : ∀ b, b ∈ ownedBlocks own → b ∈ h.used
  /-- Nothing that is not held is freed: what would happen then makes no difference. -/
  held : ∀ o, Allowed fuel o s → ∃ t, ∀ unheld, obey unheld fuel o s = .done () t
  /-- A frame that is handed out loses its mark, which no free frame needs to have. -/
  returned : (∀ i, i < 4 → (s.proctab i).status = .null) → h.used.Perm h₀.used ∧
    (∀ f, (s.frameMap f).count = (s₀.frameMap f).count) ∧
    ((∀ f, f ∈ freeList s₀ → (s₀.frameMap f).ns = false) → s.frameMap = s₀.frameMap)

theorem Lives.accounts (lives : Lives s₀ h₀ s h own) (spared : Spared R s₀ 1)
    (steps : R.length.toNat / 8 < fuel) : Accounts fuel s₀ h₀ s h own where
  hosts := lives.hosts
  live := lives.live
  once := lives.once
  entry := fun i r member => ⟨lives.pid i r member, lives.records i r member⟩
  frames := lives.frames
  counted := by
    intro f mine
    rw [lives.kernel.1, lives.owned f mine]
    exact ⟨(mem_freeList (lives.free f mine)).1, rfl⟩
  blocks := by
    have nodup := (List.nodup_append.mp h.layout.1.nodup).2.1
    exact (List.nodup_append.mp (lives.used.nodup_iff.mp nodup)).1
  used := fun b mine => lives.used.mem_iff.mpr (List.mem_append_left h₀.used mine)
  held := by
    intro o allow
    obtain ⟨t, run, -⟩ := lives.obeyed spared steps allow
    exact ⟨t, run⟩
  returned := lives.returned

/-- After every sequence of processes made, killed and scheduled, each live process has
frames and blocks of its own, and after the last one was killed they are back. -/
theorem lifecycle_accounts {log : List (Order × Unit)} (hosts : Hosts s₀ h₀)
    (steps : R.length.toNat / 8 < fuel) (spared : Spared R s₀ 1) (idle : Idle s₀)
    (runs : Runs (obey goOn fuel) (Allowed fuel) s₀ log s) : ∃ h own, Accounts fuel s₀ h₀ s h own := by
  have kept : ∃ h own, Lives s₀ h₀ s h own := by
    refine runs.invariant (fun _ s => ∃ h own, Lives s₀ h₀ s h own) ⟨h₀, [], idle.lives hosts⟩ ?_
    rintro log s o ⟨⟩ t ⟨h, own, lives⟩ allow run
    obtain ⟨u, run', h', own', lives'⟩ := lives.obeyed spared steps allow
    have same := run.symm.trans (run' goOn)
    rw [Outcome.done.injEq] at same
    rw [same.2]
    exact ⟨h', own', lives'⟩
  obtain ⟨h, own, lives⟩ := kept
  exact ⟨h, own, lives.accounts spared steps⟩

end

theorem blocks_megabyte : ∃ b c d e g h₂ h', Blocks (Heap.init megabyte) (10 + dataLen) b c d e g h₂ h' := by
  have all : (((((Heap.init megabyte).request 68).bind fun r => r.2.request 4).bind fun r =>
      r.2.request 20).bind fun r => r.2.request 4).bind (fun r => r.2.request tssSize) ≠ none := by
    decide +kernel
  obtain ⟨⟨g, h'⟩, all⟩ := Option.ne_none_iff_exists'.mp all
  obtain ⟨⟨e, h₄⟩, all, fifth⟩ := Option.bind_eq_some_iff.mp all
  obtain ⟨⟨d, h₃⟩, all, fourth⟩ := Option.bind_eq_some_iff.mp all
  obtain ⟨⟨c, h₂⟩, all, third⟩ := Option.bind_eq_some_iff.mp all
  obtain ⟨⟨b, h₁⟩, first, second⟩ := Option.bind_eq_some_iff.mp all
  exact ⟨b, c, d, e, g, h₂, h', ⟨h₁, first, second⟩, h₃, h₄, third, fourth, fifth⟩

theorem lifecycle_accounts_pair : ∃ m₀ log s h own,
    initAlloc 0x100000 0x100000 (fun _ => 0xFF) = .done retSuccess m₀ ∧
    Runs (obey goOn 131073) (Allowed 131073) (fourMegabytes m₀) log s ∧ log.length = 2 ∧
    Accounts 131073 (fourMegabytes m₀) (Heap.init megabyte) s h own := by
  obtain ⟨m₀, init, rep⟩ := initAlloc_done megabyte fun _ => 0xFF
  have hosts : Hosts (fourMegabytes m₀) (Heap.init megabyte) := ⟨rfl, rfl, rep⟩
  have steps : megabyte.length.toNat / 8 < 131073 := by decide
  have spared := spared_fourMegabytes m₀ 1
  have idle : Idle (fourMegabytes m₀) := ⟨show (0 : UInt32).toNat < 4 by decide, fun _ _ => rfl⟩
  have list : freeList (fourMegabytes m₀) = 512 :: List.range' 513 511 := freeList_fourMegabytes m₀
  obtain ⟨b, c, d, e, g, h₂, h', blocks⟩ := blocks_megabyte
  obtain ⟨as, u, m, q, t, built, created, made⟩ := createProcess_room ⟨0, .null, 0, 0⟩ 0x3000
    hosts steps spared (le_refl 1) (by decide) list (by rw [List.length_range']; decide) blocks
    fun k late inside => absurd inside (by
      have few : numFrames (10 + dataLen) = 17 := by decide
      omega)
  have found : nullEntry t = some 1 := by
    unfold nullEntry
    rw [created.proctab built]
    rfl
  obtain ⟨u', added⟩ := schedAdd_room found (p := q) (by
    rw [created.process]
    exact blocks.valid.2.1)
  have allow : Allowed 131073 (.spawn ⟨0, .null, 0, 0⟩ 0x3000 10) (fourMegabytes m₀) :=
    ⟨by decide, q, t, u', made goOn, added⟩
  obtain ⟨s₁, run₁, h₁, i, r, small, lives₁⟩ := (idle.lives hosts).spawned spared steps allow
  have index : (UInt32.ofNat i).toNat = i := by
    rw [UInt32.toNat_ofNat']
    omega
  have allow' : Allowed 131073 (.kill (UInt32.ofNat i)) s₁ := by
    change (UInt32.ofNat i).toNat < 4 ∧ (s₁.proctab (UInt32.ofNat i).toNat).status ≠ .null
    rw [index]
    exact ⟨small, (lives₁.live i small).mpr ⟨r, List.mem_cons_self⟩⟩
  obtain ⟨s₂, run₂, -⟩ := lives₁.dead spared steps allow'
  have runs := (Runs.nil.call allow (run₁ goOn)).call allow' (run₂ goOn)
  obtain ⟨h, own, accounts⟩ := lifecycle_accounts hosts steps spared idle runs
  exact ⟨m₀, _, s₂, h, own, init, runs, rfl, accounts⟩

end Sos.Kernel
