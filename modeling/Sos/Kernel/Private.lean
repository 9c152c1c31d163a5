import Sos.Kernel.Stacks

/-! The memory of a process: whatever the others do, it finds there what it wrote itself, and what was pushed for it
when it was interrupted. -/

namespace Sos.Kernel
open Sos.Lib Sos.Lib.Stack Machine Tasks

theorem jumped_cur (s : Tasks) (c tss : UInt32) : (s.jumped c tss).cur = c.toNat := rfl

theorem jumped_cr3 (s : Tasks) (c tss : UInt32) :
    (s.jumped c tss).cr3 = (s.jumped c tss).machine.mem.load (tss + 4 * cr3Field) := rfl

section
variable {R : Region} {sys : UInt32} {s₀ : Machine} {h₀ h h' : Heap R} {log : List (Turn × Seen)} {s t : Tasks}
  {own own' : List (Nat × Owned)} {top : Nat → UInt32} {found : Nat → View}

/-- Every process has its pages under its addresses, and its stack in the kernel. -/
structure Placed (top : Nat → UInt32) (s : Tasks) (own : List (Nat × Owned)) : Prop where
  mapped : ∀ i r, (i, r) ∈ own → Mapped s.machine.mem r
  task : ∀ i r, (i, r) ∈ own → s.machine.mem.load (r.tss.addr + 8 + 4 * cr3Field) = frameAddr r.dir
  now : ∀ r, (s.cur, r) ∈ own → s.cr3 = frameAddr r.dir
  stack : ∀ i r, (i, r) ∈ own → s.machine.mem.load (r.tss.addr + 8 + 4 * esp0Field) = top i

/-- What is found in its pages. -/
structure Walled (top : Nat → UInt32) (found : Nat → View) (s : Tasks) (own : List (Nat × Owned)) : Prop extends
    Placed top s own where
  bytes : ∀ i r, (i, r) ∈ own → ∀ k f, r.pages[k]? = some f → ∀ o, o < 4096 →
    found i (pageByte k o) = some (s.machine.mem (frameAddr f + UInt32.ofNat o))

theorem mem_ownedFrames {i : Nat} {r : Owned} (member : (i, r) ∈ own) {f : Nat} (mine : f ∈ r.frames) :
    f ∈ ownedFrames own := List.mem_flatMap.mpr ⟨_, member, mine⟩

/-- The frames of a process, as numbers. -/
theorem Lives.frames_small {m : Machine} (lives : Lives s₀ h₀ m h own) (spared : Spared R s₀ 1) {i : Nat} {r : Owned}
    (member : (i, r) ∈ own) : ∀ f, f ∈ r.frames → f < 1048576 :=
  fun f mine => spared.small (lives.free f (mem_ownedFrames member mine))

/-- What a process finds under an address of its own. -/
theorem Placed.byteOf_eq (placed : Placed top s own) (gated : Gated s₀ h₀ s h own) (spared : Spared R s₀ 1)
    {i k f : Nat} {r : Owned} (member : (i, r) ∈ own) (listed : r.pages[k]? = some f) {o : Nat} (short : o < 4096) :
    s.byteOf i (pageByte k o) = some (s.machine.mem (frameAddr f + UInt32.ofNat o)) := by
  have small := gated.lives.frames_small spared member
  have few := (gated.lives.records i r member).few
  have inside := (List.getElem?_eq_some_iff.mp listed).1
  have page : f ∈ r.frames := by simp [Owned.frames, List.mem_of_getElem? listed]
  have directory : s.cr3Of i = frameAddr r.dir := by
    unfold cr3Of
    by_cases now : s.cur = i
    · subst now
      rw [if_pos rfl, placed.now r member]
    · rw [if_neg now, gated.tssOf_eq member, placed.task i r member]
  rw [byteOf, directory, (placed.mapped i r member).walk (small _ (by simp [Owned.frames])) listed (by omega)
    (small f page) short, Option.map_some, pageByte_offset (by omega) short]

namespace Walled

/-- It stays so for as long as the frames do. -/
theorem kept (walled : Walled top found s own) (lives : Lives s₀ h₀ s.machine h own) (spared : Spared R s₀ 1)
    (sub : ∀ e, e ∈ own' → e ∈ own)
    (frames : ∀ f, f ∈ ownedFrames own' → ∀ x, InFrame f x → t.machine.mem x = s.machine.mem x)
    (words : ∀ i r, (i, r) ∈ own' → ∀ field : UInt32, field.toNat < 8 →
      t.machine.mem.load (r.tss.addr + 8 + 4 * field) = s.machine.mem.load (r.tss.addr + 8 + 4 * field))
    (now : ∀ r, (t.cur, r) ∈ own' → t.cr3 = frameAddr r.dir) : Walled top found t own' where
  mapped := by
    intro i r member
    have small := lives.frames_small spared (sub _ member)
    have few := (lives.records i r (sub _ member)).few
    refine (walled.mapped i r (sub _ member)).congr few.le (small _ (by simp [Owned.frames]))
      (small _ (by simp [Owned.frames])) fun f mine => frames f (mem_ownedFrames member ?_)
    rcases mine with rfl | rfl
    all_goals simp [Owned.frames]
  task := fun i r member => (words i r member cr3Field (by decide)).trans (walled.task i r (sub _ member))
  now := now
  stack := fun i r member => (words i r member esp0Field (by decide)).trans (walled.stack i r (sub _ member))
  bytes := by
    intro i r member k f listed o short
    have page : f ∈ r.frames := by simp [Owned.frames, List.mem_of_getElem? listed]
    have place := frameByte_toNat (lives.frames_small spared (sub _ member) f page) short
    rw [walled.bytes i r (sub _ member) k f listed o short]
    exact congrArg some (frames f (mem_ownedFrames member page) _ ⟨by omega, by omega⟩).symm

variable (walled : Walled top found s own)
include walled

/-- The jump saves registers outside the frames, and finds the directory of the other process. -/
theorem jumped (due : Due s₀ h₀ log s h own) (spared : Spared R s₀ 1)
    (clear : ∀ f, f ∈ freeList s₀ → ∀ x, InFrame f x → ¬TssByte s.tss x) {c : UInt32} {r : Owned}
    (member : (c.toNat, r) ∈ own) : Walled top found (s.jumped c (r.tss.addr + 8)) own := by
  have words : ∀ i q, (i, q) ∈ own → ∀ field : UInt32, field.toNat < 8 →
      (s.jumped c (r.tss.addr + 8)).machine.mem.load (q.tss.addr + 8 + 4 * field) =
        s.machine.mem.load (q.tss.addr + 8 + 4 * field) :=
    fun i q listed field small => due.word_kept listed (Or.inl small)
  refine walled.kept due.lives spared (fun _ listed => listed) ?_ words ?_
  · exact fun f mine x inside => due.mem_kept (clear f (due.lives.free f mine) x inside)
  · intro q listed
    rw [jumped_cur] at listed
    obtain rfl := due.lives.unique member listed
    rw [jumped_cr3, words c.toNat r member cr3Field (by decide), walled.task _ r member]

omit walled in
theorem withRegs (walled : Walled top found s own) (regs : Registers) :
    Walled top found { s with regs := regs } own :=
  ⟨⟨walled.mapped, walled.task, walled.now, walled.stack⟩, walled.bytes⟩

theorem onward (due : Due s₀ h₀ log s h own) (spared : Spared R s₀ 1)
    (clear : ∀ f, f ∈ freeList s₀ → ∀ x, InFrame f x → ¬TssByte s.tss x) (next : Onward own s t) :
    Walled top found t own := by
  rcases next with ⟨rfl, -⟩ | ⟨c, r, member, -, rfl⟩
  · exact walled
  · exact walled.jumped due spared clear member

end Walled

/-- A frame has one owner, and is one thing to it. -/
theorem Lives.owner {m : Machine} (lives : Lives s₀ h₀ m h own) {i k f : Nat} {r q : Owned} (first : (i, r) ∈ own)
    (second : (k, q) ∈ own) (mine : f ∈ r.frames) (its : f ∈ q.frames) : (k, q) = (i, r) := by
  obtain ⟨rest, perm, frames, -⟩ := lives.split first
  obtain ⟨-, -, apart⟩ := List.nodup_append.mp (frames.nodup_iff.mp lives.frames)
  rcases List.mem_cons.mp (perm.mem_iff.mp second) with same | other
  · exact same
  · exact absurd rfl (apart f mine f (mem_ownedFrames other its))

theorem Lives.frames_once {m : Machine} (lives : Lives s₀ h₀ m h own) {i : Nat} {r : Owned} (member : (i, r) ∈ own) :
    r.pages.Nodup ∧ r.dir ∉ r.pages ∧ r.table ∉ r.pages := by
  obtain ⟨rest, -, frames, -⟩ := lives.split member
  have once : r.frames.Nodup := (List.nodup_append.mp (frames.nodup_iff.mp lives.frames)).1
  rw [Owned.frames] at once
  obtain ⟨init, -, last⟩ := List.nodup_append.mp once
  obtain ⟨pages, -, table⟩ := List.nodup_append.mp init
  refine ⟨pages, fun mine => ?_, fun mine => ?_⟩
  · exact last _ (List.mem_append_left _ mine) _ (List.mem_singleton_self _) rfl
  · exact table _ mine _ (List.mem_singleton_self _) rfl

theorem pageByte_inj {j k o o' : Nat} (few : j < 1024) (few' : k < 1024) (short : o < 4096) (short' : o' < 4096)
    (same : pageByte j o = pageByte k o') : j = k ∧ o = o' := by
  have first := user_address (k := j) (o := o) (by omega) short
  have second := user_address (k := k) (o := o') (by omega) short'
  unfold pageByte at same
  rw [same] at first
  omega

/-- One byte of its pages is changed for a process. -/
theorem Walled.wrote (walled : Walled top found s own) (lives : Lives s₀ h₀ s.machine h own) (spared : Spared R s₀ 1)
    {k f o : Nat} {r : Owned} (member : (s.cur, r) ∈ own) (listed : r.pages[k]? = some f) (short : o < 4096)
    (v : UInt8) (outside : ∀ i q, (i, q) ∈ own → ∀ x, q.tss.Has x → ¬InFrame f x)
    (long : ∀ i q, (i, q) ∈ own → q.tss.len.toNat = 104) :
    Walled top (Function.update found s.cur ((found s.cur).after [(pageByte k o, v)]))
      (s.stored (frameAddr f + UInt32.ofNat o) v) own := by
  have page : f ∈ r.frames := by simp [Owned.frames, List.mem_of_getElem? listed]
  have small := lives.frames_small spared member f page
  have place := frameByte_toNat small short
  have few := (lives.records _ r member).few
  have inside := (List.getElem?_eq_some_iff.mp listed).1
  have kept : ∀ x, ¬InFrame f x → (if x = frameAddr f + UInt32.ofNat o then v else s.machine.mem x) =
      s.machine.mem x := by
    intro x off
    apply if_neg
    rintro rfl
    exact off ⟨by omega, by omega⟩
  have other : ∀ {g x}, InFrame g x → g ≠ f → ¬InFrame f x := by
    rintro g x ⟨lower, upper⟩ differ ⟨lower', upper'⟩
    omega
  have words : ∀ i q, (i, q) ∈ own → ∀ field : UInt32, field.toNat < 8 →
      (s.stored (frameAddr f + UInt32.ofNat o) v).machine.mem.load (q.tss.addr + 8 + 4 * field) =
        s.machine.mem.load (q.tss.addr + 8 + 4 * field) := by
    intro i q listed' field small
    have slot : q.tss ∈ h.free ++ h.used := List.mem_append_right _ (lives.used_of listed' mem_tss)
    apply h.layout.word_kept slot _ fun x data => kept x (outside i q listed' x data)
    rw [long i q listed']
    omega
  refine ⟨⟨?_, ?_, walled.now, ?_⟩, ?_⟩
  · intro i q listed'
    have smallQ := lives.frames_small spared listed'
    obtain ⟨-, dir, table⟩ := lives.frames_once listed'
    refine (walled.mapped i q listed').congr (lives.records i q listed').few.le (smallQ _ (by simp [Owned.frames]))
      (smallQ _ (by simp [Owned.frames])) fun g mine x within => kept x (other within ?_)
    rintro rfl
    have its : g ∈ q.frames := by
      rcases mine with rfl | rfl
      all_goals simp [Owned.frames]
    obtain ⟨rfl, rfl⟩ := Prod.mk.inj (lives.owner member listed' page its)
    rcases mine with rfl | rfl
    · exact dir (List.mem_of_getElem? listed)
    · exact table (List.mem_of_getElem? listed)
  · exact fun i q listed' => (words i q listed' cr3Field (by decide)).trans (walled.task i q listed')
  · exact fun i q listed' => (words i q listed' esp0Field (by decide)).trans (walled.stack i q listed')
  · intro i q listed' j g at_ o' short'
    have its : g ∈ q.frames := by simp [Owned.frames, List.mem_of_getElem? at_]
    have place' := frameByte_toNat (lives.frames_small spared listed' g its) short'
    have fewQ := (lives.records i q listed').few
    have insideQ := (List.getElem?_eq_some_iff.mp at_).1
    have old := walled.bytes i q listed' j g at_ o' short'
    -- another byte lies under another address of its owner
    have unchanged (differ : ¬(s.cur = i ∧ pageByte k o = pageByte j o')) :
        (s.stored (frameAddr f + UInt32.ofNat o) v).machine.mem (frameAddr g + UInt32.ofNat o') =
          s.machine.mem (frameAddr g + UInt32.ofNat o') := by
      apply if_neg
      intro equal
      rw [equal] at place'
      obtain rfl : g = f := by omega
      obtain rfl : o' = o := by omega
      obtain ⟨rfl, rfl⟩ := Prod.mk.inj (lives.owner member listed' page its)
      have once := (lives.frames_once member).1
      rw [(List.getElem?_inj inside once).mp (listed.trans at_.symm)] at differ
      exact differ ⟨rfl, rfl⟩
    by_cases cur : s.cur = i
    · subst cur
      rw [Function.update_self]
      by_cases here : pageByte k o = pageByte j o'
      · obtain rfl := lives.unique member listed'
        obtain ⟨rfl, rfl⟩ := pageByte_inj (by omega) (by omega) short short' here
        rw [listed, Option.some.injEq] at at_
        rw [← at_]
        exact (Function.update_self _ _ _).trans (congrArg some (if_pos rfl).symm)
      · rw [unchanged fun same => here same.2, ← old]
        exact Function.update_of_ne (Ne.symm here) _ _
    · rw [unchanged fun same => cur same.1, ← old, Function.update_of_ne (Ne.symm cur)]

/-- The kernel's own `tss_t` is neither in the heap nor in a frame that is free at first. -/
structure Remote {R : Region} (sys : UInt32) (s₀ : Machine) : Prop extends Apart R sys where
  spared : Spared R s₀ 1
  frames : ∀ f, f ∈ freeList s₀ → ∀ x, InFrame f x → ¬TssByte sys x

/-- How many pages a process has. -/
def Tasks.numPages (i : Nat) (s : Tasks) : Nat :=
  (s.machine.mem.load ((s.machine.proctab i).addrSpace + 4 * 1)).toNat

theorem Lives.numPages (lives : Lives s₀ h₀ s.machine h own) {i : Nat} {r : Owned} (member : (i, r) ∈ own) :
    s.numPages i = r.pages.length := by
  have records := lives.records i r member
  have few := records.few
  rw [Tasks.numPages, records.addrSpace, records.fields (1, UInt32.ofNat r.pages.length) (by
    simp [spaceFields, Owned.addrSpace]), UInt32.toNat_ofNat']
  omega

/-- A process is made where no one has the frame behind any of its pages. In ring 3 a process writes to its pages;
in ring 0 what is stored for it lies below the frame, in the kernel's part of its data, and it returns when that is
taken off. -/
def Polite (fuel : Nat) : Turn → Tasks → Prop
  | .spawn p text tLen, s => s.regs.InKernel ∧ Allowed fuel (.spawn p text tLen) s.machine ∧
      ∀ k, k < numFrames (tLen + dataLen) → (s.machine.frameMap (dataFrame s.machine k + 1)).count = 0
  | .interrupt _, s => s.Live ∧ s.regs.InUser
  | .store va _, s => s.Live ∧ s.regs.InKernel ∧ Beneath (s.stackOf s.cur - 48) (kernelStack - 48) va
  | .exit, s => s.Live ∧ s.regs.InKernel
  | .tick, s => s.regs.InKernel
  | .iret, s => s.Live ∧ s.regs.InKernel ∧ s.regs.esp = s.stackOf s.cur - 48
  | .work regs, s => Computes regs s
  | .write va _, s => s.Live ∧ s.regs.InUser ∧ ∃ k o, k < s.numPages s.cur ∧ o < 4096 ∧ va = pageByte k o

/-- What holds in every run of such turns. -/
structure Secluded {R : Region} (sys : UInt32) (s₀ : Machine) (h₀ : Heap R) (log : List (Turn × Seen)) (s : Tasks)
    (h : Heap R) (own : List (Nat × Owned)) (top : Nat → UInt32) : Prop extends Contexts sys s₀ h₀ log s h own where
  walled : Walled top (lastStored log) s own
  framed : ∀ i r, (i, r) ∈ own → Framed (top i) log i

section
variable (contexts : Contexts sys s₀ h₀ log s h own) (walled : Walled top found s own)
  (remote : Remote (R := R) sys s₀)
include contexts remote

theorem Contexts.off_frames : ∀ f, f ∈ freeList s₀ → ∀ x, InFrame f x → ¬TssByte s.tss x := by
  intro f free x inside byte
  rcases contexts.runs with ⟨-, tss⟩ | ⟨r, member, tss⟩
  · rw [tss] at byte
    exact remote.frames f free x inside byte
  · rw [tss, (contexts.tss_place member).2.2.2] at byte
    have slot : r.tss ∈ h.free ++ h.used := List.mem_append_right _ (contexts.lives.used_of member mem_tss)
    exact outside_block h.layout slot (frame_outside remote.spared free inside) byte

include walled

/-- When the current process is gone the others have what they had. -/
theorem Walled.killed {r : Owned} {rest : List (Nat × Owned)} {m : Mem} (perm : own.Perm ((s.cur, r) :: rest))
    (due : Due s₀ h₀ log { s with machine := s.machine.killed s.cur r m } h' rest)
    (touches : Touches R (h.free ++ h.used) s.machine.mem m)
    (kept : ∀ b, b ∈ h'.used → ∀ x, b.Has x → m x = s.machine.mem x) :
    Walled top found { s with machine := s.machine.killed s.cur r m } rest := by
  have old : ∀ e, e ∈ rest → e ∈ own := fun _ listed => perm.mem_iff.mpr (List.mem_cons_of_mem _ listed)
  refine walled.kept contexts.lives remote.spared old ?_ ?_ fun q listed => walled.now q (old _ listed)
  · intro f mine x inside
    have outside := frame_outside remote.spared (due.lives.free f mine) inside
    have off : OffFrames [] 0 x := fun _ none => absurd none List.not_mem_nil
    exact (outside_plain h.layout outside off).touches touches
  · intro i q listed field small
    have used := due.lives.used_of listed mem_tss
    apply h'.layout.word_kept (List.mem_append_right _ used) _ (kept q.tss used)
    rw [due.long i q listed]
    omega

/-- What an address in its pages leads to, and what becomes of a store there. -/
theorem Walled.place {r : Owned} (member : (s.cur, r) ∈ own) {va : UInt32} (mine : r.Byte va) : ∃ f,
    pageWalk s.machine.mem s.cr3 va = some ⟨frameAddr f, true, true⟩ ∧ Outside R (frameAddr f + (va &&& 0xFFF)) ∧
      ∀ v, Walled top (Function.update found s.cur ((found s.cur).after [(va, v)]))
        (s.stored (frameAddr f + (va &&& 0xFFF)) v) own := by
  have lives := contexts.lives
  obtain ⟨k, f, o, listed, short, rfl⟩ := mine
  have few := (lives.records _ r member).few
  have inside := (List.getElem?_eq_some_iff.mp listed).1
  have small := lives.frames_small remote.spared member
  have page : f ∈ r.frames := by simp [Owned.frames, List.mem_of_getElem? listed]
  have free := lives.free f (mem_ownedFrames member page)
  have place := frameByte_toNat (small f page) short
  rw [pageByte_offset (by omega) short]
  refine ⟨f, ?_, ?_, fun v => ?_⟩
  · rw [walled.now r member]
    exact (walled.mapped _ r member).walk (small _ (by simp [Owned.frames])) listed (by omega) (small f page) short
  · exact frame_outside remote.spared free ⟨by omega, by omega⟩
  · apply walled.wrote lives remote.spared member listed short v _ contexts.long
    intro i q listed' x data within
    have slot : q.tss ∈ h.free ++ h.used := List.mem_append_right _ (lives.used_of listed' mem_tss)
    exact outside_block h.layout slot (frame_outside remote.spared free within) data

/-- The kernel's stores to its pages. -/
theorem Walled.stores {r : Owned} (member : (s.cur, r) ∈ own) {l : List (UInt32 × UInt8)}
    (mine : ∀ p, p ∈ l → r.Byte p.1) : ∃ m,
      kernelStores l s = .done () { s with machine := s.machine.withMem m } ∧
      (∀ x, Outside R x ∨ m x = s.machine.mem x) ∧
      Walled top (Function.update found s.cur ((found s.cur).after l)) { s with machine := s.machine.withMem m }
        own := by
  induction l generalizing s found with
  | nil =>
    refine ⟨s.machine.mem, rfl, fun _ => Or.inr rfl, ?_⟩
    rw [View.after, Function.update_eq_self]
    exact walled
  | cons p l ih =>
    obtain ⟨f, walk, outside, wrote⟩ := walled.place contexts remote member (mine p List.mem_cons_self)
    have first := kernelStore_done walk p.2
    obtain ⟨m, run, aside, walled'⟩ := ih (contexts.stored outside p.2) (wrote p.2) member
      fun q listed => mine q (List.mem_cons_of_mem _ listed)
    refine ⟨m, (Prog.bind_done _ first).trans run, fun x => ?_, ?_⟩
    · rcases aside x with off | same
      · exact Or.inl off
      · by_cases here : x = frameAddr f + (p.1 &&& 0xFFF)
        · exact Or.inl (here ▸ outside)
        · exact Or.inr (same.trans (if_neg here))
    · change Walled top (Function.update (Function.update found s.cur _) s.cur
        (View.after (Function.update found s.cur _ s.cur) l)) _ own at walled'
      rw [Function.update_idem, Function.update_self] at walled'
      exact walled'

/-- A new process is walled, and the others stay so. -/
theorem Walled.born {t u v : Machine} {h₂ : Heap R} {as : AddrSpace} {text tLen : UInt32} {p q : Process}
    {b c d e g : Slot} {m : Mem} {pd i : Nat} {fs : List Nat} (few : numFrames (tLen + dataLen) < 1024)
    (built : Built s.machine h (tLen + dataLen) as v b c h₂ m pd fs)
    (blocks : Blocks h (tLen + dataLen) b c d e g h₂ h') (created : Created s.machine v h' as tLen p d e g q t)
    (laid : Laid (R := R) s.machine t (newborn (tLen + dataLen) pd fs b c d e g))
    (behind : ∀ k, k < numFrames (tLen + dataLen) → (s.machine.frameMap (dataFrame s.machine k + 1)).count = 0)
    (joined : Joined s.machine t u q i)
    (later : Contexts sys s₀ h₀ ((.spawn p text tLen, Tasks.seen i { s with machine := u }) :: log)
      { s with machine := u } h' ((i, newborn (tLen + dataLen) pd fs b c d e g) :: own)) :
    Walled (Function.update top i (u.mem.load (g.addr + 8 + 4 * esp0Field)))
      (Function.update found i (Tasks.byteOf i { s with machine := u })) { s with machine := u }
      ((i, newborn (tLen + dataLen) pd fs b c d e g) :: own) := by
  have lives := contexts.lives
  have spared := lives.spared remote.spared
  obtain ⟨other, fresh⟩ := contexts.ne_joined joined
  have same : Tasks.cur { s with machine := u } = s.cur := congrArg UInt32.toNat joined.cur
  have frames : ∀ f, f ∈ ownedFrames own → ∀ x, InFrame f x → u.mem x = s.machine.mem x := by
    intro f mine x inside
    rw [joined.mem]
    obtain ⟨lower, upper⟩ := inside
    refine laid.others x (frame_outside remote.spared (lives.free f mine) ⟨lower, upper⟩) ?_ ?_
    · intro free listed
      have differ : f ≠ free := by
        rintro rfl
        exact (lives.freeList_sub listed).2 mine
      omega
    · intro page listed
      have free : page ∈ freeList s.machine :=
        built.newborn_free few (List.mem_append_left _ (List.mem_append_left _ listed))
      have differ : f ≠ page := by
        rintro rfl
        exact (lives.freeList_sub free).2 mine
      have next : f ≠ page + 1 := by
        rintro rfl
        obtain ⟨k, at_⟩ := List.mem_iff_getElem?.mp listed
        obtain ⟨short, rfl⟩ := built.newborn_page few at_
        have none := behind k short
        rw [built.dataFrame_eq, lives.owned _ mine] at none
        exact absurd none (by decide)
      omega
  have olds : Walled top found { s with machine := u } own := by
    refine walled.kept lives remote.spared (fun _ listed => listed) frames ?_ ?_
    · intro k r listed field small
      have used := lives.used_of listed mem_tss
      apply h.layout.word_kept (List.mem_append_right _ used)
      · rw [contexts.long k r listed]
        omega
      · intro x data
        change u.mem x = s.machine.mem x
        rw [joined.mem]
        exact created.others_kept built blocks spared few used data
    · rw [same]
      exact walled.now
  have mapped : ∀ k r, (k, r) ∈ (i, newborn (tLen + dataLen) pd fs b c d e g) :: own → Mapped u.mem r := by
    intro k r listed
    rcases List.mem_cons.mp listed with new | old
    · obtain ⟨rfl, rfl⟩ := Prod.mk.inj new
      rw [joined.mem]
      exact laid.mapped
    · exact olds.mapped k r old
  have task : ∀ k r, (k, r) ∈ (i, newborn (tLen + dataLen) pd fs b c d e g) :: own →
      u.mem.load (r.tss.addr + 8 + 4 * cr3Field) = frameAddr r.dir := by
    intro k r listed
    rcases List.mem_cons.mp listed with new | old
    · obtain ⟨rfl, rfl⟩ := Prod.mk.inj new
      rw [joined.mem]
      exact laid.directory
    · exact olds.task k r old
  have now : ∀ r, (Tasks.cur { s with machine := u }, r) ∈ (i, newborn (tLen + dataLen) pd fs b c d e g) :: own →
      s.cr3 = frameAddr r.dir := by
    intro r listed
    rcases List.mem_cons.mp listed with new | old
    · exact absurd ((Prod.mk.inj new).1.symm.trans same) other
    · exact olds.now r old
  have stack : ∀ k r, (k, r) ∈ (i, newborn (tLen + dataLen) pd fs b c d e g) :: own →
      u.mem.load (r.tss.addr + 8 + 4 * esp0Field) =
        Function.update top i (u.mem.load (g.addr + 8 + 4 * esp0Field)) k := by
    intro k r listed
    rcases List.mem_cons.mp listed with new | old
    · obtain ⟨rfl, rfl⟩ := Prod.mk.inj new
      exact (Function.update_self k _ top).symm
    · exact (olds.stack k r old).trans (Function.update_of_ne (fresh k r old) _ top).symm
  have placed : Placed (Function.update top i (u.mem.load (g.addr + 8 + 4 * esp0Field))) { s with machine := u }
      ((i, newborn (tLen + dataLen) pd fs b c d e g) :: own) := ⟨mapped, task, now, stack⟩
  refine ⟨placed, fun k r listed j f at_ o short => ?_⟩
  rcases List.mem_cons.mp listed with new | old
  · obtain ⟨rfl, rfl⟩ := Prod.mk.inj new
    rw [Function.update_self]
    exact placed.byteOf_eq later.toGated remote.spared listed at_ short
  · rw [Function.update_of_ne (fresh k r old)]
    exact olds.bytes k r old j f at_ o short

end

namespace Secluded

theorem first (s₀ : Tasks) {h₀ : Heap R} (hosts : Hosts s₀.machine h₀) (idle : Idle s₀.machine)
    (kernel : s₀.cur = 0 ∧ s₀.entry = 5) : Secluded s₀.tss s₀.machine h₀ [] s₀ h₀ [] fun _ => 0 where
  toContexts := Contexts.first s₀ hosts idle kernel.1 kernel.2 rfl
  walled := ⟨⟨fun _ _ member => absurd member List.not_mem_nil, fun _ _ member => absurd member List.not_mem_nil,
    fun _ member => absurd member List.not_mem_nil, fun _ _ member => absurd member List.not_mem_nil⟩,
    fun _ _ member => absurd member List.not_mem_nil⟩
  framed := fun _ _ member => absurd member List.not_mem_nil

variable {fuel : Nat} (secluded : Secluded sys s₀ h₀ log s h own top) (remote : Remote (R := R) sys s₀)
include secluded

theorem stackOf_eq {i : Nat} {r : Owned} (member : (i, r) ∈ own) : s.stackOf i = top i := by
  rw [stackOf, secluded.tssOf_eq member]
  exact secluded.walled.stack i r member

theorem stack_room {i : Nat} {r : Owned} (member : (i, r) ∈ own) : kernelStack ≤ (top i).toNat := by
  have room := (secluded.seated i r member).room (secluded.walled.stack i r member)
  have data : dataLen.toNat = 65536 := by decide
  have half := kernelStack_eq
  omega

theorem stack_byte {i : Nat} {r : Owned} (member : (i, r) ∈ own) {va : UInt32}
    (below : Beneath (top i) kernelStack va) : r.Byte va :=
  (secluded.seated i r member).byte (secluded.walled.stack i r member) (secluded.lives.records i r member).few below

/-- What the kernel stores is below the frame, and so in the pages. -/
theorem store_byte {va : UInt32} {v : UInt8} (polite : Polite fuel (.store va v) s) : ∃ r, (s.cur, r) ∈ own ∧
    r.Byte va ∧ Beneath (top s.cur - 48) (kernelStack - 48) va := by
  obtain ⟨live, -, below⟩ := polite
  obtain ⟨r, member⟩ := secluded.member_of_live live
  rw [secluded.stackOf_eq member] at below
  refine ⟨r, member, secluded.stack_byte member ?_, below⟩
  have room := secluded.stack_room member
  have half := kernelStack_eq
  have base : (top s.cur - 48).toNat = (top s.cur).toNat - 48 :=
    UInt32.toNat_sub_of_le _ _ (UInt32.le_iff_toNat_le.mpr (show 48 ≤ (top s.cur).toNat by omega))
  unfold Beneath at below ⊢
  omega

theorem write_byte {va : UInt32} {v : UInt8} (polite : Polite fuel (.write va v) s) : ∃ r, (s.cur, r) ∈ own ∧
    r.Byte va := by
  obtain ⟨live, -, k, o, inside, short, rfl⟩ := polite
  obtain ⟨r, member⟩ := secluded.member_of_live live
  rw [secluded.lives.numPages member] at inside
  exact ⟨r, member, k, _, o, List.getElem?_eq_getElem inside, short, rfl⟩

include remote

/-- What the processor and the wrapper push. -/
theorem enters {r : Owned} (member : (s.cur, r) ∈ own) (wrapper : UInt32) : ∃ m, enter wrapper s = .done () { s with
      machine := s.machine.withMem m, regs := s.regs.entered wrapper (top s.cur) kdataSelector } ∧
    (∀ x, Outside R x ∨ m x = s.machine.mem x) ∧
    Walled top (Function.update (lastStored log) s.cur
        ((lastStored log s.cur).after (pushes (top s.cur) s.regs.frame)))
      { s with machine := s.machine.withMem m } own := by
  have room := secluded.stack_room member
  have half := kernelStack_eq
  have long : s.regs.frame.length = 12 := rfl
  have stack := secluded.walled.stack _ r member
  have segment := (secluded.seated _ r member).segment
  rw [← secluded.tss_eq member] at stack segment
  obtain ⟨m, run, aside, walled⟩ := secluded.walled.stores secluded.toContexts remote member
    (l := pushes (top s.cur) s.regs.frame) fun p listed => by
      have inside := pushes_inside (by omega) listed
      apply secluded.stack_byte member
      unfold Beneath at inside ⊢
      omega
  refine ⟨m, ?_, aside, walled⟩
  unfold enter
  rw [Prog.get_bind_run, Prog.get_bind_run, Prog.get_bind_run, stack, segment, Prog.bind_done _ run]
  rfl

/-- The frame is found again. -/
theorem pops {r : Owned} (member : (s.cur, r) ∈ own) (kernel : s.regs.InKernel) (esp : s.regs.esp = top s.cur - 48) :
    ∃ user, interrupted s.cur log = some user ∧ s.popped = some user := by
  obtain ⟨single, user, was, inUser, loadable, pop, words⟩ :=
    (secluded.framed _ r member).frame s.regs (secluded.last member).1 kernel
  have room := secluded.stack_room member
  have half := kernelStack_eq
  have base : (top s.cur - 48).toNat = (top s.cur).toNat - 48 :=
    UInt32.toNat_sub_of_le _ _ (UInt32.le_iff_toNat_le.mpr (show 48 ≤ (top s.cur).toNat by omega))
  have bound := (top s.cur).toNat_lt
  have seen : View.words (s.byteOf s.cur) 12 (top s.cur - 48) = some user.frame.reverse := by
    rw [← words]
    apply View.words_congr (by omega)
    intro x lower upper
    have inside : Beneath (top s.cur) kernelStack x := by
      unfold Beneath
      omega
    obtain ⟨k, f, o, listed, short, rfl⟩ := secluded.stack_byte member inside
    rw [secluded.walled.bytes _ r member k f listed o short]
    exact secluded.walled.byteOf_eq secluded.toGated remote.spared member listed short
  refine ⟨user, was, ?_⟩
  have checked : ¬s.regs.Nested ∧ user.InUser ∧ user.Loadable := ⟨single, inUser, loadable⟩
  unfold Tasks.popped
  rw [esp, seen, Option.bind_eq_bind, Option.bind_some, pop, Option.bind_eq_bind, Option.bind_some]
  exact if_pos checked

/-- Such turns leave the heap alone. -/
theorem fair {turn : Turn} (polite : Polite fuel turn s) : Fair R fuel turn s := by
  cases turn with
  | spawn p text tLen => exact ⟨polite.1, polite.2.1⟩
  | interrupt wrapper =>
    obtain ⟨r, member⟩ := secluded.member_of_live polite.1
    obtain ⟨m, run, aside, -⟩ := secluded.enters remote member wrapper
    exact ⟨polite.1, polite.2, _, run, aside⟩
  | store va v =>
    obtain ⟨r, member, mine, -⟩ := secluded.store_byte polite
    obtain ⟨f, walk, outside, -⟩ := secluded.walled.place secluded.toContexts remote member mine
    exact ⟨polite.2.1, _, walk, outside⟩
  | exit => exact polite
  | tick => exact polite
  | iret =>
    obtain ⟨live, kernel, esp⟩ := polite
    obtain ⟨r, member⟩ := secluded.member_of_live live
    rw [secluded.stackOf_eq member] at esp
    obtain ⟨user, -, popped⟩ := secluded.pops remote member kernel esp
    exact ⟨live, kernel, user, popped⟩
  | work regs => exact polite
  | write va v =>
    obtain ⟨r, member, mine⟩ := secluded.write_byte polite
    obtain ⟨f, walk, outside, -⟩ := secluded.walled.place secluded.toContexts remote member mine
    refine ⟨polite.2.1, fun place found => ?_⟩
    rw [walk, Option.some.injEq] at found
    rw [← found]
    exact outside

omit remote in
/-- Only of the current process something is said. -/
theorem framed_current {turn : Turn} {o : Seen} (pid : o.pid = s.cur)
    (now : Framed (top s.cur) ((turn, o) :: log) s.cur) :
    ∀ i r, (i, r) ∈ own → Framed (top i) ((turn, o) :: log) i := by
  intro i r listed
  by_cases same : s.cur = i
  · rw [← same]
    exact now
  · apply (secluded.framed i r listed).other
    rw [pid]
    exact same

theorem performed (steps : R.length.toNat / 8 < fuel) {turn : Turn} {o : Seen}
    (polite : Polite fuel turn s) (run : perform fuel turn s = .done o t) :
    ∃ h' own' top', Secluded sys s₀ h₀ ((turn, o) :: log) t h' own' top' := by
  have apart := remote.toApart
  have spared := remote.spared
  have contexts := secluded.toContexts
  have walled := secluded.walled
  cases turn with
  | spawn p text tLen =>
    obtain ⟨-, ⟨short, q, v, u, made, added⟩, behind⟩ := polite
    have few := numFrames_lt short
    obtain ⟨as, w, b, c, d, e, g, h₂, h', m, pd, fs, built, blocks, created, laid⟩ :=
      createProcess_laid contexts.lives.hosts steps (contexts.lives.spared spared) few made
    obtain ⟨i, found⟩ := schedAdd_found added
    rw [spawn_performed made added found, Outcome.done.injEq] at run
    obtain ⟨rfl, rfl⟩ := run
    have later := contexts.born text p spared short built blocks created added found
    have joined := created.joined built added found
    have walled' := walled.born contexts remote few built blocks created laid behind joined later
    refine ⟨h', _, Function.update top i (u.mem.load (g.addr + 8 + 4 * esp0Field)), later, walled', ?_⟩
    have user : (Tasks.regsOf i { s with machine := u }).InUser := by
      rw [contexts.joined_new spared short built blocks created joined later.lives]
      exact created.user.1
    intro k r listed
    rcases List.mem_cons.mp listed with new | old
    · obtain ⟨rfl, rfl⟩ := Prod.mk.inj new
      exact Framed.born rfl user
    · have differ := (contexts.ne_joined joined).2 k r old
      rw [Function.update_of_ne differ]
      exact (secluded.framed k r old).other (Ne.symm differ)
  | interrupt wrapper =>
    obtain ⟨live, user⟩ := polite
    obtain ⟨r, member⟩ := contexts.member_of_live live
    obtain ⟨m, entered, aside, walled'⟩ := secluded.enters remote member wrapper
    have whole : perform fuel (.interrupt wrapper) s = _ := Prog.bind_done _ entered
    rw [whole] at run
    cases run
    obtain ⟨last, loadable⟩ := contexts.last member
    have regs : (Tasks.seen s.cur { s with
        machine := s.machine.withMem m, regs := s.regs.entered wrapper (top s.cur) kdataSelector }).regs =
      s.regs.entered wrapper (top s.cur) kdataSelector := Tasks.seen_regs _
    have framed := secluded.framed_current rfl
      ((secluded.framed _ r member).interrupt rfl last user loadable (secluded.stack_room member) regs)
    refine ⟨h, own, top, contexts.interrupted live entered aside, ?_, framed⟩
    change Walled top (lastStored ((.interrupt wrapper, Tasks.seen s.cur _) :: log)) _ own
    rw [lastStored_interrupt last (congrArg Registers.esp regs)]
    exact walled'.withRegs _
  | store va v =>
    obtain ⟨r, member, mine, below⟩ := secluded.store_byte polite
    obtain ⟨f, walk, outside, wrote⟩ := walled.place contexts remote member mine
    have whole : perform fuel (.store va v) s = _ := Prog.bind_done _ (kernelStore_done walk v)
    rw [whole] at run
    cases run
    exact ⟨h, own, top, (contexts.stored outside v).logged fun _ => rfl, wrote v,
      secluded.framed_current rfl ((secluded.framed _ r member).store rfl (secluded.stack_room member) below)⟩
  | exit =>
    obtain ⟨r, member⟩ := contexts.member_of_live polite.1
    obtain ⟨rest, h', m, perm, whole, due, touches, kept⟩ := contexts.dies apart spared steps member
    obtain ⟨_, u, first, last⟩ := Prog.of_bind_done run
    cases last
    rw [whole] at first
    rcases due.settled sys with ⟨t', run', next, contexts', -⟩ | ⟨⟨t', run'⟩, -⟩
    all_goals rw [first] at run'
    · cases run'
      have gone := walled.killed contexts remote perm due touches kept
      have off : ∀ f, f ∈ freeList s₀ → ∀ x, InFrame f x → ¬TssByte s.tss x := contexts.off_frames remote
      have framed : ∀ i q, (i, q) ∈ rest → Framed (top i) log i := fun i q listed =>
        secluded.framed i q (perm.mem_iff.mpr (List.mem_cons_of_mem _ listed))
      exact ⟨h', rest, top, contexts'.logged fun _ => rfl, gone.onward due spared off next,
        fun i q listed => ⟨(framed i q listed).frame, (framed i q listed).aside⟩⟩
    · cases run'
  | tick =>
    have due := contexts.due apart
    obtain ⟨_, u, first, last⟩ := Prog.of_bind_done run
    cases last
    rcases due.settled sys with ⟨t', run', next, contexts', -⟩ | ⟨⟨t', run'⟩, -⟩
    all_goals rw [first] at run'
    · cases run'
      exact ⟨h, own, top, contexts'.logged fun _ => rfl, walled.onward due spared (contexts.off_frames remote) next,
        fun i q listed => ⟨(secluded.framed i q listed).frame, (secluded.framed i q listed).aside⟩⟩
    · cases run'
  | iret =>
    obtain ⟨live, kernel, esp⟩ := polite
    obtain ⟨r, member⟩ := contexts.member_of_live live
    rw [secluded.stackOf_eq member] at esp
    obtain ⟨user, -, popped⟩ := secluded.pops remote member kernel esp
    have whole : perform fuel .iret s = _ := Prog.bind_done _ (leave_done popped)
    rw [whole] at run
    cases run
    have inUser : (Tasks.seen s.cur { s with regs := user }).regs.InUser := by
      have now : (Tasks.seen s.cur { s with regs := user }).regs = user := Tasks.seen_regs { s with regs := user }
      rw [now]
      exact (Tasks.of_popped popped).1
    exact ⟨h, own, top, contexts.returned popped, walled.withRegs user,
      secluded.framed_current rfl ((secluded.framed _ r member).iret rfl inUser)⟩
  | work regs =>
    cases run
    refine ⟨h, own, top, contexts.worked polite.1 fun _ => rfl, walled.withRegs regs, fun i r listed => ?_⟩
    by_cases same : s.cur = i
    · subst same
      obtain ⟨last, loadable⟩ := contexts.last listed
      apply (secluded.framed _ r listed).work rfl last
      intro kernel
      have inside : s.regs.InKernel := by
        rcases loadable.1 with user | inside
        · exact absurd kernel (Registers.not_inKernel user polite.2.1)
        · exact inside
      exact ⟨inside, polite.2.2 inside⟩
    · exact (secluded.framed i r listed).other same
  | write va v =>
    obtain ⟨r, member, mine⟩ := secluded.write_byte polite
    obtain ⟨f, walk, outside, wrote⟩ := walled.place contexts remote member mine
    have whole : perform fuel (.write va v) s = _ := Prog.bind_done _ (userStore_done walk v)
    rw [whole] at run
    cases run
    exact ⟨h, own, top, (contexts.stored outside v).logged fun _ => rfl, wrote v,
      secluded.framed_current rfl ((secluded.framed _ r member).write rfl (contexts.last member).1 polite.2.1)⟩

end Secluded

end

theorem remote_fourMegabytes (m₀ : Mem) : Remote (R := megabyte) 0x100 (fourMegabytes m₀) := by
  refine ⟨apart_megabyte, spared_fourMegabytes m₀ 1, ?_⟩
  rintro f free x ⟨lower, -⟩ ⟨-, upper⟩
  rw [freeList_fourMegabytes, List.mem_range'_1] at free
  rw [show (0x100 : UInt32).toNat = 256 by decide] at upper
  omega

/-- A process is made and switched to, writes, and is interrupted. -/
theorem interrupt_fourMegabytes {m₀ : Mem} (init : initAlloc 0x100000 0x100000 (fun _ => 0) = .done retSuccess m₀) :
    ∃ log s h own top, Runs (perform 131073) (Polite 131073) (atRest (fourMegabytes m₀)) log s ∧ log.length = 4 ∧
      Secluded 0x100 (fourMegabytes m₀) (Heap.init megabyte) log s h own top ∧ s.cur = 1 ∧ s.Live ∧ s.regs.InKernel ∧
      ∀ i, i < 4 → (s.machine.proctab i).status ≠ .null → i = s.cur := by
  obtain ⟨allow, o, s, t, h', r, made, inKernel, switched, here, inUser, contexts⟩ := tick_fourMegabytes init
  have idle := idle_fourMegabytes m₀
  have steps : megabyte.length.toNat / 8 < 131073 := by decide
  have remote := remote_fourMegabytes m₀
  have spawn : Polite 131073 (.spawn ⟨0, .null, 0, 0⟩ 0x3000 10) (atRest (fourMegabytes m₀)) := by
    refine ⟨⟨rfl, rfl⟩, allow, fun k inside => ?_⟩
    have few : numFrames (10 + dataLen) = 17 := by decide
    have frame : dataFrame (fourMegabytes m₀) k = 514 + k := by
      rw [dataFrame, nthFree, freeList_fourMegabytes, List.getD_eq_getElem _ _ (by rw [List.length_range']; omega),
        List.getElem_range']
      omega
    change (if dataFrame (fourMegabytes m₀) k + 1 < 512 then (⟨true, 1⟩ : Frame) else ⟨false, 0⟩).count = 0
    rw [frame, if_neg (by omega)]
  have tick : Polite 131073 .tick s := inKernel
  obtain ⟨_, _, _, first⟩ :=
    (Secluded.first _ (hosts_fourMegabytes init) idle ⟨rfl, rfl⟩).performed remote steps spawn made
  obtain ⟨_, _, _, second⟩ := first.performed remote steps tick switched
  have member : (t.cur, r) ∈ [(1, r)] := here ▸ List.mem_cons_self
  have live : t.Live := (contexts.lives.live t.cur contexts.lives.cur).mpr ⟨r, member⟩
  have only : ∀ i, i < 4 → (t.machine.proctab i).status ≠ .null → i = t.cur := by
    intro i small runs
    obtain ⟨q, listed⟩ := (contexts.lives.live i small).mp runs
    exact (congrArg Prod.fst (List.mem_singleton.mp listed)).trans here.symm
  have pages : 0 < t.numPages t.cur := by
    obtain ⟨tLen, -, long, -⟩ := (contexts.seated t.cur r member).top
    rw [contexts.lives.numPages member, long]
    exact Nat.succ_pos _
  have write : Polite 131073 (.write (pageByte 0 0) 7) t := ⟨live, inUser, 0, 0, pages, by decide, rfl⟩
  obtain ⟨_, its, mine⟩ := second.write_byte write
  obtain ⟨a, walk, -⟩ := second.walled.place second.toContexts remote its mine
  have wrote := Prog.bind_done (fun _ => Prog.get fun s => s.seen s.cur) (userStore_done walk 7)
  obtain ⟨_, _, _, third⟩ := second.performed remote steps write wrote
  have interrupt : Polite 131073 (.interrupt 0x5000) (t.stored (frameAddr a + (pageByte 0 0 &&& 0xFFF)) 7) :=
    ⟨live, inUser⟩
  obtain ⟨_, its⟩ := third.member_of_live live
  obtain ⟨m, entered, -⟩ := third.enters remote its 0x5000
  have taken := Prog.bind_done (fun _ => Prog.get fun s => s.seen s.cur) entered
  obtain ⟨_, _, _, fourth⟩ := third.performed remote steps interrupt taken
  have runs := (((Runs.nil.call spawn made).call tick switched).call write wrote).call interrupt taken
  exact ⟨_, _, _, _, _, runs, rfl, fourth, here, live, ⟨rfl, rfl⟩, only⟩

end Sos.Kernel
