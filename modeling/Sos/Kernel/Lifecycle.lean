import Sos.Lib.Runs
import Sos.Kernel.Spawn

/-! Processes made and killed in any order: every frame and every block is owned once and
given back once. -/

namespace Sos.Kernel
open Sos.Lib Machine

inductive Order where
  | spawn (p : Process) (text tLen : UInt32)
  | kill (pid : UInt32)
  | tick

/-- After `kend` the machine stays as it is. -/
def obey (unheld : Prog Machine Unit) (fuel : Nat) : Order → Prog Machine Unit
  | .spawn p text tLen => do
    let (_, p) ← createProcess unheld fuel p text tLen
    let _ ← schedAdd p
    return ()
  | .kill pid => do
    let _ ← processKill schedMaxProcs unheld fuel pid
    return ()
  | .tick => do
    let _ ← schedule schedMaxProcs
    return ()

/-- A process is made where that is successful and less than 4 MB less a page is asked
for; a live process is killed. -/
def Allowed (fuel : Nat) : Order → Machine → Prop
  | .spawn p text tLen, s => tLen.toNat + dataLen.toNat < 4194304 - 4096 ∧
    ∃ q t u, createProcess goOn fuel p text tLen s = .done (retSuccess, q) t ∧
      schedAdd q t = .done retSuccess u
  | .kill pid, s => pid.toNat < 4 ∧ (s.proctab pid.toNat).status ≠ .null
  | .tick, _ => True

/-- The frames of all processes, given with their entries in the table. -/
def ownedFrames (own : List (Nat × Owned)) : List Nat := own.flatMap fun e => e.2.frames

def ownedBlocks (own : List (Nat × Owned)) : List Slot := own.flatMap fun e => e.2.blocks

/-- The entries of the table without a process are null, the others lead to what is owned;
what is not owned is as it was in `s₀`. -/
structure Lives {R : Region} (s₀ : Machine) (h₀ : Heap R) (s : Machine) (h : Heap R)
    (own : List (Nat × Owned)) : Prop where
  hosts : Hosts s h
  kernel : s.frameCount = s₀.frameCount ∧ s.memmanInited = s₀.memmanInited
  cur : s.curproc.toNat < 4
  small : ∀ i r, (i, r) ∈ own → i < 4
  pid : ∀ i r, (i, r) ∈ own → (s.proctab i).pid = UInt32.ofNat i
  records : ∀ i r, (i, r) ∈ own → Records s (s.proctab i) r
  live : ∀ i, i < 4 → ((s.proctab i).status ≠ .null ↔ ∃ r, (i, r) ∈ own)
  once : (own.map Prod.fst).Nodup
  frames : (ownedFrames own).Nodup
  free : ∀ f, f ∈ ownedFrames own → f ∈ freeList s₀
  owned : ∀ f, f ∈ ownedFrames own → s.frameMap f = ⟨false, 1⟩
  others : ∀ f, f ∉ ownedFrames own → (s.frameMap f).count = (s₀.frameMap f).count ∧
    ((s.frameMap f).ns = (s₀.frameMap f).ns ∨ f ∈ freeList s₀ ∧ (s.frameMap f).ns = false)
  used : h.used.Perm (ownedBlocks own ++ h₀.used)

namespace Lives
variable {R : Region} {s₀ s : Machine} {h₀ h : Heap R} {own : List (Nat × Owned)}
  (lives : Lives s₀ h₀ s h own)
include lives

/-- A frame that is free now was free in the beginning, and nobody owns it. -/
theorem freeList_sub {f : Nat} (free : f ∈ freeList s) : f ∈ freeList s₀ ∧ f ∉ ownedFrames own := by
  obtain ⟨inited, inside, unused⟩ := mem_freeList_iff.mp free
  have apart : f ∉ ownedFrames own := by
    intro mine
    rw [lives.owned f mine] at unused
    cases unused
  obtain ⟨count, -⟩ := lives.others f apart
  refine ⟨mem_freeList_iff.mpr ⟨?_, ?_, ?_⟩, apart⟩
  · rw [← lives.kernel.2, inited]
  · rwa [← lives.kernel.1]
  · rw [← count, unused]

theorem spared {behind : Nat} (spared : Spared R s₀ behind) : Spared R s behind where
  count := by
    rw [lives.kernel.1]
    exact spared.count
  apart := fun f free => spared.apart f (lives.freeList_sub free).1

/-- What an entry owns, and what the others own. -/
theorem split {i : Nat} {r : Owned} (member : (i, r) ∈ own) : ∃ rest, own.Perm ((i, r) :: rest) ∧
    (ownedFrames own).Perm (r.frames ++ ownedFrames rest) ∧
    (ownedBlocks own).Perm (r.blocks ++ ownedBlocks rest) := by
  obtain ⟨pre, post, rfl⟩ := List.append_of_mem member
  have perm : (pre ++ (i, r) :: post).Perm ((i, r) :: (pre ++ post)) := List.perm_middle
  exact ⟨pre ++ post, perm, perm.flatMap_right _, perm.flatMap_right _⟩

theorem exclusive {i : Nat} {r : Owned} (member : (i, r) ∈ own) (count : s.frameCount.toNat < 1048576) :
    Exclusive s r := by
  obtain ⟨rest, -, frames, -⟩ := lives.split member
  have mine : ∀ f, f ∈ r.frames → f ∈ ownedFrames own := fun f inside =>
    frames.mem_iff.mpr (List.mem_append_left _ inside)
  have inside : ∀ f, f ∈ r.frames → f < s.frameCount.toNat := by
    intro f inside
    rw [lives.kernel.1]
    exact (mem_freeList (lives.free f (mine f inside))).1
  refine ⟨(List.nodup_append.mp (frames.nodup_iff.mp lives.frames)).1, ?_, ?_⟩
  · intro f member'
    refine ⟨inside f member', ?_⟩
    rw [lives.owned f (mine f member')]
    decide
  · intro f member'
    exact (inside f member').trans count

/-- What the scheduler changes does not matter. -/
theorem switched {c : UInt32} (small : c.toNat < 4) (gdt : Nat → Descriptor) :
    Lives s₀ h₀ (s.switched c gdt) h own where
  hosts := ⟨lives.hosts.base, lives.hosts.inited, lives.hosts.rep⟩
  kernel := lives.kernel
  cur := small
  small := lives.small
  pid := lives.pid
  records := fun i r member =>
    { lives.records i r member with }
  live := lives.live
  once := lives.once
  frames := lives.frames
  free := lives.free
  owned := lives.owned
  others := lives.others
  used := lives.used

/-- The entry of a killed process is null, and its frames and blocks are as they were in
the beginning. -/
theorem killed {i : Nat} {r : Owned} (member : (i, r) ∈ own) {h' : Heap R} {m : Mem}
    (hosts' : Hosts (s.killed i r m) h') {rest : List (Nat × Owned)} (perm : own.Perm ((i, r) :: rest))
    (used' : h'.used.Perm (ownedBlocks rest ++ h₀.used))
    (kept : ∀ b, b ∈ h'.used → ∀ x, b.Has x → m x = s.mem x) :
    Lives s₀ h₀ (s.killed i r m) h' rest := by
  have frames : (ownedFrames own).Perm (r.frames ++ ownedFrames rest) := perm.flatMap_right _
  have keys := (perm.map Prod.fst).nodup_iff.mp lives.once
  have fresh : ∀ k q, (k, q) ∈ rest → k ≠ i := by
    rintro k q listed rfl
    exact (List.nodup_cons.mp keys).1 (List.mem_map.mpr ⟨_, listed, rfl⟩)
  have old : ∀ {e}, e ∈ rest → e ∈ own := fun listed => perm.mem_iff.mpr (List.mem_cons_of_mem _ listed)
  have entry : ∀ k, k ≠ i → (s.killed i r m).proctab k = s.proctab k := fun k differ => if_neg differ
  obtain ⟨-, onceRest, apart⟩ := List.nodup_append.mp (frames.nodup_iff.mp lives.frames)
  have frame : ∀ f, (s.killed i r m).frameMap f =
      if f ∈ r.frames then { s.frameMap f with count := (s.frameMap f).count - 1 } else s.frameMap f :=
    fun _ => rfl
  refine ⟨hosts', lives.kernel, lives.cur, fun k q listed => lives.small k q (old listed), ?_, ?_, ?_,
    (List.nodup_cons.mp keys).2, onceRest, ?_, ?_, ?_, used'⟩
  · intro k q listed
    rw [entry k (fresh k q listed)]
    exact lives.pid k q (old listed)
  · intro k q listed
    rw [entry k (fresh k q listed)]
    have mine : ∀ b, b ∈ q.blocks → b ∈ h'.used := fun b own' =>
      used'.mem_iff.mpr (List.mem_append_left _ (List.mem_flatMap.mpr ⟨_, listed, own'⟩))
    exact (lives.records k q (old listed)).congr mine fun b own' => kept b (mine b own')
  · intro k small
    by_cases same : k = i
    · subst same
      have none : ((s.killed k r m).proctab k).status = .null := by
        change (if k = k then _ else s.proctab k).status = ProcStatus.null
        rw [if_pos rfl]
      rw [none]
      exact iff_of_false (by simp) fun ⟨q, listed⟩ => fresh k q listed rfl
    · rw [entry k same, lives.live k small]
      constructor
      · rintro ⟨q, listed⟩
        rcases List.mem_cons.mp (perm.mem_iff.mp listed) with equal | listed
        · exact absurd (congrArg Prod.fst equal) same
        · exact ⟨q, listed⟩
      · rintro ⟨q, listed⟩
        exact ⟨q, old listed⟩
  · intro f mine
    exact lives.free f (frames.mem_iff.mpr (List.mem_append_right _ mine))
  · intro f mine
    rw [frame, if_neg fun gone => apart f gone f mine rfl]
    exact lives.owned f (frames.mem_iff.mpr (List.mem_append_right _ mine))
  · intro f notMine
    by_cases gone : f ∈ r.frames
    · have mine : f ∈ ownedFrames own := frames.mem_iff.mpr (List.mem_append_left _ gone)
      have free := lives.free f mine
      rw [frame, if_pos gone, lives.owned f mine, (mem_freeList free).2]
      exact ⟨rfl, Or.inr ⟨free, rfl⟩⟩
    · rw [frame, if_neg gone]
      refine lives.others f fun mine => ?_
      rcases List.mem_append.mp (frames.mem_iff.mp mine) with early | late
      · exact gone early
      · exact notMine late

/-- An entry joins the others with frames that were free and blocks of its own. -/
theorem joined {i : Nat} {r : Owned} {t : Machine} {h' : Heap R} (small : i < 4)
    (null : (s.proctab i).status = .null) (taken : ∀ f, f ∈ r.frames → f ∈ freeList s)
    (once : r.frames.Nodup) (hosts' : Hosts t h')
    (kernel : t.frameCount = s.frameCount ∧ t.memmanInited = s.memmanInited) (cur : t.curproc.toNat < 4)
    (entry : ∀ k, k ≠ i → t.proctab k = s.proctab k) (pid : (t.proctab i).pid = UInt32.ofNat i)
    (live : (t.proctab i).status ≠ .null) (records : Records t (t.proctab i) r)
    (kept : ∀ y, y ∈ h.used → ∀ x, y.Has x → t.mem x = s.mem x)
    (frame : ∀ f, t.frameMap f = if f ∈ r.frames then ⟨false, 1⟩ else s.frameMap f)
    (used' : h'.used = r.blocks ++ h.used) : Lives s₀ h₀ t h' ((i, r) :: own) := by
  have fresh : ∀ k r, (k, r) ∈ own → k ≠ i := by
    rintro k r listed rfl
    exact (lives.live k small).mpr ⟨r, listed⟩ null
  refine ⟨hosts', ⟨kernel.1.trans lives.kernel.1, kernel.2.trans lives.kernel.2⟩, cur, ?_, ?_, ?_, ?_, ?_, ?_, ?_,
    ?_, ?_, ?_⟩
  · intro k r' listed
    rcases List.mem_cons.mp listed with same | old
    · obtain ⟨rfl, rfl⟩ := Prod.mk.inj same
      exact small
    · exact lives.small k r' old
  · intro k r' listed
    rcases List.mem_cons.mp listed with same | old
    · obtain ⟨rfl, rfl⟩ := Prod.mk.inj same
      exact pid
    · rw [entry k (fresh k r' old)]
      exact lives.pid k r' old
  · intro k r' listed
    rcases List.mem_cons.mp listed with same | old
    · obtain ⟨rfl, rfl⟩ := Prod.mk.inj same
      exact records
    · rw [entry k (fresh k r' old)]
      have owned : ∀ y, y ∈ r'.blocks → y ∈ h.used := fun y mine => lives.used.mem_iff.mpr
        (List.mem_append_left _ (List.mem_flatMap.mpr ⟨_, old, mine⟩))
      exact (lives.records k r' old).congr owned fun y mine => kept y (owned y mine)
  · intro k below
    by_cases same : k = i
    · subst same
      exact iff_of_true live ⟨_, List.mem_cons_self⟩
    · rw [entry k same, lives.live k below]
      constructor
      · rintro ⟨r', old⟩
        exact ⟨r', List.mem_cons_of_mem _ old⟩
      · rintro ⟨r', listed⟩
        rcases List.mem_cons.mp listed with equal | old
        · exact absurd (congrArg Prod.fst equal) same
        · exact ⟨r', old⟩
  · refine List.nodup_cons.mpr ⟨fun listed => ?_, lives.once⟩
    obtain ⟨⟨k, r'⟩, old, equal⟩ := List.mem_map.mp listed
    exact fresh k r' old equal
  · refine List.nodup_append.mpr ⟨once, lives.frames, ?_⟩
    rintro f mine g other rfl
    exact (lives.freeList_sub (taken f mine)).2 other
  · intro f listed
    rcases List.mem_append.mp listed with mine | other
    · exact (lives.freeList_sub (taken f mine)).1
    · exact lives.free f other
  · intro f listed
    rw [frame]
    rcases List.mem_append.mp listed with mine | other
    · exact if_pos mine
    · rw [if_neg fun mine => (lives.freeList_sub (taken f mine)).2 other]
      exact lives.owned f other
  · intro f outside
    rw [frame, if_neg fun mine => outside (List.mem_append_left _ mine)]
    exact lives.others f fun other => outside (List.mem_append_right _ other)
  · rw [used']
    exact (lives.used.append_left r.blocks).trans (by
      rw [← List.append_assoc]
      exact List.Perm.refl _)

/-- A new process. -/
theorem born (spared₀ : Spared R s₀ 1) {u t : Machine} {h₂ h' : Heap R} {as : AddrSpace} {tLen : UInt32}
    {p q : Process} {b c d e g : Slot} {m : Mem} {pd : Nat} {fs : List Nat}
    (few : numFrames (tLen + dataLen) < 1024) (built : Built s h (tLen + dataLen) as u b c h₂ m pd fs)
    (blocks : Blocks h (tLen + dataLen) b c d e g h₂ h') (created : Created s u h' as tLen p d e g q t)
    {i : Nat} (small : i < 4) (null : (s.proctab i).status = .null) (gdt : Nat → Descriptor) :
    Lives s₀ h₀ ((t.setProc i { q with status := .run, pid := UInt32.ofNat i }).switched t.curproc gdt) h'
      ((i, newborn (tLen + dataLen) pd fs b c d e g) :: own) := by
  have spared := lives.spared spared₀
  have self : ((t.setProc i { q with status := .run, pid := UInt32.ofNat i }).switched t.curproc gdt).proctab i =
      { q with status := .run, pid := UInt32.ofNat i } := if_pos rfl
  apply lives.joined small null (fun f => built.newborn_free few) (built.newborn_once few)
  · exact ⟨created.hosts.base, created.hosts.inited, created.hosts.rep⟩
  · rw [created.machine_eq built]
    exact ⟨rfl, rfl⟩
  · rw [created.machine_eq built]
    exact lives.cur
  · intro k differ
    rw [← created.proctab built]
    exact if_neg differ
  · rw [self]
  · rw [self]
    simp
  · rw [self]
    exact { created.records built blocks spared few i with }
  · intro y listed x data
    exact created.others_kept built blocks spared few listed data
  · exact Created.frameMap (t := t) built created few
  · exact blocks.used

end Lives

end Sos.Kernel
