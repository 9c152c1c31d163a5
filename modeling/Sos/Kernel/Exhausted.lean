import Sos.Kernel.Creation
import Sos.Kernel.Rollback

/-! `create_process` when the heap runs out. Nobody looks at what `kalloc` returned, and where
it returned nothing the routine writes through the null pointer. -/

namespace Sos.Kernel
open Sos.Lib Machine

/-- One of the five calls of `kalloc` on the way through `create_process` finds no memory. -/
inductive NoBlock (fuel : Nat) (text tLen : UInt32) (s : Machine) : Prop where
  | frames (u : Machine) (run : kalloc fuel (((tLen + dataLen) / frameLen + 1) * 4) s = .done 0 u)
  | pts (frames : UInt32) (u v : Machine)
      (given : kalloc fuel (((tLen + dataLen) / frameLen + 1) * 4) s = .done frames u)
      (run : kalloc fuel ((((tLen + dataLen) / frameLen + 1) / ptEntries + 1) * 4) u = .done 0 v)
  | space (as : AddrSpace) (u v : Machine)
      (made : allocAddrSpace goOn fuel (tLen + dataLen) s = .done (retSuccess, as) u)
      (run : kalloc fuel 20 u = .done 0 v)
  | info (as : AddrSpace) (a : UInt32) (u v w x y : Machine)
      (made : allocAddrSpace goOn fuel (tLen + dataLen) s = .done (retSuccess, as) u)
      (space : kalloc fuel 20 u = .done a v) (put : putAddrSpace a as v = .done () w)
      (copied : copyText as text as.numFrames.toNat 0 tLen w = .done () x)
      (run : kalloc fuel 4 x = .done 0 y)
  | tss (as : AddrSpace) (a archInfo : UInt32) (u v w x y z : Machine)
      (made : allocAddrSpace goOn fuel (tLen + dataLen) s = .done (retSuccess, as) u)
      (space : kalloc fuel 20 u = .done a v) (put : putAddrSpace a as v = .done () w)
      (copied : copyText as text as.numFrames.toNat 0 tLen w = .done () x)
      (info : kalloc fuel 4 x = .done archInfo y) (run : kalloc fuel tssSize y = .done 0 z)

/-- The failure is reported, and frames and blocks are as before. -/
def HandlesExhaustion {R : Region} (fuel : Nat) (s : Machine) (h : Heap R) (p : Process) (text tLen : UInt32) :
    Prop :=
  ∃ q t, createProcess goOn fuel p text tLen s = .done (retFailure, q) t ∧ t.frameMap = s.frameMap ∧
    ∃ h' : Heap R, Hosts t h' ∧ h'.used.Perm h.used

section
variable {unheld : Prog Machine Unit} {fuel : Nat} {s : Machine}

/-- An address space without one of its lists is not made. -/
theorem allocAddrSpace_listed {size frames pts : UInt32} {s₁ s₂ t : Machine} {r : Int} {as : AddrSpace}
    (some : freeList s ≠ []) (run : allocAddrSpace unheld fuel size s = .done (r, as) t)
    (first : kalloc fuel ((size / frameLen + 1) * 4) s = .done frames s₁)
    (second : kalloc fuel (((size / frameLen + 1) / ptEntries + 1) * 4) s₁ = .done pts s₂) :
    r = retSuccess ∧ frames ≠ 0 ∧ pts ≠ 0 := by
  rcases allocAddrSpace_result run with rfl | rfl
  · obtain ⟨valid, valid', -⟩ := allocAddrSpace_true first second run
    exact ⟨rfl, valid, valid'⟩
  · exact absurd (allocAddrSpace_failed run) some

theorem makeTss_null {tLen pd : UInt32} {u v : Machine} (run : kalloc fuel 4 u = .done 0 v) (r : UInt32)
    (t : Machine) : makeTss fuel tLen pd u ≠ .done r t := by
  intro made
  rw [makeTss, Prog.bind_done _ run] at made
  obtain ⟨tss, w, -, made⟩ := Prog.of_bind_done made
  obtain ⟨_, _, null, -⟩ := Prog.of_bind_done made
  cases null

/-- The pointer that was just stored is read back and written through. -/
theorem makeTss_faults {tLen pd archInfo : UInt32} {u v w : Machine} (first : kalloc fuel 4 u = .done archInfo v)
    (second : kalloc fuel tssSize v = .done 0 w) : makeTss fuel tLen pd u = .fault := by
  rw [makeTss, Prog.bind_done _ first, Prog.bind_done _ second]
  by_cases valid : archInfo = 0
  · rw [valid]
    exact Prog.bind_fault _ rfl
  · have word : (w.stored [(archInfo + 4 * 0, 0)]).mem.load (archInfo + 4 * 0) = 0 := Mem.load_store_same _ _ _
    rw [Prog.bind_done _ (assign_done valid _ _), Prog.get_bind_run]
    apply Prog.bind_fault
    rw [tssFields, setFields, Prog.bind_done _ (fetch_done valid 0), word]
    exact Prog.bind_fault _ rfl

/-- Where there are frames the routine does not come back. -/
theorem NoBlock.stuck {text tLen : UInt32} (missing : NoBlock fuel text tLen s) (some : freeList s ≠ [])
    (p : Process) (r : Int × Process) (t : Machine) : createProcess goOn fuel p text tLen s ≠ .done r t := by
  intro run
  rw [createProcess] at run
  obtain ⟨⟨result, as⟩, u, made, run⟩ := Prog.of_bind_done run
  have first := made
  rw [allocAddrSpace] at first
  obtain ⟨frames, s₁, given, second⟩ := Prog.of_bind_done first
  obtain ⟨pts, s₂, given', -⟩ := Prog.of_bind_done second
  obtain ⟨rfl, validF, validP⟩ := allocAddrSpace_listed some made given given'
  simp only [] at run
  rw [if_neg (by decide)] at run
  cases missing with
  | frames v null =>
    rw [null, Outcome.done.injEq] at given
    exact validF given.1.symm
  | pts frames' v w given'' null =>
    rw [given'', Outcome.done.injEq] at given
    rw [← given.2, null, Outcome.done.injEq] at given'
    exact validP given'.1.symm
  | space as' v w made' null =>
    rw [made', Outcome.done.injEq, Prod.mk.injEq] at made
    obtain ⟨⟨-, rfl⟩, rfl⟩ := made
    rw [Prog.bind_done _ null, Prog.bind_fault _ (putAddrSpace_null as' w)] at run
    cases run
  | info as' a v w x y z made' space put copied null =>
    rw [made', Outcome.done.injEq, Prod.mk.injEq] at made
    obtain ⟨⟨-, rfl⟩, rfl⟩ := made
    rw [Prog.bind_done _ space, Prog.bind_done _ put, Prog.bind_done _ copied] at run
    obtain ⟨archInfo, _, tss, -⟩ := Prog.of_bind_done run
    exact makeTss_null null archInfo _ tss
  | tss as' a archInfo v w x y z _ made' space put copied info null =>
    rw [made', Outcome.done.injEq, Prod.mk.injEq] at made
    obtain ⟨⟨-, rfl⟩, rfl⟩ := made
    rw [Prog.bind_done _ space, Prog.bind_done _ put, Prog.bind_done _ copied,
      Prog.bind_fault _ (makeTss_faults info null)] at run
    cases run

end

/-- With plenty of frames, a heap that runs out at any of the five calls is never handled. -/
theorem createProcess_unhandled {R : Region} {fuel : Nat} {s : Machine} {h : Heap R} {text tLen : UInt32}
    (p : Process) (plenty : 1 + numPts (tLen + dataLen) + numFrames (tLen + dataLen) ≤ (freeList s).length)
    (missing : NoBlock fuel text tLen s) : ¬HandlesExhaustion fuel s h p text tLen := by
  rintro ⟨q, t, run, -⟩
  refine missing.stuck ?_ p _ t run
  intro empty
  rw [empty, List.length_nil] at plenty
  omega

section
variable {unheld : Prog Machine Unit} {fuel : Nat} {s : Machine}

/-- A table's link, or its first page, is written through the null pointer. -/
theorem fillTables_null {as : AddrSpace} {left : Nat} {i p : UInt32} (missing : as.pts = 0 ∨ as.frames = 0)
    (wanted : p ≠ 0) (some : freeList s ≠ []) : fillTables unheld fuel as (left + 1) i p s = .fault := by
  rcases memmanAllocFrame_cases s with ⟨empty, -⟩ | ⟨f, fs, -, first⟩
  · exact absurd empty some
  · rw [fillTables, Prog.bind_done _ first]
    simp only []
    by_cases pts : as.pts = 0
    · apply Prog.bind_fault
      rw [assign, if_pos pts]
      rfl
    · rw [Prog.bind_done _ (assign_done pts i _)]
      simp only [Bool.false_eq_true, if_false]
      apply Prog.bind_fault
      change fillTable unheld fuel as i (1023 + 1) 0 p _ = .fault
      have frames : ∀ a, assign as.frames 0 a = Prog.fault := fun a => if_pos (missing.resolve_left pts)
      rcases memmanAllocFrame_cases ((s.claimed [f]).stored [(as.pts + 4 * i, frameAddr f)]) with
        ⟨-, second⟩ | ⟨g, gs, -, second⟩
      · rw [fillTable, if_neg wanted, Prog.bind_done _ second]
        simp only [frames]
        exact Prog.bind_fault _ rfl
      · rw [fillTable, if_neg wanted, Prog.bind_done _ second]
        simp only [frames]
        exact Prog.bind_fault _ rfl

theorem allocAddrSpace_null {size frames pts : UInt32} {s₁ s₂ : Machine}
    (first : kalloc fuel ((size / frameLen + 1) * 4) s = .done frames s₁)
    (second : kalloc fuel (((size / frameLen + 1) / ptEntries + 1) * 4) s₁ = .done pts s₂)
    (missing : pts = 0 ∨ frames = 0) (plenty : 2 ≤ (freeList s).length) :
    allocAddrSpace unheld fuel size s = .fault := by
  obtain ⟨m₁, rfl⟩ := kalloc_mem first
  obtain ⟨m₂, rfl⟩ := kalloc_mem second
  rcases memmanAllocFrame_cases ((s.withMem m₁).withMem m₂) with ⟨empty, -⟩ | ⟨f, fs, list, third⟩
  · rw [show freeList s = [] from empty] at plenty
    exact absurd plenty (by decide)
  · rw [show freeList s = f :: fs from list, List.length_cons] at plenty
    have rest : freeList (((s.withMem m₁).withMem m₂).claimed [f]) = fs :=
      freeList_claimed (show freeList ((s.withMem m₁).withMem m₂) = [f] ++ fs from list)
    have wanted : size / frameLen + 1 ≠ 0 := by
      intro zero
      have value := numFrames_toNat size
      rw [zero] at value
      exact absurd value.symm (Nat.succ_ne_zero _)
    rw [allocAddrSpace_eq first second third, numPts_eq]
    apply Prog.bind_fault
    refine fillTables_null missing wanted ?_
    rintro empty
    rw [show freeList (((s.withMem m₁).withMem m₂).claimed [f]) = [] from empty] at rest
    rw [← rest, List.length_nil] at plenty
    omega

/-- A heap that cannot give the five blocks of a process is written to at address zero. -/
theorem createProcess_faults {R : Region} {h : Heap R} {text tLen : UInt32} (p : Process) (hosts : Hosts s h)
    (steps : R.length.toNat / 8 < fuel) (spared : Spared R s 1) (few : numFrames (tLen + dataLen) < 1024)
    (plenty : 1 + numPts (tLen + dataLen) + numFrames (tLen + dataLen) ≤ (freeList s).length)
    (missing : ∀ b c d e g h₂ h', ¬Blocks h (tLen + dataLen) b c d e g h₂ h') :
    createProcess unheld fuel p text tLen s = .fault := by
  have shape := numPts_eq (tLen + dataLen)
  have smallF : ((((tLen + dataLen) / frameLen + 1) * 4).toNat + 3) / 4 * 4 + 8 < 4294967296 := by
    rw [list_small]
    omega
  have smallP : (((((tLen + dataLen) / frameLen + 1) / ptEntries + 1) * 4).toNat + 3) / 4 * 4 + 8 < 4294967296 := by
    rw [pts_small]
    omega
  rw [createProcess]
  rcases hosts.request steps _ smallF with ⟨-, runF⟩ | ⟨b, h₁, m₁, framesGiven, runF, hosts₁, -⟩
  · apply Prog.bind_fault
    rcases hosts.request steps _ smallP with ⟨-, runP⟩ | ⟨c, h', m, -, runP, -, -⟩
    · exact allocAddrSpace_null runF runP (Or.inr rfl) (by omega)
    · exact allocAddrSpace_null runF runP (Or.inr rfl) (by omega)
  · rcases hosts₁.request steps _ smallP with ⟨-, runP⟩ | ⟨c, h₂, m₂, ptsGiven, -, -, -⟩
    · apply Prog.bind_fault
      exact allocAddrSpace_null runF runP (Or.inl rfl) (by omega)
    · cases list : freeList s with
      | nil =>
        rw [list] at plenty
        simp at plenty
      | cons pd fs =>
        rw [list, List.length_cons] at plenty
        obtain ⟨as, u, m, made, built⟩ := allocAddrSpace_done hosts steps spared.weaken list
          (by rw [demand_eq]; omega) framesGiven ptsGiven
        obtain ⟨frames, valid, -, listed, long, names⟩ := built.names spared (by omega) fun k _ _ => by omega
        have hosts₂ := built.hosts_after spared (by omega)
        rw [Prog.bind_done _ (made unheld)]
        simp only []
        rw [if_neg (by decide)]
        rcases hosts₂.request steps 20 (by decide) with ⟨-, run₃⟩ | ⟨d, h₃, m₃, third, -, -, -⟩
        · rw [Prog.bind_done _ run₃]
          exact Prog.bind_fault _ (putAddrSpace_null as u)
        · obtain ⟨m₃', m₅, run₃, run₅, hosts₅, -, -⟩ := placeText_done steps spared hosts₂ third listed frames
            valid long text tLen names
          rw [Prog.bind_done _ run₃, Prog.bind_done _ (putAddrSpace_done (h₂.request_some third).valid as _),
            Prog.bind_done _ run₅]
          apply Prog.bind_fault
          rcases hosts₅.request steps 4 (by decide) with ⟨-, run₄⟩ | ⟨e, h₄, m₄, fourth, run₄, hosts₄, -⟩
          · have faulty : ∀ tss (w : Machine), kalloc fuel tssSize (u.withMem m₅) = .done tss w →
                makeTss fuel tLen as.pd (u.withMem m₅) = .fault := by
              intro tss w given
              rw [makeTss, Prog.bind_done _ run₄, Prog.bind_done _ given]
              exact Prog.bind_fault _ rfl
            rcases hosts₅.request steps tssSize (by decide) with ⟨-, given⟩ | ⟨g, h', m', -, given, -, -⟩
            · exact faulty _ _ given
            · exact faulty _ _ given
          · rcases hosts₄.request steps tssSize (by decide) with ⟨-, null⟩ | ⟨g, h', m', fifth, -, -, -⟩
            · exact makeTss_faults run₄ null
            · exact absurd ⟨⟨h₁, framesGiven, ptsGiven⟩, h₃, h₄, third, fourth, fifth⟩ (missing b c d e g h₂ h')

end

/-- A heap of 64 bytes. -/
def slim : Region where
  base := 0x100000
  length := 64
  aligned := rfl
  enough := Nat.le_of_ble_eq_true rfl
  room := Nat.le_of_ble_eq_true rfl

theorem slim_none : (Heap.init slim).request 68 = none := by decide +kernel

theorem spared_slim (m : Mem) (behind : Nat) : Spared slim (fourMegabytes m) behind where
  count := (spared_fourMegabytes m behind).count
  apart := by
    intro f free
    rw [freeList_fourMegabytes, List.mem_range'_1] at free
    change 1048640 ≤ 4096 * f ∨ _
    omega

theorem plenty_fourMegabytes (m : Mem) :
    1 + numPts (10 + dataLen) + numFrames (10 + dataLen) ≤ (freeList (fourMegabytes m)).length := by
  rw [freeList_fourMegabytes, List.length_range']
  decide

theorem createProcess_unhandled_slim : ∃ m₀, initAlloc 0x100000 64 (fun _ => 0) = .done retSuccess m₀ ∧
    ¬HandlesExhaustion 9 (fourMegabytes m₀) (Heap.init slim) ⟨0, .null, 0, 0⟩ 0x3000 10 := by
  obtain ⟨m₀, init, rep⟩ := initAlloc_done slim fun _ => 0
  have hosts : Hosts (fourMegabytes m₀) (Heap.init slim) := ⟨rfl, rfl, rep⟩
  have enough : slim.length.toNat / 8 < 9 := by decide
  rcases hosts.request enough 68 (by decide) with ⟨-, null⟩ | ⟨b, h', m, given, -⟩
  · exact ⟨m₀, init, createProcess_unhandled _ (plenty_fourMegabytes m₀) (NoBlock.frames _ null)⟩
  · rw [slim_none] at given
    cases given

/-- There the routine writes through the null pointer. -/
theorem createProcess_null : ∃ m₀, initAlloc 0x100000 64 (fun _ => 0) = .done retSuccess m₀ ∧
    createProcess goOn 9 ⟨0, .null, 0, 0⟩ 0x3000 10 (fourMegabytes m₀) = .fault ∧
    ¬HandlesExhaustion 9 (fourMegabytes m₀) (Heap.init slim) ⟨0, .null, 0, 0⟩ 0x3000 10 := by
  obtain ⟨m₀, init, rep⟩ := initAlloc_done slim fun _ => 0
  have hosts : Hosts (fourMegabytes m₀) (Heap.init slim) := ⟨rfl, rfl, rep⟩
  have faults : createProcess goOn 9 ⟨0, .null, 0, 0⟩ 0x3000 10 (fourMegabytes m₀) = .fault := by
    refine createProcess_faults _ hosts (by decide) (spared_slim m₀ 1) (by decide) (plenty_fourMegabytes m₀) ?_
    rintro b c d e g h₂ h' ⟨⟨h₁, first, -⟩, -⟩
    have none : (Heap.init slim).request (((10 + dataLen) / frameLen + 1) * 4) = none := slim_none
    rw [none] at first
    cases first
  refine ⟨m₀, init, faults, ?_⟩
  rintro ⟨q, t, run, -⟩
  rw [faults] at run
  cases run

end Sos.Kernel
