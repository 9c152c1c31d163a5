import Mathlib.Data.Set.Basic
import Sos.Kernel.Mapping

/-! Which user addresses a new address space maps. The loop over the page tables writes
only the entries it needs, and the tables' frames are not cleared. -/

namespace Sos.Kernel
open Sos.Lib Machine

/-- The user addresses that the page walk finds present. -/
def present (t : Machine) (as : AddrSpace) : Set Nat :=
  {x | ∃ va : UInt32, va.toNat = x ∧ memspaceUserMem ≤ va ∧ (pageWalk t.mem as.pd va).isSome}

/-- The addresses of the pages that were asked for. -/
def allocated (size : UInt32) : Set Nat :=
  {x | ∃ k, k < numFrames size ∧ memspaceUserMem.toNat + 4096 * k ≤ x ∧
    x < memspaceUserMem.toNat + 4096 * (k + 1)}

def Isolated (t : Machine) (as : AddrSpace) (size : UInt32) : Prop := present t as = allocated size

theorem memspaceUserMem_toNat : memspaceUserMem.toNat = 1073741824 := by decide

theorem mem_allocated {size : UInt32} {x : Nat} : x ∈ allocated size ↔
    ∃ k, k < numFrames size ∧ 1073741824 + 4096 * k ≤ x ∧ x < 1073741824 + 4096 * (k + 1) := by
  unfold allocated
  rw [memspaceUserMem_toNat]
  rfl

/-- The `n`th free frame. -/
def nthFree (s : Machine) (n : Nat) : Nat := (freeList s).getD n 0

/-- The first free frame becomes the directory. Every page table goes to the free frame
behind those of the pages before it; no entry in the rest of it is marked present. -/
def StaleAbsent (s : Machine) (size : UInt32) : Prop :=
  ∀ i j, i < numPts size → i < 768 → j < 1024 → numFrames size ≤ 1024 * i + j →
    s.mem.load (frameAddr (nthFree s (1 + 1025 * i)) + 4 * UInt32.ofNat j) &&& 1 = 0

theorem pageWalk_isSome {m : Mem} {pd va : UInt32} {f : Nat} (small : f < 1048576)
    (entry : m.load (pd + 4 * (va >>> (22 : UInt32))) = frameToPdeUser (frameAddr f)) :
    (pageWalk m pd va).isSome ↔
      m.load (frameAddr f + 4 * ((va >>> (12 : UInt32)) &&& 0x3FF)) &&& 1 ≠ 0 := by
  rw [pageWalk_entry small entry]
  simp only []
  by_cases absent : m.load (frameAddr f + 4 * ((va >>> (12 : UInt32)) &&& 0x3FF)) &&& 1 = 0
  · simp [absent]
  · simp [absent]

namespace Built
variable {R : Region} {s t : Machine} {h h' : Heap R} {size : UInt32} {as : AddrSpace} {b c : Slot}
  {m : Mem} {pd : Nat} {fs : List Nat} {behind : Nat} (built : Built s h size as t b c h' m pd fs)
include built

theorem nthFree_table (i : Nat) : nthFree s (1 + 1025 * i) = tableFrame fs i := by
  rw [nthFree, built.list, Nat.add_comm, List.getD_cons_succ, tableFrame]

variable (spared : Spared R s behind)
include spared

/-- A user address is present when it is in a page, or when its table's frame already
had an entry there. -/
theorem present_iff {va : UInt32} {i j o : Nat} (last : i < 768) (small : j < 1024) (short : o < 4096)
    (place : va.toNat = 1073741824 + 4096 * (1024 * i + j) + o) :
    (pageWalk t.mem as.pd va).isSome ↔ 1024 * i + j < numFrames size ∨ i < numPts size ∧
      s.mem.load (frameAddr (nthFree s (1 + 1025 * i)) + 4 * UInt32.ofNat j) &&& 1 ≠ 0 := by
  have shape := numPts_eq size
  by_cases inside : i < numPts size
  · have free := spared.small (built.tableFrame_mem inside)
    obtain ⟨entry, word⟩ := built.walk_user spared inside last small short place
    rw [pageWalk_isSome free entry, word, built.nthFree_table]
    rcases built.table_word spared inside small with
      ⟨wanted, page⟩ | ⟨k, inside', past, next⟩ | ⟨rest, stale⟩
    · rw [page, frameToPteUser_eq (spared.small (built.pageFrame_mem wanted))]
      exact iff_of_true (entry_present (spared.small (built.pageFrame_mem wanted))) (Or.inl wanted)
    · rw [next, frameToPdeUser_eq (spared.small (built.tableFrame_mem inside'))]
      exact iff_of_true (entry_present (spared.small (built.tableFrame_mem inside'))) (Or.inl (by omega))
    · rw [stale]
      constructor
      · exact fun set => Or.inr ⟨inside, set⟩
      · rintro (wanted | ⟨-, set⟩)
        · omega
        · exact set
  · have index := (user_indices small short place).1
    have entry := built.user_word spared (e := i + 256) (by omega) (by omega)
    rw [show i + 256 - 256 = i by omega, if_neg inside, ← index] at entry
    rw [pageWalk_absent entry]
    refine iff_of_false (by simp) ?_
    rintro (wanted | ⟨inside', -⟩)
    · omega
    · exact inside inside'

theorem isolated_iff : Isolated t as size ↔ numFrames size ≤ 786432 ∧ StaleAbsent s size := by
  constructor
  · intro isolated
    have same : ∀ x, x ∈ present t as ↔ x ∈ allocated size := fun x => by rw [isolated]
    have reach : numFrames size ≤ 786432 := by
      by_contra beyond
      have past : 4294967296 ∈ allocated size :=
        mem_allocated.mpr ⟨786432, by omega, by omega, by omega⟩
      obtain ⟨va, value, -⟩ := (same _).mpr past
      have bound := va.toNat_lt
      omega
    refine ⟨reach, ?_⟩
    intro i j inside last small rest
    by_contra set
    have place := user_address (k := 1024 * i + j) (o := 0) (by omega) (by omega)
    have found := (built.present_iff spared last small (o := 0) (by omega) place).mpr (Or.inr ⟨inside, set⟩)
    obtain ⟨k, wanted, lower, upper⟩ := mem_allocated.mp
      ((same (1073741824 + 4096 * (1024 * i + j) + 0)).mp
        ⟨_, place, UInt32.le_iff_toNat_le.mpr (by rw [place, memspaceUserMem_toNat]; omega), found⟩)
    omega
  · rintro ⟨reach, absent⟩
    apply Set.ext
    intro x
    constructor
    · rintro ⟨va, rfl, user, found⟩
      have lower := UInt32.le_iff_toNat_le.mp user
      have bound := va.toNat_lt
      rw [memspaceUserMem_toNat] at lower
      obtain ⟨q, o, short, place⟩ : ∃ q o, o < 4096 ∧ va.toNat = 1073741824 + 4096 * q + o :=
        ⟨(va.toNat - 1073741824) / 4096, va.toNat % 4096, by omega, by omega⟩
      have page : 1073741824 + 4096 * q ≤ va.toNat ∧ va.toNat < 1073741824 + 4096 * (q + 1) := by omega
      have split : 1024 * (q / 1024) + q % 1024 = q := by omega
      have reached := (built.present_iff spared (i := q / 1024) (j := q % 1024) (by omega) (by omega) short
        (by rw [split]; exact place)).mp found
      rw [split] at reached
      refine mem_allocated.mpr ⟨q, ?_, page.1, page.2⟩
      rcases reached with wanted | ⟨inside, set⟩
      · exact wanted
      · by_contra past
        exact set (absent _ _ inside (by omega) (by omega) (by omega))
    · intro member
      obtain ⟨k, wanted, lower, upper⟩ := mem_allocated.mp member
      have place := user_address (k := k) (o := x - (1073741824 + 4096 * k)) (by omega) (by omega)
      have found := (built.present_iff spared (i := k / 1024) (j := k % 1024) (by omega) (by omega)
        (o := x - (1073741824 + 4096 * k)) (by omega) (by rw [place]; omega)).mpr (Or.inl (by omega))
      exact ⟨_, by rw [place]; omega, UInt32.le_iff_toNat_le.mpr (by rw [place, memspaceUserMem_toNat]; omega),
        found⟩

end Built

/-- After a successful `alloc_addr_space` exactly the pages asked for are present in the
user's range if and only if they fit there and the frames that became page tables held no
entry marked present behind the ones written. -/
theorem allocAddrSpace_isolated_iff {R : Region} {s t : Machine} {h : Heap R} {fuel : Nat} {size : UInt32}
    {as : AddrSpace} (hosts : Hosts s h) (steps : R.length.toNat / 8 < fuel) (spared : Spared R s 0)
    (run : allocAddrSpace goOn fuel size s = .done (retSuccess, as) t) :
    Isolated t as size ↔ numFrames size ≤ 786432 ∧ StaleAbsent s size := by
  obtain ⟨b, c, h', m, pd, fs, built⟩ := allocAddrSpace_built hosts steps spared run
  exact built.isolated_iff spared

theorem allocAddrSpace_isolated_iff_small : ∃ m₀ as t,
    initAlloc 0x100000 0x100000 (fun _ => 0) = .done retSuccess m₀ ∧
    allocAddrSpace goOn 131073 0 (fourMegabytes m₀) = .done (retSuccess, as) t ∧
    (Isolated t as 0 ↔ numFrames 0 ≤ 786432 ∧ StaleAbsent (fourMegabytes m₀) 0) := by
  obtain ⟨m₀, as, t, b, c, h', m', fs, init, hosts, run, -⟩ := allocAddrSpace_small fun _ => 0
  exact ⟨m₀, as, t, init, run,
    allocAddrSpace_isolated_iff hosts (by decide) (spared_fourMegabytes m₀ 0) run⟩

/-- Behind the one page asked for there are others when the frames held only ones. -/
theorem allocAddrSpace_shared : ∃ m₀ as t,
    initAlloc 0x100000 0x100000 (fun _ => 0xFF) = .done retSuccess m₀ ∧
    allocAddrSpace goOn 131073 0 (fourMegabytes m₀) = .done (retSuccess, as) t ∧ ¬Isolated t as 0 := by
  obtain ⟨m₀, as, t, b, c, h', m', fs, init, -, run, built⟩ := allocAddrSpace_small fun _ => 0xFF
  refine ⟨m₀, as, t, init, run, ?_⟩
  rw [built.isolated_iff (spared_fourMegabytes m₀ 0)]
  rintro ⟨-, absent⟩
  have second : nthFree (fourMegabytes m₀) 1 = 513 := by
    rw [nthFree, freeList_fourMegabytes]
    rfl
  have word := absent 0 1 (by decide) (by decide) (by decide) (by decide)
  rw [Nat.mul_zero, Nat.add_zero, second] at word
  cases init
  exact absurd word (by decide +kernel)

end Sos.Kernel
