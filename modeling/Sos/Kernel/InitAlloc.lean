import Sos.Kernel.HeapSizes

/-! `init_alloc` on any region, wherever it is and however long, and the calls of `alloc` behind it. There is
one free block then, the last of the region. -/

namespace Sos.Kernel
open Sos.Lib

/-- `n` bytes from `a` on are among the `length` bytes from `base` on. -/
def InRegion (base length a : UInt32) (n : ℕ) : Prop := (a - base).toNat + n ≤ length.toNat

/-- Both list heads are in the region, and the first free block with its header and data. -/
def SoundHeap (base length : UInt32) (m : Mem) : Prop :=
  InRegion base length base 8 ∧ InRegion base length (m.load base) (8 + (slotLen m (m.load base)).toNat)

/-- The sum of the rounded size and the header does not wrap, or the request is refused. -/
def FitsHeap (base size : UInt32) (m : Mem) : Prop :=
  size.toNat + 12 ≤ 4294967296 ∨ m.load base = 0 ∨ slotLen m (m.load base) < roundUp size + 8

/-- Blocks are asked for, and bytes stored to what was given away. -/
inductive HeapUse where
  | alloc (size : UInt32)
  | write (a : UInt32) (v : UInt8)

def HeapUse.run (fuel : ℕ) (base : UInt32) : HeapUse → Prog Mem UInt32
  | alloc size => Kernel.alloc fuel base size
  | write a v => do
    Prog.modify fun m x => if x = a then v else m x
    return 0

def HeapUse.Allowed (base : UInt32) : HeapUse → Mem → Prop
  | alloc size, m => FitsHeap base size m
  | write a _, m => 8 ≤ (a - base).toNat ∧ (a - base).toNat < (m.load base - base).toNat

/-- The only free block, `o` bytes behind the base, is the end of the region. -/
structure OneFree (base length : UInt32) (m : Mem) (o : UInt32) : Prop where
  head : m.load base = base + o
  behind : 8 ≤ o.toNat
  last : m.load (base + o) = 0
  tail : o.toNat + 8 + (slotLen m (base + o)).toNat = length.toNat
  used : base + o ≠ 0 → m.load (usedList base) ≠ base + o

section
variable {base length : UInt32} {m : Mem}

theorem load_store_head (v : UInt32) {y : UInt32} (room : y.toNat + 4 ≤ 4294967296) (behind : 4 ≤ y.toNat) :
    (m.store base v).load (base + y) = m.load (base + y) := by
  have apart := Mem.load_store_from m base v (x := 0) (y := y) (by decide) room (.inr (by simpa using behind))
  rwa [UInt32.add_zero] at apart

theorem load_head_store (v : UInt32) {x : UInt32} (room : x.toNat + 4 ≤ 4294967296) (behind : 4 ≤ x.toNat) :
    (m.store (base + x) v).load base = m.load base := by
  have apart := Mem.load_store_from m base v (x := x) (y := 0) room (by decide) (.inl (by simpa using behind))
  rwa [UInt32.add_zero] at apart

theorem offset_sub (o : UInt32) : base + o - base = o := by
  rw [UInt32.add_comm, UInt32.add_sub_cancel]

/-- What `init_alloc` leaves when it succeeds. -/
theorem initAlloc_words {m₀ : Mem} (run : initAlloc base length m = .done retSuccess m₀) : 8 ≤ length.toNat ∧
    m₀.load base = base + 8 ∧ m₀.load (base + 8) = 0 ∧ slotLen m₀ (base + 8) = length - 8 - 8 ∧
    m₀.load (usedList base) = 0 := by
  unfold initAlloc at run
  by_cases short : length < 8
  · rw [if_pos short] at run
    cases run
  · rw [if_neg short] at run
    have long : 8 ≤ length.toNat := by
      rw [UInt32.lt_iff_toNat_lt] at short
      exact Nat.not_lt.mp short
    have final : (((m.store (usedList base) 0).store (base + 8) 0).store (base + 8 + 4) (length - 8 - 8)).store
        base (base + 8) = m₀ := by
      cases run
      rfl
    have header : base + 8 + 4 = base + 12 := UInt32.add_assoc base 8 4
    rw [header] at final
    subst final
    refine ⟨long, Mem.load_store_same _ _ _, ?_, ?_, ?_⟩
    · rw [load_store_head _ (by decide) (by decide), Mem.load_store_from _ _ _ (by decide) (by decide) (by decide),
        Mem.load_store_same]
    · rw [slotLen, header, load_store_head _ (by decide) (by decide), Mem.load_store_same]
    · rw [usedList, load_store_head _ (by decide) (by decide),
        Mem.load_store_from _ _ _ (by decide) (by decide) (by decide),
        Mem.load_store_from _ _ _ (by decide) (by decide) (by decide), Mem.load_store_same]

theorem soundHeap_iff {m₀ : Mem} (run : initAlloc base length m = .done retSuccess m₀) :
    SoundHeap base length m₀ ↔ 16 ≤ length.toNat := by
  obtain ⟨long, head, -, len, -⟩ := initAlloc_words run
  have bound := length.toNat_lt
  have rest : (length - 8 - 8).toNat = (length.toNat + 4294967280) % 4294967296 := by
    rw [UInt32.toNat_sub, UInt32.toNat_sub]
    simp
    omega
  unfold SoundHeap InRegion
  rw [head, len, offset_sub, UInt32.sub_self, rest]
  simp
  omega

theorem initAlloc_oneFree {m₀ : Mem} (run : initAlloc base length m = .done retSuccess m₀)
    (long : 16 ≤ length.toNat) : OneFree base length m₀ 8 := by
  obtain ⟨-, head, last, len, used⟩ := initAlloc_words run
  refine ⟨head, Nat.le_refl 8, last, ?_, ?_⟩
  · have bound := length.toNat_lt
    rw [len, UInt32.toNat_sub, UInt32.toNat_sub]
    simp
    omega
  · intro nonzero same
    rw [used] at same
    exact nonzero same.symm

namespace OneFree
variable {o : UInt32} (one : OneFree base length m o)
include one

theorem sound : SoundHeap base length m := by
  have behind := one.behind
  have tail := one.tail
  unfold SoundHeap InRegion
  rw [one.head, offset_sub, UInt32.sub_self]
  simp
  omega

/-- The free list is this block, or none where its address is the null pointer. -/
theorem chain : Chain m.load 0 base (if base + o = 0 then [] else [base + o]) := by
  by_cases null : base + o = 0
  · rw [if_pos null]
    exact one.head.trans null
  · rw [if_neg null]
    exact ⟨one.head, null, one.last⟩

theorem alloc_refused {size : UInt32} (fuel : ℕ)
    (refused : base + o = 0 ∨ slotLen m (base + o) < roundUp size + 8) :
    Kernel.alloc (fuel + 2) base size m = .done 0 m := by
  have missed := search_end (fuel + 2) (fun m p => ¬slotLen m p < roundUp size + 8) one.chain
    (by split <;> simp) (by
      intro y member
      split at member
      · cases member
      · next valid =>
        rw [List.mem_singleton.mp member]
        simpa using refused.resolve_left valid)
  rw [alloc_eq, Prog.bind_done _ missed]
  rfl

theorem alloc_taken {size : UInt32} (fuel : ℕ) (valid : base + o ≠ 0)
    (passes : ¬slotLen m (base + o) < roundUp size + 8) :
    Kernel.alloc (fuel + 2) base size m = take base (base + o) 0 (roundUp size) m := by
  have chain := one.chain
  rw [if_neg valid] at chain
  have hit := search_hit (fuel + 2) (fun m p => ¬slotLen m p < roundUp size + 8)
    (show Chain m.load 0 _ ([] ++ [base + o]) from chain) (by simp) (by simp) (by simpa using passes)
  rw [alloc_eq, Prog.bind_done _ hit]
  exact congrFun (if_neg valid) m

/-- The memory that `take` leaves when the block at `o` is split at `k` and is the last free one: `rest`
bytes are left, and `u` is used besides. -/
def splitAt (base o k size rest u : UInt32) (m : Mem) : Mem :=
  (((((((m.store base 0).store (base + k) 0).store (base + (k + 4)) rest).store base (base + k)).store
    (base + (o + 4)) size).store (base + o) u).store (base + 4) (base + o))

omit one in
theorem behind_toNat {x : UInt32} (k : ℕ) (small : k < 4294967296) (room : x.toNat + k < 4294967296) :
    (x + UInt32.ofNat k).toNat = x.toNat + k := by
  rw [UInt32.toNat_add, UInt32.toNat_ofNat']
  omega

omit one in
theorem rest_toNat {len size : UInt32} (fits : size.toNat + 8 ≤ len.toNat) :
    (len - size - 8).toNat = len.toNat - size.toNat - 8 := by
  have enough : size ≤ len := by
    rw [UInt32.le_iff_toNat_le]
    omega
  have left : (len - size).toNat = len.toNat - size.toNat := UInt32.toNat_sub_of_le _ _ enough
  have enough' : 8 ≤ len - size := by
    rw [UInt32.le_iff_toNat_le, left]
    change 8 ≤ _
    omega
  rw [UInt32.toNat_sub_of_le _ _ enough', left]
  rfl

section
variable {size : UInt32} (fits : size.toNat + 8 ≤ (slotLen m (base + o)).toNat)
include fits

theorem split_toNat : (o + 8 + size).toNat = o.toNat + 8 + size.toNat := by
  have tail := one.tail
  have bound := length.toNat_lt
  have header : (o + 8).toNat = o.toNat + 8 := behind_toNat 8 (by decide) (by omega)
  rw [UInt32.toNat_add, header]
  omega

theorem take_done : ∃ u, take base (base + o) 0 size m = .done (base + o + 8)
    (splitAt base o (o + 8 + size) size (slotLen m (base + o) - size - 8) u m) := by
  have tail := one.tail
  have bound := length.toNat_lt
  have next := one.split_toNat fits
  have header : (o + 4).toNat = o.toNat + 4 := behind_toNat 4 (by decide) (by omega)
  have sum : (size + 8).toNat = size.toNat + 8 := behind_toNat 8 (by decide) (by omega)
  have place : base + o + 8 + size = base + (o + 8 + size) := by
    rw [UInt32.add_assoc, UInt32.add_assoc, UInt32.add_assoc]
  have at_len : base + o + 4 = base + (o + 4) := UInt32.add_assoc base o 4
  have at_rest : base + (o + 8 + size) + 4 = base + (o + 8 + size + 4) := UInt32.add_assoc base _ 4
  have kept : ∀ v, (m.store base v).load (base + (o + 4)) = m.load (base + (o + 4)) :=
    fun v => load_store_head v (by omega) (by omega)
  have len : ∀ v w, ((m.store base v).store (base + (o + 8 + size)) w).load (base + (o + 4)) =
      m.load (base + (o + 4)) := by
    intro v w
    rw [Mem.load_store_from _ _ _ (by omega) (by omega) (by omega), kept]
  have large : slotLen m (base + o) ≥ size + 8 := by
    rw [ge_iff_le, UInt32.le_iff_toNat_le, sum]
    exact fits
  have unlinked : unlink base (base + o) 0 m = .done () (m.store base 0) := by
    rw [unlink, if_pos rfl]
    simp only [load, store, Prog.get_bind_run, one.head, one.last]
    rfl
  unfold take
  rw [Prog.bind_done _ unlinked]
  simp only [load, store, setLen, Prog.get_bind_run, at_len, kept]
  rw [slotLen, at_len] at large
  rw [if_pos large]
  simp only [Prog.get_bind_run, Prog.modify_bind_run, place, at_rest, len, Mem.load_store_same]
  rw [slotLen, at_len]
  exact ⟨_, rfl⟩

theorem splitAt_oneFree (u : UInt32) : OneFree base length
    (splitAt base o (o + 8 + size) size (slotLen m (base + o) - size - 8) u m) (o + 8 + size) := by
  have behind := one.behind
  have tail := one.tail
  have bound := length.toNat_lt
  have next := one.split_toNat fits
  have header : (o + 4).toNat = o.toNat + 4 := behind_toNat 4 (by decide) (by omega)
  have next_header : (o + 8 + size + 4).toNat = o.toNat + 8 + size.toNat + 4 := by
    rw [← next]
    exact behind_toNat 4 (by decide) (by omega)
  have four : (4 : UInt32).toNat = 4 := rfl
  have at_rest : base + (o + 8 + size) + 4 = base + (o + 8 + size + 4) := UInt32.add_assoc base _ 4
  unfold splitAt
  constructor
  · rw [load_head_store _ (by decide) (by decide), load_head_store _ (by omega) (by omega),
      load_head_store _ (by omega) (by omega), Mem.load_store_same]
  · omega
  · rw [Mem.load_store_from _ _ _ (by decide) (by omega) (by omega),
      Mem.load_store_from _ _ _ (by omega) (by omega) (by omega),
      Mem.load_store_from _ _ _ (by omega) (by omega) (by omega), load_store_head _ (by omega) (by omega),
      Mem.load_store_from _ _ _ (by omega) (by omega) (by omega), Mem.load_store_same]
  · rw [slotLen, at_rest, Mem.load_store_from _ _ _ (by decide) (by omega) (by omega),
      Mem.load_store_from _ _ _ (by omega) (by omega) (by omega),
      Mem.load_store_from _ _ _ (by omega) (by omega) (by omega), load_store_head _ (by omega) (by omega),
      Mem.load_store_same, next, rest_toNat fits]
    omega
  · intro _ same
    rw [usedList, Mem.load_store_same, UInt32.add_right_inj] at same
    have number := congrArg UInt32.toNat same
    omega

/-- The block is split, and its rest is the free block from now on. -/
theorem take_fits :
    ∃ m', take base (base + o) 0 size m = .done (base + o + 8) m' ∧ OneFree base length m' (o + 8 + size) := by
  obtain ⟨u, run⟩ := one.take_done fits
  exact ⟨_, run, one.splitAt_oneFree fits u⟩

end

theorem alloc_fits {size : UInt32} (fuel : ℕ) (small : size.toNat + 12 ≤ 4294967296) (valid : base + o ≠ 0)
    (passes : ¬slotLen m (base + o) < roundUp size + 8) :
    ∃ m' o', Kernel.alloc (fuel + 2) base size m = .done (base + o + 8) m' ∧ OneFree base length m' o' ∧
      size.toNat ≤ (slotLen m (base + o)).toNat := by
  have rounded : (roundUp size).toNat = (size.toNat + 3) / 4 * 4 := roundUp_toNat (by omega)
  have sum : (roundUp size + 8).toNat = (roundUp size).toNat + 8 := behind_toNat 8 (by decide) (by omega)
  have room : (roundUp size).toNat + 8 ≤ (slotLen m (base + o)).toNat := by
    rw [← sum]
    exact Nat.not_lt.mp fun less => passes (UInt32.lt_iff_toNat_lt.mpr less)
  obtain ⟨m', run, one'⟩ := one.take_fits room
  refine ⟨m', _, ?_, one', by omega⟩
  rw [one.alloc_taken fuel valid passes, run]

/-- A request is refused or met inside of the region if and only if its size does no harm. -/
theorem alloc_iff (fuel : ℕ) (size : UInt32) : ∃ p m', Kernel.alloc (fuel + 2) base size m = .done p m' ∧
    (p = 0 ∧ m' = m ∨ InRegion base length (p - 8) (8 + size.toNat) ↔ FitsHeap base size m) := by
  have behind := one.behind
  have tail := one.tail
  have bound := length.toNat_lt
  unfold FitsHeap
  rw [one.head]
  by_cases refused : base + o = 0 ∨ slotLen m (base + o) < roundUp size + 8
  · exact ⟨0, m, one.alloc_refused fuel refused, iff_of_true (.inl ⟨rfl, rfl⟩) (.inr refused)⟩
  · rw [not_or] at refused
    have place : (base + o + 8 - 8 - base).toNat = o.toNat := by
      rw [UInt32.add_sub_cancel, offset_sub]
    by_cases small : size.toNat + 12 ≤ 4294967296
    · obtain ⟨m', o', run, -, room⟩ := one.alloc_fits fuel small refused.1 refused.2
      refine ⟨_, m', run, iff_of_true (.inr ?_) (.inl small)⟩
      rw [InRegion, place]
      omega
    · obtain ⟨m', given⟩ := take_returns base (base + o) 0 (roundUp size) m
      refine ⟨_, _, (one.alloc_taken fuel refused.1 refused.2).trans given, iff_of_false ?_ ?_⟩
      · rintro (⟨-, same⟩ | inside)
        · have head := one.used refused.1
          rw [← same, Mem.load_store_same] at head
          exact head rfl
        · rw [InRegion, place] at inside
          omega
      · rintro (small' | again)
        · exact small small'
        · exact again.elim refused.1 refused.2

/-- Bytes in front of the free block are none of its header and none of the list heads. -/
theorem written {a : UInt32} (v : UInt8) (inside : 8 ≤ (a - base).toNat) (front : (a - base).toNat < o.toNat) :
    OneFree base length (fun x => if x = a then v else m x) o := by
  have tail := one.tail
  have bound := length.toNat_lt
  have same {y : UInt32} (room : y.toNat + 4 ≤ 4294967296)
      (apart : (a - base).toNat < y.toNat ∨ y.toNat + 4 ≤ (a - base).toNat) :
      Mem.load (fun x => if x = a then v else m x) (base + y) = m.load (base + y) := by
    have far := Mem.load_byte_from m base v room apart
    rwa [show base + (a - base) = a by rw [UInt32.add_comm, UInt32.sub_add_cancel]] at far
  have header : (o + 4).toNat = o.toNat + 4 := by
    rw [UInt32.toNat_add]
    simp
    omega
  have at_len : base + o + 4 = base + (o + 4) := UInt32.add_assoc base o 4
  constructor
  · have first := same (y := 0) (by decide) (.inr (by simp; omega))
    rw [UInt32.add_zero] at first
    rw [first]
    exact one.head
  · exact one.behind
  · rw [same (by omega) (.inl front)]
    exact one.last
  · rw [slotLen, at_len, same (by omega) (.inl (by omega)), ← at_len]
    exact one.tail
  · intro valid
    rw [usedList, same (by decide) (.inr (by simpa using inside))]
    exact one.used valid

/-- Each use keeps it so. -/
theorem step (fuel : ℕ) {use : HeapUse} {r : UInt32} {m' : Mem} (allowed : use.Allowed base m)
    (run : use.run (fuel + 2) base m = .done r m') : ∃ o', OneFree base length m' o' := by
  cases use with
  | alloc size =>
    change Kernel.alloc (fuel + 2) base size m = .done r m' at run
    change FitsHeap base size m at allowed
    unfold FitsHeap at allowed
    rw [one.head] at allowed
    by_cases refused : base + o = 0 ∨ slotLen m (base + o) < roundUp size + 8
    · rw [one.alloc_refused fuel refused, Outcome.done.injEq] at run
      rw [← run.2]
      exact ⟨o, one⟩
    · have small := allowed.resolve_right refused
      rw [not_or] at refused
      obtain ⟨m'', o', run', one', -⟩ := one.alloc_fits fuel small refused.1 refused.2
      rw [run', Outcome.done.injEq] at run
      rw [← run.2]
      exact ⟨o', one'⟩
  | write a v =>
    obtain ⟨inside, front⟩ := allowed
    rw [one.head, offset_sub] at front
    cases run
    exact ⟨o, one.written v inside front⟩

end OneFree

/-- The heap is sound when it has room for the first header, and stays so with harmless sizes. -/
theorem initAlloc_sound_iff {m₀ : Mem} (run : initAlloc base length m = .done retSuccess m₀) (fuel : ℕ) :
    (SoundHeap base length m₀ ↔ 16 ≤ length.toNat) ∧
    (16 ≤ length.toNat → ∀ log m, Runs (HeapUse.run (fuel + 2) base) (HeapUse.Allowed base) m₀ log m →
      SoundHeap base length m ∧ ∀ size, ∃ p m', alloc (fuel + 2) base size m = .done p m' ∧
        (p = 0 ∧ m' = m ∨ InRegion base length (p - 8) (8 + size.toNat) ↔ FitsHeap base size m)) := by
  refine ⟨soundHeap_iff run, ?_⟩
  intro long log m runs
  have one : ∃ o, OneFree base length m o := by
    apply runs.invariant (fun _ m => ∃ o, OneFree base length m o) ⟨8, initAlloc_oneFree run long⟩
    rintro log m use r m' ⟨o, one⟩ allowed step
    exact one.step fuel allowed step
  obtain ⟨o, one⟩ := one
  exact ⟨one.sound, one.alloc_iff fuel⟩

end

/-- A region of 32 bytes. -/
theorem initAlloc_sound_small : ∃ m₀, initAlloc 0x1001 32 (fun _ => 0) = .done retSuccess m₀ ∧
    SoundHeap 0x1001 32 m₀ := by
  obtain ⟨m₀, run⟩ : ∃ m₀, initAlloc 0x1001 32 (fun _ => 0) = .done retSuccess m₀ := ⟨_, rfl⟩
  exact ⟨m₀, run, (initAlloc_sound_iff run 0).1.mpr (by decide)⟩

/-- Eight bytes are accepted, for the list heads alone. -/
theorem initAlloc_unsound : ∃ m₀, initAlloc 0x1000 8 (fun _ => 0) = .done retSuccess m₀ ∧
    ¬SoundHeap 0x1000 8 m₀ := by
  obtain ⟨m₀, run⟩ : ∃ m₀, initAlloc 0x1000 8 (fun _ => 0) = .done retSuccess m₀ := ⟨_, rfl⟩
  refine ⟨m₀, run, ?_⟩
  rw [soundHeap_iff run]
  decide

end Sos.Kernel
