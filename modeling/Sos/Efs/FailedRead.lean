import Sos.Efs.Integrity
import Sos.Efs.Names

/-! The copy loop on a source whose reads may fail. The loop ends at a length of 0 only: it takes
the -1 of a failed read for a length like any other. -/

namespace Sos.Efs
open Sos.Lib Sos.Lib.Bytes

/-- What the reads of a source give: some of them bytes, and then the end of the file, or an
error with whatever would be read behind it. -/
def sourceReads (oks : List Chunk) : Option (List ReadResult) → List ReadResult
  | none => oks.map .bytes
  | some rest => oks.map .bytes ++ .error :: rest

/-- Whether the file got its indirect block. -/
def newIndirect (x y : Inode) : Nat := if x.bare && !y.bare then 1 else 0

/-- Besides an indirect block one block was taken for each read that gave bytes, the size is the
number of these bytes, and an error is reported. -/
structure StopsAtError (oks : List Chunk) (failed : Bool) (i : Nat) (d d' : Device) (r : CopyResult) : Prop where
  blocks : d'.freeCount + oks.length + newIndirect (d.inode i) (d'.inode i) = d.freeCount
  size : (d'.inode i).size.toNat = (oks.map fun c => c.val.length).sum
  ret : r.ret = if failed then -1 else 0

/-- Besides an indirect block for file `i` some blocks before `l` were taken. -/
structure Spent (l i : Nat) (d d' : Device) (blocks : Nat) : Prop where
  dataCount : d'.dataCount = d.dataCount
  count : d'.freeBelow l + blocks + newIndirect (d.inode i) (d'.inode i) = d.freeBelow l
  bare : (d'.inode i).bare = true → (d.inode i).bare = true

namespace Spent
variable {l i m n : Nat} {d d₁ d₂ : Device}

theorem none (d : Device) : Spent l i d d 0 where
  dataCount := rfl
  count := by simp [newIndirect]
  bare := id

theorem trans (first : Spent l i d d₁ m) (second : Spent l i d₁ d₂ n) : Spent l i d d₂ (m + n) where
  dataCount := second.dataCount.trans first.dataCount
  count := by
    have before := first.count
    have after := second.count
    have once : newIndirect (d.inode i) (d₂.inode i) =
        newIndirect (d.inode i) (d₁.inode i) + newIndirect (d₁.inode i) (d₂.inode i) := by
      have one := first.bare
      have two := second.bare
      unfold newIndirect
      revert one two
      cases (d.inode i).bare <;> cases (d₁.inode i).bare <;> cases (d₂.inode i).bare <;> decide
    omega
  bare := fun last => first.bare (second.bare last)

end Spent

theorem Advance.spent {l i : Nat} {image d d' : Device} {entries : Block} {cnt : Nat} {size : UInt32}
    (adv : Advance l image entries cnt i d d' (roundDemand (d.inode i).size (d.inode i).bare) size
      ((d.inode i).bare && !reaches (d.inode i).size)) : Spent l i d d' 1 where
  dataCount := adv.dataCount
  count := by
    have count := adv.count
    have indirect : roundDemand (d.inode i).size (d.inode i).bare = 1 + newIndirect (d.inode i) (d'.inode i) := by
      unfold roundDemand newIndirect
      rw [adv.bare]
      cases (d.inode i).bare <;> cases reaches (d.inode i).size <;> rfl
    omega
  bare := by
    rw [adv.bare, Bool.and_eq_true]
    exact And.left

theorem Wasted.spent {l i : Nat} {image d d' : Device} {entries : Block} {cnt : Nat}
    (wasted : Wasted l image entries cnt d d') : Spent l i d d' (if d.freeBelow l = 0 then 0 else 1) where
  dataCount := wasted.dataCount
  count := by
    have count := wasted.count
    rw [wasted.inode]
    have same : newIndirect (d.inode i) (d.inode i) = 0 := by simp [newIndirect]
    split <;> omega
  bare := by rw [wasted.inode]; exact id

namespace Guarded
variable {l : Nat} {image d : Device} {entries : Block} {cnt : Nat} (g : Guarded l image entries cnt d)
  {i : UInt32} (file : 1 ≤ i.toNat ∧ i.toNat < 64) (before : (d.inode i.toNat).refs ≠ 0)
  {filename : Name} (found : d.lookup filename.str = some i)
include g file before found

/-- With blocks enough the loop comes through these reads to the ones behind them. -/
theorem copyLoop_append (results : List ReadResult) (some_ : ∀ x, x ∈ results → x.len ≠ 0)
    (enough : demand results (d.inode i.toNat).size (d.inode i.toNat).bare ≤ d.freeBelow l) :
    ∃ bs d', Guarded l image entries cnt d' ∧ Spent l i.toNat d d' results.length ∧
      d'.freeBelow l + demand results (d.inode i.toNat).size (d.inode i.toNat).bare = d.freeBelow l ∧
      (d'.inode i.toNat).size = results.foldl (fun size x => size + x.len) (d.inode i.toNat).size ∧
      ∀ rest r e, Efs.copyLoop filename rest d' = .done r e →
        Efs.copyLoop filename (results ++ rest) d = .done ⟨r.ret, bs ++ r.blocks⟩ e := by
  induction results generalizing d with
  | nil => exact ⟨[], d, g, .none d, rfl, rfl, fun rest r e run => run⟩
  | cons result results ih =>
    rw [demand, if_neg (some_ _ List.mem_cons_self)] at enough ⊢
    rcases g.copyBlock file before found result (Or.inr (by omega)) with
      ⟨d', -, -, short⟩ | ⟨b, d', -, run, -, adv⟩
    · omega
    · have still := g.steady.referenced adv.guarded.steady file before
      have again : d'.lookup filename.str = some i := by
        rw [g.steady.lookup adv.guarded.steady, found]
      have count := adv.count
      have later := ih adv.guarded still again fun x member => some_ x (List.mem_cons_of_mem _ member)
      rw [adv.size, adv.bare] at later
      obtain ⟨bs, d'', g', spent, left, size, loop⟩ := later (by omega)
      refine ⟨(b + 5) :: bs, d'', g', ?_, by omega, ?_, ?_⟩
      · rw [List.length_cons, Nat.add_comm]
        exact adv.spent.trans spent
      · rw [size, List.foldl_cons]
      · intro rest r e last
        rw [List.cons_append, Efs.copyLoop, if_neg (some_ _ List.mem_cons_self), Prog.bind_done _ run]
        simp only
        rw [Prog.bind_done _ (loop rest r e last)]
        rfl

/-- Whatever the reads give, blocks are taken and none is given back. -/
theorem copyLoop_spent (whole : l = d.dataCount) (results : List ReadResult) :
    ∃ r d' n, Efs.copyLoop filename results d = .done r d' ∧ Spent l i.toNat d d' n := by
  induction results generalizing d with
  | nil => exact ⟨_, d, 0, rfl, .none d⟩
  | cons result results ih =>
    rw [Efs.copyLoop]
    by_cases ended : result.len = 0
    · rw [if_pos ended]
      exact ⟨_, d, 0, rfl, .none d⟩
    rw [if_neg ended]
    rcases g.copyBlock file before found result (Or.inl whole) with
      ⟨d', run, wasted, -⟩ | ⟨b, d', -, run, -, adv⟩
    · rw [Prog.bind_done _ run]
      exact ⟨_, d', _, rfl, wasted.spent⟩
    · have still := g.steady.referenced adv.guarded.steady file before
      have again : d'.lookup filename.str = some i := by
        rw [g.steady.lookup adv.guarded.steady, found]
      obtain ⟨r, d'', n, run', spent⟩ := ih adv.guarded still again (whole.trans adv.dataCount.symm)
      rw [Prog.bind_done _ run]
      simp only
      rw [Prog.bind_done _ run']
      exact ⟨_, d'', 1 + n, rfl, adv.spent.trans spent⟩

/-- At a failed read blocks are taken as well, unless there is none left. -/
theorem copyLoop_error (whole : l = d.dataCount) (rest : List ReadResult) :
    ∃ r d' n, Efs.copyLoop filename (.error :: rest) d = .done r d' ∧ Spent l i.toNat d d' n ∧
      (n = 0 ↔ d.freeBelow l = 0) ∧
      (n = 0 → (d'.inode i.toNat).size = (d.inode i.toNat).size ∧ r.ret = -1) := by
  rw [Efs.copyLoop, if_neg (by decide)]
  rcases g.copyBlock file before found .error (Or.inl whole) with
    ⟨d', run, wasted, -⟩ | ⟨b, d', -, run, -, adv⟩
  · rw [Prog.bind_done _ run]
    refine ⟨_, d', _, rfl, wasted.spent, ?_, fun _ => ⟨by rw [wasted.inode], rfl⟩⟩
    split <;> omega
  · have still := g.steady.referenced adv.guarded.steady file before
    have again : d'.lookup filename.str = some i := by
      rw [g.steady.lookup adv.guarded.steady, found]
    have taken := adv.spent.count
    obtain ⟨r, d'', n, run', spent⟩ := adv.guarded.copyLoop_spent file still again
      (whole.trans adv.dataCount.symm) rest
    rw [Prog.bind_done _ run]
    simp only
    rw [Prog.bind_done _ run']
    exact ⟨_, d'', 1 + n, rfl, adv.spent.trans spent, by omega, by omega⟩

end Guarded

theorem Device.freeCount_eq (d : Device) : d.freeCount = d.freeBelow d.dataCount := rfl

theorem Device.freeBelow_le (d : Device) (l : Nat) : d.freeBelow l ≤ l :=
  (Finset.card_filter_le _ _).trans (Finset.card_range l).le

/-- How many blocks were taken can be read off the bitmap. -/
theorem Spent.stops_iff {i n m : Nat} {d d' : Device} (spent : Spent d.dataCount i d d' n) :
    d'.freeCount + m + newIndirect (d.inode i) (d'.inode i) = d.freeCount ↔ n = m := by
  have count := spent.count
  rw [Device.freeCount_eq, Device.freeCount_eq, spent.dataCount]
  omega

/-- Reads of whole blocks do not wrap the size. -/
theorem foldl_len {oks : List Chunk} {size : UInt32} (bound : size.toNat + 1024 * oks.length < 4294967296) :
    ((oks.map ReadResult.bytes).foldl (fun size x => size + x.len) size).toNat =
      size.toNat + (oks.map fun c => c.val.length).sum := by
  induction oks generalizing size with
  | nil => rfl
  | cons c oks ih =>
    have length := c.property
    rw [List.length_cons] at bound
    have first : (size + (ReadResult.bytes c).len).toNat = size.toNat + c.val.length := by
      rw [UInt32.toNat_add, ReadResult.len, UInt32.toNat_ofNat']
      omega
    rw [List.map_cons, List.foldl_cons, ih (by omega), first, List.map_cons, List.sum_cons, Nat.add_assoc]

theorem bytes_len {oks : List Chunk} (some_ : ∀ c, c ∈ oks → c.val ≠ []) :
    ∀ x, x ∈ oks.map ReadResult.bytes → x.len ≠ 0 := by
  intro x member
  obtain ⟨c, inside, rfl⟩ := List.mem_map.mp member
  have length := c.property
  have pos := List.length_pos_iff.mpr (some_ c inside)
  intro zero
  have len := congrArg UInt32.toNat zero
  rw [ReadResult.len, UInt32.toNat_ofNat', UInt32.toNat_zero] at len
  omega

section
variable {entries : Block} {cnt : Nat} {d : Device} (steady : Steady entries cnt d) {i : UInt32}
  (file : 1 ≤ i.toNat ∧ i.toNat < 64) (before : (d.inode i.toNat).refs ≠ 0)
  (empty : (d.inode i.toNat).size = 0) {filename : Name} {oks : List Chunk} (some_ : ∀ c, c ∈ oks → c.val ≠ [])
include steady file before empty some_

/-- With a file that is found again the loop stops for an error if no block was left for it. -/
theorem copyLoop_stops_iff (found : d.lookup filename.str = some i) (tail : Option (List ReadResult))
    (enough : demand (oks.map .bytes) 0 (d.inode i.toNat).bare ≤ d.freeCount) :
    (∃ r d', copyLoop filename (sourceReads oks tail) d = .done r d' ∧
      StopsAtError oks tail.isSome i.toNat d d' r) ↔
    tail = none ∨ d.freeCount = demand (oks.map .bytes) 0 (d.inode i.toNat).bare := by
  have reads := steady.guarded.copyLoop_append file before found (oks.map .bytes) (bytes_len some_)
  rw [empty] at reads
  obtain ⟨bs, d₁, g, spent, left, size, loop⟩ := reads enough
  rw [List.length_map] at spent
  have bytes : (d₁.inode i.toNat).size.toNat = (oks.map fun c => c.val.length).sum := by
    have few := d.freeBelow_le d.dataCount
    have bound := steady.formatted.dataCount
    have count := spent.count
    have zero : (0 : UInt32).toNat = 0 := rfl
    rw [size, foldl_len (by omega), zero, Nat.zero_add]
  cases tail with
  | none =>
    have run := loop [] _ d₁ rfl
    rw [List.append_nil] at run
    exact iff_of_true ⟨_, d₁, run, spent.stops_iff.mpr rfl, bytes, rfl⟩ (Or.inl rfl)
  | some rest =>
    have still := steady.referenced g.steady file before
    have again : d₁.lookup filename.str = some i := by rw [steady.lookup g.steady, found]
    obtain ⟨r, e, n, last, more, none_, kept⟩ := g.copyLoop_error file still again spent.dataCount.symm rest
    have run := loop (.error :: rest) r e last
    have all := spent.trans more
    have full : n = 0 ↔ d.freeCount = demand (oks.map .bytes) 0 (d.inode i.toNat).bare := by
      rw [none_, Device.freeCount_eq]
      omega
    constructor
    · rintro ⟨r', e', run', stops⟩
      rw [sourceReads, run, Outcome.done.injEq] at run'
      obtain ⟨-, rfl⟩ := run'
      have exact_ := all.stops_iff.mp stops.blocks
      exact Or.inr (full.mp (by omega))
    · rintro (none | used)
      · cases none
      · have zero := full.mpr used
        obtain ⟨same, ret⟩ := kept zero
        refine ⟨_, e, run, all.stops_iff.mpr (by omega), ?_, ret⟩
        rw [same]
        exact bytes

omit file before in
/-- Under a name that is not found again no round comes to anything. -/
theorem copyLoop_missing_iff (missing : d.lookup filename.str = none) (tail : Option (List ReadResult)) :
    (∃ r d', copyLoop filename (sourceReads oks tail) d = .done r d' ∧
      StopsAtError oks tail.isSome i.toNat d d' r) ↔ oks = [] := by
  have f := steady.formatted
  have ends := copyLoop_missing_cons f steady.directory missing
  have nothing : d.freeCount + 0 + newIndirect (d.inode i.toNat) (d.inode i.toNat) = d.freeCount :=
    (Spent.none d).stops_iff.mpr rfl
  have size : (d.inode i.toNat).size.toNat = 0 := by rw [empty, UInt32.toNat_zero]
  cases oks with
  | nil =>
    refine iff_of_true ?_ rfl
    cases tail with
    | none => exact ⟨_, d, rfl, nothing, size, rfl⟩
    | some rest => exact ⟨_, d, ends .error (by decide) rest, nothing, size, rfl⟩
  | cons c oks =>
    refine iff_of_false ?_ (List.cons_ne_nil c oks)
    rintro ⟨r, d', run, stops⟩
    have first : ∃ rest, sourceReads (c :: oks) tail = .bytes c :: rest := by
      cases tail <;> exact ⟨_, rfl⟩
    obtain ⟨rest, reads⟩ := first
    rw [reads, ends _ (bytes_len some_ _ (List.mem_map_of_mem List.mem_cons_self)), Outcome.done.injEq] at run
    obtain ⟨-, rfl⟩ := run
    have total := stops.size
    have pos := List.length_pos_iff.mpr (some_ c List.mem_cons_self)
    rw [size, List.map_cons, List.sum_cons] at total
    omega

end

/-- A run of `writeefs` stops at a failed read if and only if no block is left when the read fails.
If the name is not found again, it does nothing, whatever is read. -/
theorem readWrite_stops_iff {entries : Block} {cnt : Nat} {d d₁ : Device} (steady : Steady entries cnt d)
    {stack : Name} {file : List UInt8} (proper : (fileName stack (baseName file)).Proper)
    (made : newFile (fileName stack (baseName file)) d = .done 0 d₁) {oks : List Chunk}
    (some_ : ∀ c, c ∈ oks → c.val ≠ []) (tail : Option (List ReadResult)) :
    ∃ i, Created d d₁ (fileName stack (baseName file)) i ∧
      (demand (oks.map .bytes) 0 (d₁.inode i.toNat).bare ≤ d₁.freeCount →
        ((∃ r d', readWrite stack file (some (sourceReads oks tail)) d = .done r d' ∧
          StopsAtError oks tail.isSome i.toNat d₁ d' r) ↔
        if d₁.lookup (fileName stack (baseName file)).str = some i then
          tail = none ∨ d₁.freeCount = demand (oks.map .bytes) 0 (d₁.inode i.toNat).bare
        else oks = [])) := by
  rcases steady.newFile proper with refused | ⟨d', i, cnt', made', -, c, later, -⟩
  · rw [made, Outcome.done.injEq] at refused
    exact absurd refused.1 (by decide)
  · rw [made, Outcome.done.injEq] at made'
    obtain ⟨-, rfl⟩ := made'
    refine ⟨i, c, fun enough => ?_⟩
    rw [readWrite_created made]
    cases found : d₁.lookup (fileName stack (baseName file)).str with
    | none =>
      rw [if_neg (by simp)]
      exact copyLoop_missing_iff later c.size some_ found tail
    | some j =>
      obtain rfl : j = i := by
        have listed := c.found proper (by
          by_contra long
          rw [not_or, not_le] at long
          rw [c.kept _ proper.1 (cut_ne long.1)] at found
          exact long.2 ⟨j, found⟩)
        rw [found, Option.some.injEq] at listed
        exact listed
      obtain ⟨lower, upper, referenced⟩ := later.directory.lookup_inode proper found
      rw [if_pos rfl]
      exact copyLoop_stops_iff later ⟨lower, upper⟩ referenced c.size some_ found tail enough

/-- One read of the byte h. -/
def oneByte : Chunk := ⟨[0x68], Nat.le_of_ble_eq_true rfl⟩

theorem steady_floppy : ∃ cnt, Steady ((freshImage 1440 floppy).data 0) cnt (freshImage 1440 floppy) :=
  (listed_freshImage (by decide) (by decide) (by decide)).steady

theorem proper_a : (fileName Buf.zero (baseName [0x61])).Proper :=
  ShortName.proper ⟨by decide, by decide, by decide, by decide⟩ Buf.zero

theorem newFile_floppy : ∃ d, newFile (fileName Buf.zero (baseName [0x61])) (freshImage 1440 floppy) = .done 0 d ∧
    Created (freshImage 1440 floppy) d (fileName Buf.zero (baseName [0x61])) 1 :=
  newFile_freshImage (by decide) (by decide) (by decide) proper_a

theorem readWrite_stops_iff_floppy : ∃ d₁ i, Created (freshImage 1440 floppy) d₁ (fileName Buf.zero (baseName [0x61])) i ∧
    (demand ([oneByte].map .bytes) 0 (d₁.inode i.toNat).bare ≤ d₁.freeCount →
      ((∃ r d', readWrite Buf.zero [0x61] (some (sourceReads [oneByte] none)) (freshImage 1440 floppy) = .done r d' ∧
          StopsAtError [oneByte] false i.toNat d₁ d' r) ↔
        if d₁.lookup (fileName Buf.zero (baseName [0x61])).str = some i then
          (none : Option (List ReadResult)) = none ∨
            d₁.freeCount = demand ([oneByte].map .bytes) 0 (d₁.inode i.toNat).bare
        else [oneByte] = [])) := by
  obtain ⟨cnt, steady⟩ := steady_floppy
  obtain ⟨d₁, made, -⟩ := newFile_floppy
  obtain ⟨i, c, holds⟩ := readWrite_stops_iff steady proper_a made (show ∀ c, c ∈ [oneByte] → c.val ≠ [] by decide) none
  exact ⟨d₁, i, c, holds⟩

/-- The very first read fails: the file gets a block of zeros and a size of 4294967295, and the
run is reported as a success. -/
theorem readWrite_error_taken : ∃ d₁ r d',
    newFile (fileName Buf.zero (baseName [0x61])) (freshImage 1440 floppy) = .done 0 d₁ ∧
    readWrite Buf.zero [0x61] (some (sourceReads [] (some []))) (freshImage 1440 floppy) = .done r d' ∧
    r.ret = 0 ∧ (d'.inode 1).size = 0xFFFFFFFF ∧ ¬StopsAtError [] true 1 d₁ d' r := by
  obtain ⟨cnt, steady⟩ := steady_floppy
  obtain ⟨d₁, made, c⟩ := newFile_floppy
  rcases steady.newFile proper_a with refused | ⟨d', i, cnt', made', -, c', later, -⟩
  · rw [made, Outcome.done.injEq] at refused
    exact absurd refused.1 (by decide)
  rw [made, Outcome.done.injEq] at made'
  obtain ⟨-, rfl⟩ := made'
  have found := c.listed (by decide)
  obtain ⟨lower, upper, referenced⟩ := later.directory.lookup_inode proper_a found
  have size := c.size
  rcases later.guarded.copyBlock ⟨lower, upper⟩ referenced found .error (Or.inl rfl) with
    ⟨e, -, -, short⟩ | ⟨b, e, -, run, -, adv⟩
  · have one : ∀ bare, roundDemand 0 bare = 1 := by decide
    rw [size, one] at short
    have full := Device.freeCount_zero (Nat.lt_one_iff.mp short) 1 (by rw [c.dataCount, Device.dataCount, sb_freshImage]; decide)
    rw [c.bits, bit_freshImage] at full
    exact absurd full (by decide)
  · have done : readWrite Buf.zero [0x61] (some (sourceReads [] (some []))) (freshImage 1440 floppy) =
        .done ⟨0, [b + 5]⟩ e := by
      rw [readWrite_created made, sourceReads, List.map_nil, List.nil_append, copyLoop, if_neg (by decide),
        Prog.bind_done _ run]
      rfl
    refine ⟨d₁, _, e, made, done, rfl, ?_, fun stops => ?_⟩
    · rw [size] at adv
      exact adv.size
    · have ret : (0 : Int) = -1 := stops.ret
      cases ret

end Sos.Efs
