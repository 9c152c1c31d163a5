import Mathlib.Data.Finset.Option
import Sos.Efs.Copy

/-! The copy loop of `read_write` as a relation: some rounds that grow the file, then the
end of the source or of the space. -/

namespace Sos.Efs
open Sos.Lib Sos.Lib.Bytes

/-- What holds of an image between any two calls of the library. -/
structure Sound (d : Device) : Prop where
  formatted : Formatted d
  directory : ∃ cnt, Directory d cnt
  owned : Owned d

namespace Device

theorem lookup_mark (d : Device) (n : UInt32) (s : List UInt8) : (d.mark n).lookup s = d.lookup s :=
  lookup_congr (by simp) s

theorem content_mark (d : Device) (n : UInt32) (i : Nat) : (d.mark n).content i = d.content i := by
  simp [content, ptr]

theorem ptr_mark (d : Device) (n : UInt32) (i s : Nat) : (d.mark n).ptr i s = d.ptr i s := by
  simp [ptr]

theorem blocks_mark (d : Device) (n : UInt32) (i : Nat) : (d.mark n).blocks i = d.blocks i := by
  simp [blocks]

end Device

theorem Ref.live_mark (d : Device) (n : UInt32) (a : Ref) : a.Live (d.mark n) ↔ a.Live d := by
  cases a <;> simp [Ref.Live, Device.blocks_mark]

theorem Ref.target_mark (d : Device) (n : UInt32) (a : Ref) : a.target (d.mark n) = a.target d := by
  cases a <;> simp [Ref.target, Device.ptr_mark]

/-- Marking one more block disturbs nobody. -/
theorem Sound.mark {d : Device} (sound : Sound d) {b : UInt32} (inside : b.toNat < d.dataCount) :
    Sound (d.mark b) where
  formatted := sound.formatted.mark b
  directory := by
    obtain ⟨cnt, dir⟩ := sound.directory
    exact ⟨cnt, dir.frame (by simp) (by simp) (by simp) (by simp)⟩
  owned := by
    have own := sound.owned
    have bound := sound.formatted.dataCount
    refine { unique := ?_, inside := ?_, marked := ?_, size := ?_, indirect := ?_ }
    · intro a c liveA liveC
      rw [Ref.target_mark, Ref.target_mark]
      exact own.unique a c ((Ref.live_mark d b a).mp liveA) ((Ref.live_mark d b c).mp liveC)
    · intro a live
      rw [Ref.target_mark]
      simpa [Device.dataCount] using own.inside a ((Ref.live_mark d b a).mp live)
    · intro a live
      rw [Ref.target_mark, Device.bit_mark _ _ _ (by omega),
        own.marked a ((Ref.live_mark d b a).mp live), Bool.or_true]
    · intro i lower upper
      rw [Device.inode_mark]
      exact own.size i lower upper
    · intro i lower upper more
      rw [Device.blocks_mark] at more
      rw [Device.inode_mark]
      exact own.indirect i lower upper more

namespace Grown
variable {d d' : Device} {i k : Nat} {b : UInt32} {t : Option UInt32} {buff : Block} {len : Nat}
  (g : Grown d d' i k b t buff len)
include g

theorem lookup (own : Owned d) (s : List UInt8) : d'.lookup s = d.lookup s :=
  Device.lookup_congr (g.data_live own .root trivial (by simp)) s

theorem sound (sound : Sound d) (referenced : (d.inode i).refs ≠ 0) (hk : k ≤ 256)
    (positive : 0 < len) (bound : len ≤ 1024) : Sound d' where
  formatted := g.formatted
  directory := by
    obtain ⟨cnt, dir⟩ := sound.directory
    have lower := g.file.1
    refine ⟨cnt, dir.frame (g.data_live sound.owned .root trivial (by simp))
      (g.others 0 (by omega) (by omega)) ?_ ?_⟩
    · intro j upper
      by_cases same : j = i
      · rw [same, g.refs]
      · rw [g.others j upper same]
    · intro j upper free
      refine g.others j upper ?_
      rintro rfl
      exact referenced free
  owned := g.owned sound.owned hk positive bound

/-- Pointers in use stay. -/
theorem ptr_live (own : Owned d) (j s : Nat) (lower : 1 ≤ j) (upper : j < 64)
    (inside : s < d.blocks j) : d'.ptr j s = d.ptr j s :=
  UInt32.toNat_inj.mp (g.target_live own (.slot j s) ⟨lower, upper, inside⟩)

end Grown

/-- The number of unmarked blocks. -/
def Device.freeCount (d : Device) : Nat :=
  ((Finset.range d.dataCount).filter fun m => d.bit m = false).card

theorem Device.freeCount_zero {d : Device} (none : d.freeCount = 0) : d.Full := by
  intro m inside
  by_contra unmarked
  have member : m ∈ (Finset.range d.dataCount).filter fun m => d.bit m = false := by
    simpa using And.intro inside unmarked
  rw [Finset.card_eq_zero.mp none] at member
  exact absurd member (Finset.notMem_empty m)

/-- The blocks a round takes out of the free ones. -/
theorem Grown.freeCount {d d' : Device} {i k : Nat} {b : UInt32} {t : Option UInt32} {buff : Block}
    {len : Nat} (g : Grown d d' i k b t buff len) :
    d'.freeCount + (if t = none then 1 else 2) = d.freeCount := by
  have apart : ∀ x, t = some x → x.toNat ≠ b.toNat := by
    intro x taken same
    exact (g.taken x taken).2.2.2.1 (UInt32.toNat_inj.mp same)
  have split : ((Finset.range d.dataCount).filter fun m => d.bit m = false) =
      ((Finset.range d'.dataCount).filter fun m => d'.bit m = false) ∪
        insert b.toNat (t.map UInt32.toNat).toFinset := by
    ext m
    have bits := g.bits m
    simp only [Finset.mem_filter, Finset.mem_range, Finset.mem_union, Finset.mem_insert,
      Option.mem_toFinset, Option.mem_map, g.dataCount]
    constructor
    · rintro ⟨inside, free⟩
      by_cases marked : d'.bit m = true
      · rcases bits.mp marked with old | new | ⟨x, taken, value⟩
        · rw [free] at old
          cases old
        · exact Or.inr (Or.inl new)
        · exact Or.inr (Or.inr ⟨x, taken, value.symm⟩)
      · exact Or.inl ⟨inside, by simpa using marked⟩
    · rintro (⟨inside, free⟩ | rfl | ⟨x, taken, rfl⟩)
      · refine ⟨inside, ?_⟩
        by_contra marked
        rw [bits.mpr (Or.inl (by simpa using marked))] at free
        cases free
      · exact ⟨g.inside, g.free⟩
      · obtain ⟨_, _, _, _, inside, free⟩ := g.taken x taken
        exact ⟨inside, free⟩
  have marked : ∀ m, m ∈ insert b.toNat (t.map UInt32.toNat).toFinset → d'.bit m = true := by
    intro m member
    simp only [Finset.mem_insert, Option.mem_toFinset, Option.mem_map] at member
    rcases member with rfl | ⟨x, taken, rfl⟩
    · exact (g.bits _).mpr (Or.inr (Or.inl rfl))
    · exact (g.bits _).mpr (Or.inr (Or.inr ⟨x, taken, rfl⟩))
  have disjoint : Disjoint ((Finset.range d'.dataCount).filter fun m => d'.bit m = false)
      (insert b.toNat (t.map UInt32.toNat).toFinset) := by
    rw [Finset.disjoint_left]
    intro m member new
    have free := (Finset.mem_filter.mp member).2
    rw [marked m new] at free
    cases free
  unfold Device.freeCount
  rw [split, Finset.card_union_of_disjoint disjoint]
  congr 1
  cases taken : t with
  | none => simp
  | some x => simp [Finset.card_pair (apart x taken).symm]

theorem copyBlock_of_minus_one {d d' : Device} {filename : Name} (result : ReadResult)
    (failed : fallocBlock filename d = .done (-1) d') :
    copyBlock filename result d = .done none d' := by
  rw [copyBlock, Prog.bind_done _ failed, if_neg (by decide),
    Prog.bind_done _ (writeBlock_minus_one d' _)]
  rfl

/-- Under a name that is not listed no round comes to anything. -/
theorem copyLoop_missing_cons {d : Device} {cnt : Nat} (f : Formatted d) (dir : Directory d cnt) {filename : Name}
    (missing : d.lookup filename.str = none) (result : ReadResult) (going : result.len ≠ 0)
    (results : List ReadResult) : copyLoop filename (result :: results) d = .done ⟨-1, []⟩ d := by
  have search : findFile filename d = .done none d := by
    rw [findFile_done f.rooted dir, missing]
  rw [copyLoop, if_neg going, Prog.bind_done _ (copyBlock_of_minus_one result (fallocBlock_missing f search))]
  rfl

theorem copyLoop_missing {d : Device} {cnt : Nat} (f : Formatted d) (dir : Directory d cnt) {filename : Name}
    (missing : d.lookup filename.str = none) (results : List ReadResult) : ∃ r,
    copyLoop filename results d = .done r d := by
  cases results with
  | nil => exact ⟨_, rfl⟩
  | cons result results =>
    by_cases ended : result.len = 0
    · exact ⟨_, by rw [copyLoop, if_pos ended]; rfl⟩
    · exact ⟨_, copyLoop_missing_cons f dir missing result ended results⟩

/-- One round on a file of `k` whole blocks. -/
theorem copyBlock_cases {d : Device} (sound : Sound d) {filename : Name} (proper : filename.Proper)
    {i : UInt32} (found : d.lookup filename.str = some i) {k : Nat} (hk : k ≤ 256)
    (size : (d.inode i.toNat).size.toNat = 1024 * k) (result : ReadResult)
    (bound : result.len.toNat ≤ 1024) :
    (d.Full ∧ copyBlock filename result d = .done none d) ∨
    (∃ b : UInt32, b.toNat < d.dataCount ∧ d.bit b.toNat = false ∧ (d.mark b).Full ∧ 5 ≤ k ∧
      (d.inode i.toNat).indirectData = 0 ∧ copyBlock filename result d = .done none (d.mark b)) ∨
    ∃ b t d', Grown d d' i.toNat k b t result.buff result.len.toNat ∧
      copyBlock filename result d = .done (some (b + 5)) d' := by
  obtain ⟨f, ⟨cnt, dir⟩, own⟩ := sound
  obtain ⟨lower, hi, referenced⟩ := dir.lookup_inode proper found
  rcases fallocBlock_cases f dir own proper found hk size with
    ⟨full, run⟩ | ⟨b, inside, free, full, high, absent, run⟩ | ⟨b, t, d', a, run⟩
  · exact Or.inl ⟨full, copyBlock_of_minus_one result run⟩
  · exact Or.inr (Or.inl ⟨b, inside, free, full, high, absent, copyBlock_of_minus_one result run⟩)
  · right; right
    have inside' : b.toNat < d'.dataCount := by rw [a.dataCount]; exact a.inside
    have nonzero : b + 5 ≠ 0 := by
      intro zero
      have real := real_toNat a.formatted b inside'
      rw [zero] at real
      simp at real
    have rootless : b.toNat ≠ 0 := fun zero => own.root_ne a.free (UInt32.toNat_inj.mp zero)
    have stored := a.formatted.putData b.toNat result.buff
    have inode : ∀ j, j < 64 → (d'.putData b.toNat result.buff).inode j = d'.inode j :=
      fun j small => Device.inode_putData _ _ _ _ small
    have data : (d'.putData b.toNat result.buff).data 0 = d.data 0 := by
      rw [Device.data_putData, if_neg (by omega), a.root_data]
    have dir' : Directory (d'.putData b.toNat result.buff) cnt := by
      apply dir.frame data
      · rw [inode 0 (by omega), a.others 0 (by omega) (by omega)]
      · intro j upper
        rw [inode j upper]
        by_cases same : j = i.toNat
        · rw [same, a.refs]
        · rw [a.others j upper same]
      · intro j upper unused
        rw [inode j upper, a.others j upper]
        rintro rfl
        exact referenced unused
    have again : (d'.putData b.toNat result.buff).lookup filename.str = some i := by
      rw [Device.lookup_congr data, found]
    refine ⟨b, t, _, a.grown own ⟨lower, hi⟩ size hk result.buff result.len bound, ?_⟩
    rw [copyBlock, Prog.bind_done _ run, if_neg nonzero,
      Prog.bind_done _ (writeData_done a.formatted b _ inside'), if_neg (by decide),
      Prog.bind_done _ (findFile_done stored.rooted dir' filename), again]
    simp only
    rw [Prog.bind_done _ (getInode_done stored.rooted i hi.le)]
    simp only
    rw [Prog.bind_done _ (setInode_done stored.rooted i _ hi.le), if_neg (by decide), inode _ hi]
    rfl

/-- The rounds from block `k` of inode `i` on: every one grows the file, until the source
ends or the space does. With one block left and an indirect block to find, that one is
marked for nobody. -/
inductive Copying (i : Nat) : Nat → Device → List Chunk → CopyResult → Device → Prop
  | finished (k : Nat) (d : Device) : Copying i k d [] ⟨0, []⟩ d
  | full (k : Nat) (d : Device) (c : Chunk) (cs : List Chunk) (full : d.Full) :
      Copying i k d (c :: cs) ⟨-1, []⟩ d
  | stuck (k : Nat) (d : Device) (c : Chunk) (cs : List Chunk) (b : UInt32)
      (inside : b.toNat < d.dataCount) (free : d.bit b.toNat = false) (full : (d.mark b).Full)
      (high : 5 ≤ k) (absent : (d.inode i).indirectData = 0) :
      Copying i k d (c :: cs) ⟨-1, []⟩ (d.mark b)
  | round (k : Nat) (d d' d'' : Device) (c : Chunk) (cs : List Chunk) (b : UInt32)
      (t : Option UInt32) (r : CopyResult)
      (grown : Grown d d' i k b t (ReadResult.bytes c).buff c.val.length) (direct : k ≤ 256)
      (some_ : 0 < c.val.length) (rest : Copying i (k + 1) d' cs r d'') :
      Copying i k d (c :: cs) ⟨r.ret, (b + 5) :: r.blocks⟩ d''

/-- What the reads on a regular file store: whole blocks, except perhaps the last time. -/
def Whole : List Chunk → Prop
  | [] => True
  | c :: cs => 0 < c.val.length ∧ (cs ≠ [] → c.val.length = 1024) ∧ Whole cs

/-- Blocks past the 257th are never asked for: either there are none, or the space runs
out before. -/
def Device.Budget (d : Device) (i k n : Nat) : Prop :=
  k + n ≤ 257 ∨ k + d.freeCount ≤ 257 + if (d.inode i).indirectData = 0 then 1 else 0

theorem Grown.budget {d d' : Device} {i k : Nat} {b : UInt32} {t : Option UInt32} {buff : Block}
    {len : Nat} (g : Grown d d' i k b t buff len) {n : Nat} (budget : d.Budget i k (n + 1)) :
    d'.Budget i (k + 1) n := by
  rcases budget with short | poor
  · exact Or.inl (by omega)
  · right
    have count := g.freeCount
    cases taken : t with
    | none =>
      rw [if_pos taken] at count
      rw [g.kept taken]
      omega
    | some x =>
      obtain ⟨high, absent, _⟩ := g.taken x taken
      rw [if_neg (by simp [taken])] at count
      rw [if_pos absent] at poor
      rw [if_neg (g.used high)]
      omega

theorem Device.Budget.full {d : Device} (own : Owned d) {i : Nat} (file : 1 ≤ i ∧ i < 64)
    (size : (d.inode i).size.toNat = 1024 * 257) {n : Nat} (budget : d.Budget i 257 (n + 1)) :
    d.Full := by
  have present : (d.inode i).indirectData ≠ 0 :=
    own.indirect i file.1 file.2 (by unfold Device.blocks; omega)
  rcases budget with short | poor
  · omega
  · rw [if_neg present] at poor
    exact Device.freeCount_zero (by omega)

theorem copyLoop_copying {filename : Name} (proper : filename.Proper) {i : UInt32}
    (chunks : List Chunk) (whole : Whole chunks) {d : Device} (sound : Sound d)
    (found : d.lookup filename.str = some i) {k : Nat} (hk : k ≤ 257)
    (size : chunks ≠ [] → (d.inode i.toNat).size.toNat = 1024 * k)
    (budget : d.Budget i.toNat k chunks.length) :
    ∃ r d', copyLoop filename (chunks.map .bytes) d = .done r d' ∧ Copying i.toNat k d chunks r d' := by
  induction chunks generalizing d k with
  | nil => exact ⟨_, _, rfl, .finished k d⟩
  | cons c cs ih =>
    obtain ⟨some_, whole_, rest⟩ := whole
    have size := size (by simp)
    obtain ⟨cnt, dir⟩ := sound.directory
    obtain ⟨lower, upper, referenced⟩ := dir.lookup_inode proper found
    have bound := c.property
    have len : (ReadResult.bytes c).len.toNat = c.val.length := by
      rw [ReadResult.len, UInt32.toNat_ofNat']
      omega
    have positive : (ReadResult.bytes c).len ≠ 0 := by
      intro zero
      rw [zero] at len
      simp at len
      omega
    rw [List.map_cons, copyLoop, if_neg positive]
    by_cases last : k = 257
    · subst last
      have full := Device.Budget.full sound.owned ⟨lower, upper⟩ size budget
      have run := copyBlock_of_minus_one (.bytes c) (fallocBlock_full sound.formatted (findFile_some sound.formatted dir found) full)
      exact ⟨⟨-1, []⟩, d, by rw [Prog.bind_done _ run]; rfl, .full 257 d c cs full⟩
    · rcases copyBlock_cases sound proper found (show k ≤ 256 by omega) size (.bytes c) (by omega)
        with ⟨full, run⟩ | ⟨b, inside, free, full, high, absent, run⟩ | ⟨b, t, d', grown, run⟩
      · exact ⟨⟨-1, []⟩, d, by rw [Prog.bind_done _ run]; rfl, .full k d c cs full⟩
      · exact ⟨⟨-1, []⟩, d.mark b, by rw [Prog.bind_done _ run]; rfl,
          .stuck k d c cs b inside free full high absent⟩
      · rw [len] at grown
        have sound' := grown.sound sound referenced (by omega) some_ bound
        obtain ⟨r, d'', more, copying⟩ := ih rest sound'
          (by rw [grown.lookup sound.owned, found]) (by omega)
          (fun others => by rw [grown.after, whole_ others]; omega) (grown.budget budget)
        refine ⟨⟨r.ret, (b + 5) :: r.blocks⟩, d'', ?_,
          .round k d d' d'' c cs b t r grown (by omega) some_ copying⟩
        rw [Prog.bind_done _ run]
        simp only
        rw [Prog.bind_done _ more]
        rfl

end Sos.Efs
