import Sos.Efs.Falloc

/-! One round of the copy loop: the file grows by the bytes read, and no other file
notices. -/

namespace Sos.Efs
open Sos.Lib Sos.Lib.Bytes

/-- The bytes of file inode `i`, found through its pointers. -/
def Device.content (d : Device) (i : Nat) : List UInt8 :=
  (List.range (d.inode i).size.toNat).map fun k => (d.data (d.ptr i (k / 1024)).toNat).byte (k % 1024)

/-- Block `k` of inode `i` recorded as `b` and filled with `buff`, of which `len` bytes
count. -/
structure Grown (d d' : Device) (i k : Nat) (b : UInt32) (t : Option UInt32) (buff : Block)
    (len : Nat) : Prop where
  file : 1 ≤ i ∧ i < 64
  formatted : Formatted d'
  dataCount : d'.dataCount = d.dataCount
  inside : b.toNat < d.dataCount
  free : d.bit b.toNat = false
  before : (d.inode i).size.toNat = 1024 * k
  after : (d'.inode i).size.toNat = 1024 * k + len
  others : ∀ j, j < 64 → j ≠ i → d'.inode j = d.inode j
  refs : (d'.inode i).refs = (d.inode i).refs
  kept : t = none → (d'.inode i).indirectData = (d.inode i).indirectData
  taken : ∀ x, t = some x → 5 ≤ k ∧ (d.inode i).indirectData = 0 ∧ (d'.inode i).indirectData = x ∧
    x ≠ b ∧ x.toNat < d.dataCount ∧ d.bit x.toNat = false
  used : 5 ≤ k → (d'.inode i).indirectData ≠ 0
  bits : ∀ m, d'.bit m = true ↔ d.bit m = true ∨ m = b.toNat ∨ ∃ x, t = some x ∧ m = x.toNat
  ptr : d'.ptr i k = b
  ptrs : ∀ s, s < k → d'.ptr i s = d.ptr i s
  stored : d'.data b.toNat = buff
  data : ∀ m, m ≠ b.toNat → (5 ≤ k → m ≠ (d'.inode i).indirectData.toNat) → d'.data m = d.data m

namespace Allocated
variable {d d' : Device} {i k : Nat} {b : UInt32} {t : Option UInt32}

/-- The indirect block in use is not the block just taken. -/
theorem indirect_ne (a : Allocated d d' i k b t) (own : Owned d) (hi : i < 64) (lower : 5 ≤ k) :
    (d'.inode i).indirectData.toNat ≠ b.toNat := by
  cases taken : t with
  | none =>
    have kept := a.kept taken
    have present := a.used lower
    rw [kept] at present ⊢
    exact own.free_ne a.free (.indirect i) ⟨hi, present⟩
  | some x =>
    obtain ⟨_, _, value, differ, _⟩ := a.taken x taken
    rw [value]
    exact fun same => differ (UInt32.toNat_inj.mp same)

/-- Neither block taken is the root directory's. -/
theorem root_data (a : Allocated d d' i k b t) :
    d'.data 0 = d.data 0 := by
  apply a.data
  intro lower same
  have present := a.used lower
  exact present (UInt32.toNat_inj.mp same.symm)

/-- What `write_block`, `get_inode` and `set_inode` add to an allocation. -/
theorem grown (a : Allocated d d' i k b t) (own : Owned d) (file : 1 ≤ i ∧ i < 64)
    (size : (d.inode i).size.toNat = 1024 * k) (hk : k ≤ 256) (buff : Block) (len : UInt32)
    (bound : len.toNat ≤ 1024) :
    Grown d ((d'.putData b.toNat buff).putInode i
      { d'.inode i with size := (d'.inode i).size + len }) i k b t buff len.toNat := by
  have hi := file.2
  have self : ((d'.putData b.toNat buff).putInode i
      { d'.inode i with size := (d'.inode i).size + len }).inode i =
        { d'.inode i with size := (d'.inode i).size + len } := by
    rw [Device.inode_putInode, if_pos rfl]
  have data : ∀ m, ((d'.putData b.toNat buff).putInode i
      { d'.inode i with size := (d'.inode i).size + len }).data m =
        if m = b.toNat then buff else d'.data m := by
    intro m
    rw [Device.data_putInode _ _ _ _ hi, Device.data_putData]
  have ptrs : ∀ s, s ≤ k → ((d'.putData b.toNat buff).putInode i
      { d'.inode i with size := (d'.inode i).size + len }).ptr i s = d'.ptr i s := by
    intro s le
    unfold Device.ptr
    rw [self, data]
    split
    · rfl
    · rw [if_neg (a.indirect_ne own hi (by omega))]
  refine
    { file := file, formatted := (a.formatted.putData _ _).putInode _ _,
      dataCount := by simpa [Device.dataCount] using a.dataCount, inside := a.inside,
      free := a.free, before := size, after := ?_, others := ?_, refs := by rw [self, ← a.refs],
      kept := by rw [self]; exact a.kept, taken := by rw [self]; exact a.taken,
      used := by rw [self]; exact a.used, bits := by simpa using a.bits,
      ptr := by rw [ptrs k le_rfl, a.ptr], ptrs := ?_, stored := by rw [data, if_pos rfl],
      data := ?_ }
  · rw [self]
    change ((d'.inode i).size + len).toNat = _
    rw [UInt32.toNat_add, a.size, size]
    omega
  · intro j small differ
    rw [Device.inode_putInode, if_neg differ, Device.inode_putData _ _ _ _ small,
      a.others j small differ]
  · intro s before
    rw [ptrs s (by omega), a.ptrs s before]
  · intro m apart other
    rw [self] at other
    rw [data, if_neg apart, a.data m other]

end Allocated

namespace Grown
variable {d d' : Device} {i k : Nat} {b : UInt32} {t : Option UInt32} {buff : Block} {len : Nat}
  (g : Grown d d' i k b t buff len)
include g

theorem blocks_before : d.blocks i = k := by
  have size := g.before
  unfold Device.blocks
  omega

theorem blocks_after (positive : 0 < len) (bound : len ≤ 1024) : d'.blocks i = k + 1 := by
  have size := g.after
  unfold Device.blocks
  omega

theorem blocks_other (j : Nat) (small : j < 64) (differ : j ≠ i) : d'.blocks j = d.blocks j := by
  unfold Device.blocks
  rw [g.others j small differ]

/-- A block owned before holds what it held, the file's own indirect block apart. -/
theorem data_live (own : Owned d) (a : Ref) (live : a.Live d) (other : a ≠ .indirect i) :
    d'.data (a.target d) = d.data (a.target d) := by
  apply g.data _ (own.free_ne g.free a live)
  intro lower
  cases taken : t with
  | none =>
    have present := g.used lower
    rw [g.kept taken] at present ⊢
    exact fun same => other (own.unique a (.indirect i) live ⟨g.file.2, present⟩ same)
  | some x =>
    obtain ⟨_, _, value, _, _, free⟩ := g.taken x taken
    rw [value]
    exact own.free_ne free a live

/-- References that were live keep their targets. -/
theorem target_live (own : Owned d) (a : Ref) (live : a.Live d) : a.target d' = a.target d := by
  cases a with
  | root => rfl
  | indirect j =>
    by_cases same : j = i
    · subst same
      cases taken : t with
      | none => exact congrArg UInt32.toNat (g.kept taken)
      | some x => exact absurd (g.taken x taken).2.1 live.2
    · exact congrArg (fun x => x.indirectData.toNat) (g.others j live.1 same)
  | slot j s =>
    obtain ⟨lower, upper, inside⟩ := live
    change (d'.ptr j s).toNat = (d.ptr j s).toNat
    by_cases same : j = i
    · subst same
      rw [g.ptrs s (by rwa [g.blocks_before] at inside)]
    · unfold Device.ptr
      rw [g.others j upper same]
      split
      · rfl
      · have present : (d.inode j).indirectData ≠ 0 := own.indirect j lower upper (by omega)
        rw [show d'.data (d.inode j).indirectData.toNat = d.data (d.inode j).indirectData.toNat from
          g.data_live own (.indirect j) ⟨upper, present⟩ (by simpa using same)]

/-- The references of the grown device: the old ones, the new slot and perhaps the new
indirect block. -/
theorem live_cases (positive : 0 < len) (bound : len ≤ 1024) (a : Ref) (live : a.Live d') :
    a.Live d ∨ a = .slot i k ∨ (a = .indirect i ∧ ∃ x, t = some x) := by
  cases a with
  | root => exact Or.inl trivial
  | indirect j =>
    by_cases same : j = i
    · subst same
      cases taken : t with
      | none =>
        left
        refine ⟨live.1, ?_⟩
        rw [← g.kept taken]
        exact live.2
      | some x => exact Or.inr (Or.inr ⟨rfl, x, rfl⟩)
    · left
      refine ⟨live.1, ?_⟩
      rw [← g.others j live.1 same]
      exact live.2
  | slot j s =>
    obtain ⟨lower, upper, inside⟩ := live
    by_cases same : j = i
    · subst same
      rw [g.blocks_after positive bound] at inside
      by_cases last : s = k
      · subst last
        exact Or.inr (Or.inl rfl)
      · left
        exact ⟨lower, upper, by rw [g.blocks_before]; omega⟩
    · left
      exact ⟨lower, upper, by rwa [g.blocks_other j upper same] at inside⟩

theorem live_mono (positive : 0 < len) (bound : len ≤ 1024) (a : Ref) (live : a.Live d) : a.Live d' := by
  cases a with
  | root => trivial
  | indirect j =>
    refine ⟨live.1, ?_⟩
    by_cases same : j = i
    · subst same
      cases taken : t with
      | none =>
        rw [g.kept taken]
        exact live.2
      | some x => exact absurd (g.taken x taken).2.1 live.2
    · rw [g.others j live.1 same]
      exact live.2
  | slot j s =>
    obtain ⟨lower, upper, inside⟩ := live
    refine ⟨lower, upper, ?_⟩
    by_cases same : j = i
    · subst same
      rw [g.blocks_before] at inside
      rw [g.blocks_after positive bound]
      omega
    · rwa [g.blocks_other j upper same]

/-- What the new references point at was free. -/
theorem target_new (a : Ref) (new : a = .slot i k ∨ (a = .indirect i ∧ ∃ x, t = some x)) :
    ∃ v : UInt32, a.target d' = v.toNat ∧ v.toNat < d.dataCount ∧ d.bit v.toNat = false ∧
      d'.bit v.toNat = true := by
  rcases new with rfl | ⟨rfl, x, taken⟩
  · exact ⟨b, congrArg UInt32.toNat g.ptr, g.inside, g.free, (g.bits _).mpr (Or.inr (Or.inl rfl))⟩
  · obtain ⟨_, _, value, _, inside, free⟩ := g.taken x taken
    exact ⟨x, congrArg UInt32.toNat value, inside, free,
      (g.bits _).mpr (Or.inr (Or.inr ⟨x, taken, rfl⟩))⟩

theorem owned (own : Owned d) (hk : k ≤ 256) (positive : 0 < len) (bound : len ≤ 1024) : Owned d' where
  unique := by
    have mixed : ∀ a c : Ref, a.Live d → (c = .slot i k ∨ (c = .indirect i ∧ ∃ x, t = some x)) →
        a.target d' ≠ c.target d' := by
      intro a c live new
      obtain ⟨v, value, _, free, _⟩ := g.target_new c new
      rw [g.target_live own a live, value]
      exact own.free_ne free a live
    intro a c liveA liveC same
    rcases g.live_cases positive bound a liveA with oldA | newA <;>
      rcases g.live_cases positive bound c liveC with oldC | newC
    · rw [g.target_live own a oldA, g.target_live own c oldC] at same
      exact own.unique a c oldA oldC same
    · exact absurd same (mixed a c oldA newC)
    · exact absurd same.symm (mixed c a oldC newA)
    · have apart : Ref.target d' (.slot i k) ≠ Ref.target d' (.indirect i) ∨ t = none := by
        cases taken : t with
        | none => exact Or.inr rfl
        | some x =>
          obtain ⟨_, _, value, differ, _⟩ := g.taken x taken
          left
          change (d'.ptr i k).toNat ≠ (d'.inode i).indirectData.toNat
          rw [g.ptr, value]
          exact fun eq => differ (UInt32.toNat_inj.mp eq.symm)
      rcases newA with rfl | ⟨rfl, x, hx⟩ <;> rcases newC with rfl | ⟨rfl, y, hy⟩
      · rfl
      · rcases apart with apart | none
        · exact absurd same apart
        · rw [none] at hy
          cases hy
      · rcases apart with apart | none
        · exact absurd same.symm apart
        · rw [none] at hx
          cases hx
      · rfl
  inside := by
    intro a live
    rw [g.dataCount]
    rcases g.live_cases positive bound a live with old | new
    · rw [g.target_live own a old]
      exact own.inside a old
    · obtain ⟨v, value, inside, _⟩ := g.target_new a new
      rwa [value]
  marked := by
    intro a live
    rcases g.live_cases positive bound a live with old | new
    · rw [g.target_live own a old, g.bits]
      exact Or.inl (own.marked a old)
    · obtain ⟨v, value, _, _, marked⟩ := g.target_new a new
      rwa [value]
  size := by
    intro j lower upper
    by_cases same : j = i
    · subst same
      rw [g.after]
      omega
    · rw [g.others j upper same]
      exact own.size j lower upper
  indirect := by
    intro j lower upper more
    by_cases same : j = i
    · subst same
      rw [g.blocks_after positive bound] at more
      exact g.used (by omega)
    · rw [g.blocks_other j upper same] at more
      rw [g.others j upper same]
      exact own.indirect j lower upper more

/-- The other files keep their bytes. -/
theorem content_other (own : Owned d) (j : Nat) (lower : 1 ≤ j) (upper : j < 64) (differ : j ≠ i) :
    d'.content j = d.content j := by
  unfold Device.content
  rw [g.others j upper differ]
  apply List.map_congr_left
  intro k' member
  have inside := List.mem_range.mp member
  have live : Ref.Live d (.slot j (k' / 1024)) := ⟨lower, upper, by unfold Device.blocks; omega⟩
  have target : (d'.ptr j (k' / 1024)).toNat = (d.ptr j (k' / 1024)).toNat := g.target_live own _ live
  have data : d'.data (d.ptr j (k' / 1024)).toNat = d.data (d.ptr j (k' / 1024)).toNat :=
    g.data_live own _ live (by simp)
  rw [target, data]

/-- The file itself gains the first `len` bytes of the buffer. -/
theorem content_self (own : Owned d) (bound : len ≤ 1024) :
    d'.content i = d.content i ++ (List.range len).map buff.byte := by
  unfold Device.content
  rw [g.after, g.before, List.range_add, List.map_append, List.map_map]
  congr 1
  · apply List.map_congr_left
    intro k' member
    have inside := List.mem_range.mp member
    have live : Ref.Live d (.slot i (k' / 1024)) :=
      ⟨g.file.1, g.file.2, by rw [g.blocks_before]; omega⟩
    have target : (d'.ptr i (k' / 1024)).toNat = (d.ptr i (k' / 1024)).toNat := g.target_live own _ live
    have data : d'.data (d.ptr i (k' / 1024)).toNat = d.data (d.ptr i (k' / 1024)).toNat :=
      g.data_live own _ live (by simp)
    rw [target, data]
  · apply List.map_congr_left
    intro k' member
    have inside := List.mem_range.mp member
    have quotient : (1024 * k + k') / 1024 = k := by omega
    have remainder : (1024 * k + k') % 1024 = k' := by omega
    simp only [Function.comp_apply, quotient, remainder, g.ptr, g.stored]

end Grown

end Sos.Efs
