import Sos.Efs.Rounds

/-! One `writeefs` run on a regular file: `new_file`, then the copy loop. -/

namespace Sos.Efs
open Sos.Lib Sos.Lib.Bytes

namespace Created
variable {d d' : Device} {filename : Name} {i : UInt32} (c : Created d d' filename i)
include c

theorem blocks_self : d'.blocks i.toNat = 0 := by
  rw [Device.blocks, c.size]
  rfl

theorem content_self : d'.content i.toNat = [] := by
  rw [Device.content, c.size]
  rfl

theorem freeCount : d'.freeCount = d.freeCount := by
  unfold Device.freeCount
  rw [c.dataCount]
  simp only [c.bits]

/-- The pointers in use in the other files stay. -/
theorem ptr_other (own : Owned d) (j s : Nat) (lower : 1 ≤ j) (upper : j < 64)
    (differ : j ≠ i.toNat) (inside : s < d.blocks j) : d'.ptr j s = d.ptr j s := by
  unfold Device.ptr
  rw [c.others j lower upper differ]
  split
  · rfl
  · rw [c.data]
    intro zero
    exact own.indirect j lower upper (by omega) (UInt32.toNat_inj.mp zero)

theorem content_other (own : Owned d) (j : Nat) (lower : 1 ≤ j) (upper : j < 64)
    (differ : j ≠ i.toNat) : d'.content j = d.content j := by
  unfold Device.content
  rw [c.others j lower upper differ]
  apply List.map_congr_left
  intro k member
  have below := List.mem_range.mp member
  have inside : k / 1024 < d.blocks j := by unfold Device.blocks; omega
  rw [c.ptr_other own j _ lower upper differ inside, c.data]
  intro zero
  have same := own.unique (.slot j (k / 1024)) .root ⟨lower, upper, inside⟩ trivial zero
  cases same

/-- Nothing is owned now that was not owned before. -/
theorem live {cnt : Nat} (dir : Directory d' cnt) (own : Owned d) (a : Ref) (live : a.Live d') :
    a.Live d ∧ a.target d' = a.target d := by
  cases a with
  | root => exact ⟨trivial, rfl⟩
  | indirect j =>
    obtain ⟨upper, present⟩ := live
    have lower : 1 ≤ j := by
      by_contra root
      have zero : j = 0 := by omega
      rw [zero] at present
      exact present dir.indirect
    have same : (d'.inode j).indirectData = (d.inode j).indirectData := by
      by_cases self : j = i.toNat
      · rw [self, c.indirect]
      · rw [c.others j lower upper self]
    exact ⟨⟨upper, by rwa [← same]⟩, congrArg UInt32.toNat same⟩
  | slot j s =>
    obtain ⟨lower, upper, inside⟩ := live
    have differ : j ≠ i.toNat := by
      rintro rfl
      rw [c.blocks_self] at inside
      omega
    have blocks : d'.blocks j = d.blocks j := by
      unfold Device.blocks
      rw [c.others j lower upper differ]
    rw [blocks] at inside
    exact ⟨⟨lower, upper, inside⟩, congrArg UInt32.toNat (c.ptr_other own j s lower upper differ inside)⟩

theorem sound {cnt : Nat} (dir : Directory d' cnt) (sound : Sound d) : Sound d' where
  formatted := c.formatted
  directory := ⟨cnt, dir⟩
  owned := by
    have own := sound.owned
    refine { unique := ?_, inside := ?_, marked := ?_, size := ?_, indirect := ?_ }
    · intro a b liveA liveB same
      obtain ⟨oldA, targetA⟩ := c.live dir own a liveA
      obtain ⟨oldB, targetB⟩ := c.live dir own b liveB
      rw [targetA, targetB] at same
      exact own.unique a b oldA oldB same
    · intro a live
      obtain ⟨old, target⟩ := c.live dir own a live
      rw [target, c.dataCount]
      exact own.inside a old
    · intro a live
      obtain ⟨old, target⟩ := c.live dir own a live
      rw [target, c.bits]
      exact own.marked a old
    · intro j lower upper
      by_cases self : j = i.toNat
      · rw [self, c.size]
        simp
      · rw [c.others j lower upper self]
        exact own.size j lower upper
    · intro j lower upper more
      have differ : j ≠ i.toNat := by
        rintro rfl
        rw [c.blocks_self] at more
        omega
      unfold Device.blocks at more
      rw [c.others j lower upper differ] at more ⊢
      exact own.indirect j lower upper more

end Created

/-- All but file `i` are as they were. -/
structure Kept (i : Nat) (d d' : Device) : Prop where
  sound : Sound d'
  dataCount : d'.dataCount = d.dataCount
  lookup : ∀ s, d'.lookup s = d.lookup s
  referenced : (d'.inode i).refs = (d.inode i).refs
  others : ∀ j, j < 64 → j ≠ i → d'.inode j = d.inode j
  ptrs : ∀ j s, 1 ≤ j → j < 64 → s < d.blocks j → d'.ptr j s = d.ptr j s
  contents : ∀ j, 1 ≤ j → j < 64 → j ≠ i → d'.content j = d.content j

namespace Copying
variable {i k : Nat} {d d' : Device} {chunks : List Chunk} {r : CopyResult}

theorem kept (copying : Copying i k d chunks r d') (sound : Sound d)
    (referenced : (d.inode i).refs ≠ 0) : Kept i d d' := by
  induction copying with
  | finished k d =>
    exact ⟨sound, rfl, fun _ => rfl, rfl, fun _ _ _ => rfl, fun _ _ _ _ _ => rfl, fun _ _ _ _ => rfl⟩
  | full k d =>
    exact ⟨sound, rfl, fun _ => rfl, rfl, fun _ _ _ => rfl, fun _ _ _ _ _ => rfl, fun _ _ _ _ => rfl⟩
  | stuck k d c cs b inside free full high absent =>
    exact
      { sound := sound.mark inside
        dataCount := by simp [Device.dataCount]
        lookup := fun s => d.lookup_mark b s
        referenced := by rw [Device.inode_mark]
        others := fun j _ _ => d.inode_mark b j
        ptrs := fun j s _ _ _ => d.ptr_mark b j s
        contents := fun j _ _ _ => d.content_mark b j }
  | round k d d1 d2 c cs b t r grown direct some_ rest ih =>
    have bound := c.property
    have later := ih (grown.sound sound referenced direct some_ bound)
      (by rw [grown.refs]; exact referenced)
    have blocks : ∀ j, j < 64 → d.blocks j ≤ d1.blocks j := by
      intro j upper
      by_cases same : j = i
      · rw [same, grown.blocks_before, grown.blocks_after some_ bound]
        omega
      · rw [grown.blocks_other j upper same]
    exact
      { sound := later.sound
        dataCount := by rw [later.dataCount, grown.dataCount]
        lookup := fun s => by rw [later.lookup, grown.lookup sound.owned]
        referenced := by rw [later.referenced, grown.refs]
        others := fun j upper differ => by rw [later.others j upper differ, grown.others j upper differ]
        ptrs := fun j s lower upper inside => by
          rw [later.ptrs j s lower upper (by have := blocks j upper; omega),
            grown.ptr_live sound.owned j s lower upper inside]
        contents := fun j lower upper differ => by
          rw [later.contents j lower upper differ, grown.content_other sound.owned j lower upper differ] }

theorem ret (copying : Copying i k d chunks r d') : r.ret = 0 ∨ r.ret = -1 := by
  induction copying with
  | finished => exact Or.inl rfl
  | full => exact Or.inr rfl
  | stuck => exact Or.inr rfl
  | round k d d1 d2 c cs b t r grown direct some_ rest ih => exact ih

/-- Round `n` put block `k + n` where it says. -/
theorem placed (copying : Copying i k d chunks r d') (file : 1 ≤ i ∧ i < 64) (sound : Sound d)
    (referenced : (d.inode i).refs ≠ 0) (blocks : d.blocks i = k) :
    d'.blocks i = k + r.blocks.length ∧ ∀ n v, r.blocks[n]? = some v → v = d'.ptr i (k + n) + 5 := by
  induction copying with
  | finished k d => exact ⟨by simpa using blocks, by simp⟩
  | full k d => exact ⟨by simpa using blocks, by simp⟩
  | stuck k d c cs b => exact ⟨by simpa [Device.blocks_mark] using blocks, by simp⟩
  | round k d d1 d2 c cs b t r grown direct some_ rest ih =>
    have bound := c.property
    have sound1 := grown.sound sound referenced direct some_ bound
    have referenced1 : (d1.inode i).refs ≠ 0 := by rw [grown.refs]; exact referenced
    have blocks1 := grown.blocks_after some_ bound
    obtain ⟨total, later⟩ := ih sound1 referenced1 blocks1
    refine ⟨by rw [total, List.length_cons]; omega, ?_⟩
    intro n v at_
    cases n with
    | zero =>
      have kept := (rest.kept sound1 referenced1).ptrs i k file.1 file.2 (by omega)
      rw [Nat.add_zero, kept, grown.ptr]
      simpa using at_.symm
    | succ n =>
      have value := later n v (by simpa using at_)
      rwa [show k + 1 + n = k + (n + 1) by omega] at value

/-- A loop that came to the end of the source stored all of it. -/
theorem content (copying : Copying i k d chunks r d') (sound : Sound d)
    (referenced : (d.inode i).refs ≠ 0) (success : r.ret = 0) :
    d'.content i = d.content i ++ (chunks.map (·.val)).flatten := by
  induction copying with
  | finished k d => simp
  | full k d => simp at success
  | stuck k d => simp at success
  | round k d d1 d2 c cs b t r grown direct some_ rest ih =>
    have bound := c.property
    have buff : (List.range c.val.length).map (ReadResult.bytes c).buff.byte = c.val := by
      apply List.ext_getElem (by simp)
      intro n left right
      rw [List.getElem_map, List.getElem_range, ReadResult.buff, Buf.byte_tabulate _ (by omega),
        List.getD_eq_getElem _ _ right]
    rw [ih (grown.sound sound referenced direct some_ bound) (by rw [grown.refs]; exact referenced)
      success, grown.content_self sound.owned bound, buff]
    simp

end Copying

end Sos.Efs
