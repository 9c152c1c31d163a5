import Sos.Boot.KernelName
import Sos.Boot.Intact
import Sos.Boot.Prompt

/-! The way of the second stage from a name to the kernel: search, load, and the switch to protected mode. -/

namespace Sos.Boot
open Sos.Lib Sos.Lib.Bytes Sos.Efs

/-- `find_kernel` with the memory that it leaves. -/
def findKernelIn (L : SearchLayout) (g : Geometry) (disk : Disk) :
    Nat → UInt16 → UInt16 → Mem → Option (Result × Mem)
  | 0, _, _, _ => none
  | fuel + 1, cx, bp, m =>
    match getBnum L.toLayout disk cx m with
    | none => some (.restart, m)
    | some (ax, m) =>
      let m := readFsBlock disk ax L.efsBuffer m
      let cx := g.cx (ax * 2 + 1)
      match searchBlock L m fuel L.efsBuffer bp with
      | none => none
      | some (.kernFound ax) => some (.found ax, m)
      | some .notFound => some (.notFound, m)
      | some (.searchFail bp) =>
        let cx := cx + 1
        if cx.toInt16 ≤ (m.word L.lastBlock).toInt16 then findKernelIn L g disk fuel cx bp m
        else some (.notFound, m)

/-- `PROT_STACK_ADDR`. -/
def protStackAddr : Nat := 0x9FBFF

def SearchLayout.memSize (L : SearchLayout) : UInt16 := L.kernelParam + paramLen

/-- Four bytes, the low one first. -/
def Phys.long (p : Phys) (x : Nat) : Nat :=
  (p x).toNat + 256 * (p (x + 1)).toNat + 65536 * (p (x + 2)).toNat + 16777216 * (p (x + 3)).toNat

def Phys.setLong (p : Phys) (x v : Nat) : Phys := fun y =>
  if x ≤ y ∧ y < x + 4 then UInt8.ofNat (v / 256 ^ (y - x)) else p y

/-- Where the processor goes on in protected mode, its stack, and memory. -/
structure Entry where
  eip : Nat
  esp : Nat
  mem : Phys

/-- `pmode_switch`: the segments begin at zero, and the last of the three words is taken by `ret`. -/
def pmodeSwitch (L : SearchLayout) (p : Phys) : Entry :=
  let p := p.setLong (protStackAddr - 4) (stage2LoadAddr + L.kernelParam.toNat)
  let p := p.setLong (protStackAddr - 8) (p.segment.word L.memSize).toNat
  let p := p.setLong (protStackAddr - 12) kernelAddress
  { eip := p.long (protStackAddr - 12), esp := protStackAddr - 8, mem := p }

/-- What the second stage comes to with a name. -/
inductive Ending where
  | entered (e : Entry)
  | notFound (p : Phys)
  | restart

/-- From `got_kernel_name` on; `get_memsize` gives the size. -/
def gotKernelName (L : SearchLayout) (g : Geometry) (disk : Disk) (memsize : UInt16) (fuel : Nat) (p : Phys) :
    Option Ending :=
  match findKernelIn L g disk fuel 0 0 (readRoot L disk p.segment) with
  | none => none
  | some (.restart, _) => some .restart
  | some (.notFound, m) => some (.notFound (p.withSegment m))
  | some (.found ax, m) => match loadKernel L.toLayout disk fuel ax (p.withSegment m) with
    | none => none
    | some (_, p) => some (.entered (pmodeSwitch L (p.withSegment (p.segment.setWord L.memSize memsize))))

theorem findKernelIn_result (L : SearchLayout) (g : Geometry) (disk : Disk) (fuel : Nat) (cx bp : UInt16)
    (m : Mem) :
    (findKernelIn L g disk fuel cx bp m).map Prod.fst = findKernel L g disk fuel cx bp m := by
  induction fuel generalizing cx bp m with
  | zero => rfl
  | succ fuel ih =>
    unfold findKernelIn findKernel
    cases getBnum L.toLayout disk cx m with
    | none => rfl
    | some answer =>
      obtain ⟨ax, m⟩ := answer
      dsimp only
      cases searchBlock L (readFsBlock disk ax L.efsBuffer m) fuel L.efsBuffer bp with
      | none => rfl
      | some leave =>
        cases leave with
        | kernFound ax => rfl
        | notFound => rfl
        | searchFail bp =>
          dsimp only
          split
          · exact ih _ _ _
          · rfl

theorem Frames.trans {L : Layout} {m₁ m₂ m₃ : Mem} (first : Frames L m₁ m₂) (second : Frames L m₂ m₃) :
    Frames L m₁ m₃ :=
  fun a outside => (second a outside).trans (first a outside)

section
variable (L : Layout) (disk : Disk) (ax : UInt16) (m : Mem)

theorem readBuffer_frames : Frames L m (readFsBlock disk ax L.efsBuffer m) := by
  intro a outside
  have room := L.room
  have buffer := L.at_toNat (show 58 < 1082 by omega)
  rw [readFsBlock_toNat _ _ _ _ (by rw [L.efsBuffer_at, buffer]; omega), L.efsBuffer_at, buffer, if_neg (by omega),
    if_neg (by omega)]

theorem setWord_frames (v : UInt16) : Frames L m (m.setWord L.lastBlock v) := by
  intro a outside
  have room := L.room
  exact L.setWord_lastBlock m v (by omega) (by omega)

theorem readInode_frames : Frames L m (readInode L disk ax m) := by
  intro a outside
  have room := L.room
  have slot : (64 * (ax % 16)).toNat = 64 * (ax.toNat % 16) := by
    rw [UInt16.toNat_mul, UInt16.toNat_mod]
    change 64 * (ax.toNat % 16) % 65536 = _
    omega
  have inode : L.efsInode.toNat = L.efsSuperblock.toNat + 20 := by rw [L.efsInode_at, L.at_toNat (by omega)]
  have source : (L.efsBuffer + 64 * (ax % 16)).toNat = L.efsSuperblock.toNat + (58 + 64 * (ax.toNat % 16)) := by
    rw [L.efsBuffer_at, L.at_add 58 _ _ slot, L.at_toNat (by omega)]
  unfold readInode
  rw [movsb_toNat _ _ _ _ (by omega) (by omega), inode, if_neg (by omega)]
  exact readBuffer_frames L disk _ m a outside

/-- The buffer is all that `get_bnum` changes. -/
theorem getBnum_kept {v : UInt16} {m' : Mem} (run : getBnum L disk ax m = some (v, m')) : Frames L m m' ∧
    ∀ j, j < 58 → m' (L.efsSuperblock + UInt16.ofNat j) = m (L.efsSuperblock + UInt16.ofNat j) := by
  unfold getBnum at run
  split at run
  · cases run
    exact ⟨fun _ _ => rfl, fun _ _ => rfl⟩
  · split at run
    · cases run
      exact ⟨readBuffer_frames L disk _ m, fun j before => readFsBlock_kept L disk _ m before⟩
    · cases run

end

/-- The search leaves the superblock and all that is not the file system's. -/
theorem findKernelIn_kept {L : SearchLayout} {g : Geometry} {disk : Disk} {fuel : Nat} {cx bp : UInt16} {m m' : Mem}
    {r : Result} (run : findKernelIn L g disk fuel cx bp m = some (r, m')) : Frames L.toLayout m m' ∧
    ∀ j, j < 58 → m' (L.efsSuperblock + UInt16.ofNat j) = m (L.efsSuperblock + UInt16.ofNat j) := by
  induction fuel generalizing cx bp m with
  | zero => cases run
  | succ fuel ih =>
    unfold findKernelIn at run
    cases number : getBnum L.toLayout disk cx m with
    | none =>
      rw [number] at run
      cases run
      exact ⟨fun _ _ => rfl, fun _ _ => rfl⟩
    | some answer =>
      obtain ⟨ax, m₁⟩ := answer
      rw [number] at run
      dsimp only at run
      obtain ⟨frames, front⟩ := getBnum_kept L.toLayout disk cx m number
      have frames' := frames.trans (readBuffer_frames L.toLayout disk ax m₁)
      have front' : ∀ j, j < 58 → readFsBlock disk ax L.efsBuffer m₁ (L.efsSuperblock + UInt16.ofNat j) =
          m (L.efsSuperblock + UInt16.ofNat j) :=
        fun j before => (readFsBlock_kept L.toLayout disk ax m₁ before).trans (front j before)
      cases searched : searchBlock L (readFsBlock disk ax L.efsBuffer m₁) fuel L.efsBuffer bp with
      | none =>
        rw [searched] at run
        cases run
      | some leave =>
        rw [searched] at run
        cases leave with
        | kernFound v =>
          cases run
          exact ⟨frames', front'⟩
        | notFound =>
          cases run
          exact ⟨frames', front'⟩
        | searchFail bp =>
          dsimp only at run
          split at run
          · obtain ⟨later, same⟩ := ih run
            exact ⟨frames'.trans later, fun j before => (same j before).trans (front' j before)⟩
          · cases run
            exact ⟨frames', front'⟩

theorem Phys.withSegment_frames {L : Layout} (p : Phys) {m : Mem} (frames : Frames L p.segment m) {y : Nat}
    (above : stage2LoadAddr ≤ y)
    (other : y < stage2LoadAddr + L.efsSuperblock.toNat ∨ stage2LoadAddr + L.efsSuperblock.toNat + 1082 ≤ y) :
    p.withSegment m y = p y := by
  unfold withSegment
  split
  next inside =>
    have place : (UInt16.ofNat (y - stage2LoadAddr)).toNat = y - stage2LoadAddr := by
      rw [UInt16.toNat_ofNat']
      omega
    rw [frames _ (by omega), segment, place, Nat.add_sub_cancel' above]
  next => rfl

/-- From 0x9000 on, the loop changes nothing but the file system's data while the blocks stay below. -/
theorem readKernLoop_frames {L : Layout} {disk : Disk} {fuel : Nat} {cx bx : UInt16} {p p' : Phys}
    {offsets : List UInt16} (run : readKernLoop L disk fuel cx bx p = some (offsets, p'))
    (clear : ∀ b, b ∈ offsets → kernelAddress + b.toNat + 1024 ≤ stage2LoadAddr) {y : Nat}
    (above : stage2LoadAddr ≤ y)
    (other : y < stage2LoadAddr + L.efsSuperblock.toNat ∨ stage2LoadAddr + L.efsSuperblock.toNat + 1082 ≤ y) :
    p' y = p y := by
  have base : kernelAddress = 0x500 := rfl
  have stage2 : stage2LoadAddr = 0x9000 := rfl
  induction fuel generalizing cx bx p offsets with
  | zero => cases run
  | succ fuel ih =>
    unfold readKernLoop at run
    cases number : getBnum L disk cx p.segment with
    | none =>
      rw [number] at run
      cases run
    | some answer =>
      obtain ⟨ax, m⟩ := answer
      rw [number] at run
      dsimp only at run
      obtain ⟨frames, -⟩ := getBnum_kept L disk cx p.segment number
      have here : kernelAddress + bx.toNat + 1024 ≤ stage2LoadAddr →
          (p.withSegment m).readFsBlock disk ax bx y = p y := by
        intro below
        rw [Phys.readFsBlock_outside _ _ _ _ (by omega) (by omega)]
        exact p.withSegment_frames frames above other
      split at run
      · obtain ⟨⟨rest, q⟩, tail, same⟩ := Option.map_eq_some_iff.mp run
        cases same
        have later := ih tail fun b member => clear b (List.mem_cons_of_mem _ member)
        exact later.trans (here (clear bx List.mem_cons_self))
      · cases run
        exact here (clear bx List.mem_cons_self)

section
variable {L : SearchLayout} {d : Device} {i : Nat} {contents : List UInt8} (f : Formatted d) (own : Owned d)
  (file : 1 ≤ i ∧ i < 64) (holds : d.content i = contents) (short : contents.length < 34 * 1024)
include f own file holds short

/-- A short kernel is loaded, and of the rest from 0x9000 on only the file system's data change. -/
theorem loadKernel_frames (p : Phys) (super : SuperblockLoaded L.toLayout d p.segment) : ∃ offsets p',
    (∀ fuel, 34 ≤ fuel → loadKernel L.toLayout (sectors d) fuel (UInt16.ofNat i) p = some (offsets, p')) ∧
    (∀ k (h : k < contents.length), p' (kernelAddress + k) = contents[k]) ∧
    ∀ y, stage2LoadAddr ≤ y → (y < stage2LoadAddr + L.efsSuperblock.toNat ∨
      stage2LoadAddr + L.efsSuperblock.toNat + 1082 ≤ y) → p' y = p y := by
  have size := size_content holds
  have base : kernelAddress = 0x500 := rfl
  have stage2 : stage2LoadAddr = 0x9000 := rfl
  obtain ⟨m, begin_, loading⟩ := loadKernel_loading f file p super
  rw [lastBlockOf, size] at loading
  obtain ⟨p', final, run⟩ := loading.run f own file (Nat.zero_add _) (by omega)
  have ends : ∀ fuel, 34 ≤ fuel → loadKernel L.toLayout (sectors d) fuel (UInt16.ofNat i) p =
      some ((List.range' 0 (contents.length % 65536 / 1024 + 1)).map fun j => UInt16.ofNat (1024 * j), p') := by
    intro fuel enough
    have loop := run fuel
    rw [if_pos (by omega)] at loop
    exact (begin_ fuel).trans loop
  refine ⟨_, p', ends, fun k inside => ?_, fun y above other => ?_⟩
  · rw [byte_content holds inside]
    exact final.blocks k (by omega) (by unfold Device.blocks; omega)
  · have loop := ends 34 le_rfl
    unfold loadKernel at loop
    have below : ∀ b, b ∈ (List.range' 0 (contents.length % 65536 / 1024 + 1)).map
        (fun j => UInt16.ofNat (1024 * j)) → kernelAddress + b.toNat + 1024 ≤ stage2LoadAddr := by
      intro b member
      obtain ⟨j, listed, rfl⟩ := List.mem_map.mp member
      have bound := (List.mem_range'_1.mp listed).2
      rw [UInt16.toNat_ofNat']
      omega
    have inode := readInode_frames L.toLayout (sectors d) (UInt16.ofNat i) p.segment
    have frames := inode.trans (setWord_frames L.toLayout _
      ((readInode L.toLayout (sectors d) (UInt16.ofNat i) p.segment).word L.efsInode / 1024))
    exact (readKernLoop_frames loop below above other).trans (p.withSegment_frames frames above other)

end

namespace Phys
variable (p : Phys) {x v : Nat}

theorem setLong_outside {y : Nat} (outside : y < x ∨ x + 4 ≤ y) : p.setLong x v y = p y := by
  rw [setLong, if_neg (by omega)]

theorem long_setLong_other {z : Nat} (outside : z + 4 ≤ x ∨ x + 4 ≤ z) : (p.setLong x v).long z = p.long z := by
  unfold long
  rw [p.setLong_outside (by omega), p.setLong_outside (by omega), p.setLong_outside (by omega),
    p.setLong_outside (by omega)]

theorem long_setLong (small : v < 2 ^ 32) : (p.setLong x v).long x = v := by
  have byte : ∀ j, j < 4 → ((p.setLong x v) (x + j)).toNat = v / 256 ^ j % 256 := by
    intro j inside
    rw [setLong, if_pos (by omega), Nat.add_sub_cancel_left, UInt8.toNat_ofNat']
  have first := byte 0 (by decide)
  rw [Nat.add_zero] at first
  rw [long, first, byte 1 (by decide), byte 2 (by decide), byte 3 (by decide)]
  omega

theorem segment_setLong (above : stage2LoadAddr + 65536 ≤ x) : (p.setLong x v).segment = p.segment := by
  funext a
  have bound := a.toNat_lt
  exact p.setLong_outside (Or.inl (by omega))

end Phys

/-- The kernel is in place, and its arguments are the size of memory and a string. -/
structure Entry.Starts (e : Entry) (contents param : List UInt8) (memsize : UInt16) : Prop where
  eip : e.eip = kernelAddress
  kernel : ∀ k (h : k < contents.length), e.mem (kernelAddress + k) = contents[k]
  size : e.mem.long e.esp = memsize.toNat
  param : ∀ j, j ≤ param.length → e.mem (e.mem.long (e.esp + 4) + j) = param.getD j 0

/-- The switch to protected mode leaves the kernel and its parameters, and says where they are. -/
theorem pmodeSwitch_starts {L : SearchLayout} {p : Phys} {contents param : List UInt8}
    (kernel : ∀ k (h : k < contents.length), p (kernelAddress + k) = contents[k])
    (long : contents.length < 34 * 1024)
    (text : ∀ j, j ≤ param.length → p (stage2LoadAddr + L.kernelParam.toNat + j) = param.getD j 0)
    (fits : param.length < 12) : (pmodeSwitch L p).Starts contents param (p.segment.word L.memSize) := by
  have base : kernelAddress = 0x500 := rfl
  have stage2 : stage2LoadAddr = 0x9000 := rfl
  have stack : protStackAddr = 0x9FBFF := rfl
  have bound := L.kernelParam.toNat_lt
  have size := (p.segment.word L.memSize).toNat_lt
  have segment : ∀ v, (p.setLong (protStackAddr - 4) v).segment = p.segment := fun v => p.segment_setLong (by omega)
  have lower : ∀ y, y < protStackAddr - 12 → (pmodeSwitch L p).mem y = p y := by
    intro y below
    unfold pmodeSwitch
    dsimp only
    rw [Phys.setLong_outside _ (by omega), Phys.setLong_outside _ (by omega), Phys.setLong_outside _ (by omega)]
  have pointer : (pmodeSwitch L p).mem.long ((pmodeSwitch L p).esp + 4) = stage2LoadAddr + L.kernelParam.toNat := by
    unfold pmodeSwitch
    dsimp only
    rw [show protStackAddr - 8 + 4 = protStackAddr - 4 by omega, Phys.long_setLong_other _ (by omega),
      Phys.long_setLong_other _ (by omega), Phys.long_setLong _ (by omega)]
  refine ⟨?_, fun k inside => ?_, ?_, fun j inside => ?_⟩
  · unfold pmodeSwitch
    dsimp only
    rw [Phys.long_setLong _ (by omega)]
  · rw [lower _ (by omega)]
    exact kernel k inside
  · unfold pmodeSwitch
    dsimp only
    rw [Phys.long_setLong_other _ (by omega), segment, Phys.long_setLong _ (by omega)]
  · rw [pointer, lower _ (by omega)]
    exact text j inside

/-- What the scan finds is what the search returns. -/
theorem Right.found {L : SearchLayout} {d : Device} {cnt : Nat} {w : List UInt8} {m : Mem} {i : UInt32}
    (f : Formatted d) (dir : Directory d cnt) (padded : Padded d) (short : w.length ≤ 11) (right : Right d w)
    (listed : d.lookup w = some i) (text : m.Text L.kernelFile w) (g : Geometry) {fuel : Nat} (enough : 77 ≤ fuel) :
    ∃ ax, ax.toNat = i.toNat ∧ search L g (sectors d) fuel m = some (.found ax) := by
  obtain ⟨m', scanned, -, run⟩ := search_scan f dir padded short text
  unfold Right at right
  rw [listed] at right
  obtain ⟨p, stop, inside, number⟩ := right
  refine ⟨m'.word (L.entry d w p + 12), ?_, ?_⟩
  · rw [scanned.word inside, number]
  · have hit := (stop_iff _ _ _).mp stop
    rw [entries_eq dir] at hit
    rw [run g fuel enough, hit]

/-- A name that is found in the right entry, and a string of parameters: the kernel is started with them. -/
theorem gotKernelName_starts {L : SearchLayout} (behind : L.kernelFile.toNat + 26 ≤ L.efsSuperblock.toNat)
    {d : Device} {cnt : Nat} (f : Formatted d) (dir : Directory d cnt) (own : Owned d) (padded : Padded d)
    {w param contents : List UInt8} (short : w.length ≤ 11) (right : Right d w) {i : UInt32}
    (listed : d.lookup w = some i) (file : 1 ≤ i.toNat ∧ i.toNat < 64) (holds : d.content i.toNat = contents)
    (small : contents.length < 34 * 1024) {p : Phys} (name : p.segment.Text L.kernelFile w)
    (text : ∀ j, j ≤ param.length → p.segment (L.kernelParam + UInt16.ofNat j) = param.getD j 0)
    (fits : param.length < 12) (g : Geometry) (memsize : UInt16) :
    ∃ e, gotKernelName L g (sectors d) memsize 77 p = some (.entered e) ∧
      e.Starts contents param memsize := by
  have room := L.room
  have stage2 : stage2LoadAddr = 0x9000 := rfl
  have start : L.kernelParam.toNat = L.kernelFile.toNat + 12 := by
    rw [SearchLayout.kernelParam, UInt16.toNat_add]
    change (L.kernelFile.toNat + 12) % 65536 = _
    omega
  have place : ∀ j, j < 14 → (L.kernelParam + UInt16.ofNat j).toNat = L.kernelFile.toNat + 12 + j := by
    intro j inside
    rw [UInt16.toNat_add, start, UInt16.toNat_ofNat']
    omega
  obtain ⟨ax, number, searched⟩ := right.found f dir padded short listed name g le_rfl
  rw [search, ← findKernelIn_result, Option.map_eq_some_iff] at searched
  obtain ⟨⟨r, m⟩, found, same⟩ := searched
  cases same
  obtain ⟨frames, front⟩ := findKernelIn_kept found
  obtain ⟨super, -, frames'⟩ := readRoot_loaded (L := L) f p.segment
  have superblock : SuperblockLoaded L.toLayout d (p.withSegment m).segment := by
    rw [Phys.segment_withSegment]
    exact super.congr front
  obtain ⟨offsets, q, run, kernel, kept⟩ := loadKernel_frames f own file holds small (p.withSegment m) superblock
  have loaded : loadKernel L.toLayout (sectors d) 77 ax (p.withSegment m) = some (offsets, q) := by
    rw [← run 77 (by decide), ← number, UInt16.ofNat_toNat]
  have params : ∀ j, j ≤ param.length → q (stage2LoadAddr + L.kernelParam.toNat + j) = param.getD j 0 := by
    intro j inside
    rw [← text j inside, Phys.segment, place j (by omega), start, Nat.add_assoc, kept _ (by omega) (by omega)]
    exact p.withSegment_frames (frames'.trans frames) (by omega) (by omega)
  have size : L.memSize = L.kernelParam + UInt16.ofNat 12 := rfl
  refine ⟨pmodeSwitch L (q.withSegment (q.segment.setWord L.memSize memsize)), ?_, ?_⟩
  · rw [gotKernelName, found]
    dsimp only
    rw [loaded]
  · have kernel' : ∀ k (h : k < contents.length),
        q.withSegment (q.segment.setWord L.memSize memsize) (kernelAddress + k) = contents[k] := by
      intro k inside
      rw [Phys.withSegment_below _ _ (by unfold kernelAddress; omega)]
      exact kernel k inside
    have params' : ∀ j, j ≤ param.length → q.withSegment (q.segment.setWord L.memSize memsize)
        (stage2LoadAddr + L.kernelParam.toNat + j) = param.getD j 0 := by
      intro j inside
      have far : ∀ k, 12 ≤ k → k < 14 → L.kernelParam + UInt16.ofNat j ≠ L.kernelParam + UInt16.ofNat k := by
        intro k above below same
        have value := congrArg UInt16.toNat same
        rw [place j (by omega), place k below] at value
        omega
      have first : L.kernelParam + UInt16.ofNat j ≠ L.memSize := far 12 le_rfl (by decide)
      have second : L.kernelParam + UInt16.ofNat j ≠ L.memSize + 1 := by
        rw [size, UInt16.add_assoc]
        exact far 13 (by decide) (by decide)
      have held := congrFun (q.segment_withSegment (q.segment.setWord L.memSize memsize))
        (L.kernelParam + UInt16.ofNat j)
      rw [Mem.setWord_other _ _ _ first second, Phys.segment, Phys.segment, place j (by omega), ← start,
        ← Nat.add_assoc, params j inside] at held
      exact held
    have starts := pmodeSwitch_starts kernel' small params' fits
    rwa [Phys.segment_withSegment, Mem.word_setWord] at starts

end Sos.Boot
