import Sos.Kernel.HeapTail
import Sos.Kernel.InitAlloc
import Sos.Kernel.Process

/-! How far the kernel's heap reaches: `init_cpu` hands the end of its 64 KB to `kalloc_init`,
which takes it for their length. -/

namespace Sos.Kernel
open Sos.Lib Machine

/-- A message about the arguments is all there is besides. -/
def kallocInit (base len : UInt32) : Prog Machine Int := do
  Prog.modify fun s => { s with kallocBase := base, kallocInited := true }
  onMem (initAlloc base len)

/-- 64 KB. -/
def kallocSize : UInt32 := 0x10000

/-- The part of `init_cpu` for the heap at `__kalloc_base`. It panics when there is none. -/
def initCpuHeap (base : UInt32) : Prog Machine Unit := do
  let r ← kallocInit base (base + kallocSize)
  if r = retFailure then Prog.exit
  else return ()

/-- Where the linker script can place the heap: behind three pages at least, and there are 64 KB. -/
def LinkerBase (base : UInt32) : Prop :=
  base.toNat % 4096 = 0 ∧ 0x3000 ≤ base.toNat ∧ base.toNat + kallocSize.toNat ≤ 4294967296

instance (base : UInt32) : Decidable (LinkerBase base) := inferInstanceAs (Decidable (_ ∧ _))

/-- What a request asks for: its size in whole words, and a header. -/
def blockNeed (size : UInt32) : ℕ := (size.toNat + 3) / 4 * 4 + 8

/-- The kernel, the blocks its parts have from `kalloc`, and all they have asked for so far. -/
structure Holders where
  machine : Machine
  live : List Slot
  asked : ℕ

namespace Holders

def onMachine {α : Type} (x : Prog Machine α) : Prog Holders α :=
  Prog.zoom Holders.machine (fun u s => { u with machine := s }) x

def given (p size : UInt32) (u : Holders) : Holders where
  machine := u.machine
  live := if p = 0 then u.live else ⟨p - 8, roundUp size⟩ :: u.live
  asked := u.asked + blockNeed size

/-- Only `kalloc` returns something. -/
def step (fuel : Nat) : Call → Prog Holders (Option UInt32)
  | .alloc size => do
    let p ← onMachine (kalloc fuel size)
    Prog.modify (given p size)
    return some p
  | .free pointer => do
    onMachine (kfree goOn fuel pointer)
    Prog.modify fun u => { u with live := u.live.eraseP fun b => b.addr = pointer - 8 }
    return none
  | .write a v => do
    onMachine (Prog.modify fun s => s.withMem fun x => if x = a then v else s.mem x)
    return none

/-- The two list heads and all that has been asked for come to 64 KB at most; stores are to own data only. -/
def Below : Call → Holders → Prop
  | .alloc size, u => 8 + u.asked + blockNeed size ≤ kallocSize.toNat
  | .free _, _ => True
  | .write a _, u => ∃ b, b ∈ u.live ∧ b.Has a

/-- As long as nothing is given back, this is more than what is left of the length that was passed. -/
def Refused (base size : UInt32) (u : Holders) : Prop :=
  (base + kallocSize).toNat < 16 + u.asked + (roundUp size + 8).toNat

end Holders

/-- The block lies in the 64 KB. -/
def Within64k (base size p : UInt32) : Prop :=
  base.toNat ≤ p.toNat ∧ p.toNat + size.toNat ≤ base.toNat + kallocSize.toNat

instance (base size p : UInt32) : Decidable (Within64k base size p) := inferInstanceAs (Decidable (_ ∧ _))

/-- `kalloc` returns, and a block in the 64 KB if it returns one. -/
def KallocWithin (fuel : Nat) (base size : UInt32) (s : Machine) : Prop :=
  ∃ p t, kalloc fuel size s = .done p t ∧ (p ≠ 0 → Within64k base size p)

/-- The 64 KB with one more header lie at `R`, and as much of them as has not been asked for is the last block. -/
structure HoldersTrack {R : Region} (u : Holders) (h : Heap R) : Prop where
  base : u.machine.kallocBase = R.base
  inited : u.machine.kallocInited = true
  live : h.used = u.live
  sized : Sized R (R.stored (R.base - 8)) u.machine.mem h.free h.used
  asked : 8 + u.asked ≤ kallocSize.toNat
  spare : h.Spare (kallocSize.toNat - 8 - u.asked)

namespace HoldersTrack
variable {R : Region} {u : Holders} {h : Heap R} (track : HoldersTrack u h) (length : R.length = kallocSize + 8)
  (low : 8 ≤ R.base.toNat) {fuel : Nat} (enough : 8193 < fuel)
include track length low

omit track length in
theorem beyond_toNat : (R.base - 8).toNat = R.base.toNat - 8 :=
  UInt32.toNat_sub_of_le _ _ (UInt32.le_iff_toNat_le.mpr low)

omit track low in
theorem hi_eq : R.hi = R.base.toNat + 65544 := by
  unfold Region.hi
  rw [length]
  rfl

omit track in
/-- In memory the last block ends past all the others, or before them. -/
theorem clear (b : Slot) (member : b ∈ h.free ++ h.used) :
    b.addr.toNat ≠ (R.hi + (R.base - 8).toNat) % 4294967296 := by
  have bounds := h.layout.addr_bounds member
  have upper := h.layout.1.upper b member
  have room : R.hi ≤ 4294967296 := R.room
  unfold Slot.past at upper
  rw [hi_eq length] at upper room ⊢
  rw [beyond_toNat low]
  omega

include enough

omit track low in
theorem steps : (h.free ++ h.used).length < fuel := by
  have count := h.layout.length_le
  have long : R.length.toNat = 65544 := congrArg UInt32.toNat length
  omega

/-- A request that meets the condition gets a block in the 64 KB. -/
theorem alloc {size : UInt32} (below : Holders.Below (.alloc size) u) : ∃ (p : UInt32) (m : Mem) (h' : Heap R),
    kalloc fuel size u.machine = .done p (u.machine.withMem m) ∧ Within64k R.base size p ∧
      HoldersTrack (Holders.given p size { u with machine := u.machine.withMem m }) h' := by
  have asked : 8 + u.asked + ((size.toNat + 3) / 4 * 4 + 8) ≤ 65536 := below
  have few : h.free.length < fuel := by
    have count := steps (h := h) length enough
    rw [List.length_append] at count
    omega
  have room : R.length.toNat + (R.base - 8).toNat < 4294967296 := by
    have room : R.hi ≤ 4294967296 := R.room
    rw [hi_eq length] at room
    rw [beyond_toNat low, length]
    change 65544 + _ < _
    omega
  have fits : 65536 - 8 - (u.asked + blockNeed size) + ((size.toNat + 3) / 4 * 4 + 8) = 65536 - 8 - u.asked := by
    unfold blockNeed
    omega
  obtain ⟨b, h', m, used, len, run, sized, spare⟩ := track.sized.alloc_spare track.spare room few fits
  have rounded : (roundUp size).toNat = (size.toNat + 3) / 4 * 4 := roundUp_toNat (by omega)
  have member : b ∈ h'.used := by
    rw [used]
    exact List.mem_cons_self
  have bounds := h'.layout.addr_bounds (List.mem_append_right h'.free member)
  have past := spare.past_le member
  rw [hi_eq length] at past
  unfold Slot.past at past
  rw [len] at past
  have upper : b.addr.toNat + 8 + size.toNat ≤ R.base.toNat + 65536 := by omega
  have room : R.hi ≤ 4294967296 := R.room
  rw [hi_eq length] at room
  have place : (b.addr + 8).toNat = b.addr.toNat + 8 := by
    rw [UInt32.toNat_add]
    exact Nat.mod_eq_of_lt (show _ + 8 < 4294967296 by omega)
  have valid : b.addr + 8 ≠ 0 := by
    intro zero
    rw [zero] at place
    exact absurd place (by simp)
  refine ⟨b.addr + 8, m, h', ?_, ⟨by omega, ?_⟩, track.base, track.inited, ?_, sized, ?_, spare⟩
  · rw [kalloc, if_pos track.inited, track.base]
    exact Prog.zoom_done run
  · rw [place]
    exact upper
  · rw [used, track.live, Holders.given, if_neg valid, pointer_sub]
    exact congrArg (· :: u.live) (congrArg (Slot.mk b.addr) len)
  · rw [Holders.given]
    unfold blockNeed
    change 8 + (u.asked + _) ≤ 65536
    omega

/-- Blocks can be given back, whatever they are. -/
theorem free (pointer : UInt32) : ∃ (m : Mem) (h' : Heap R),
    kfree goOn fuel pointer u.machine = .done () (u.machine.withMem m) ∧
      HoldersTrack { u with machine := u.machine.withMem m,
                            live := u.live.eraseP fun b => b.addr = pointer - 8 } h' := by
  obtain ⟨r, h', m, run, outcome, used, sized, spare⟩ :=
    track.sized.free_spare track.spare (steps length enough) (clear length low) pointer
  have first : onMem (Kernel.free fuel R.base pointer) u.machine = .done r (u.machine.withMem m) :=
    Prog.zoom_done run
  refine ⟨m, h', ?_, track.base, track.inited, by rw [used, track.live], sized, track.asked, spare⟩
  rw [kfree, if_pos track.inited, track.base, Prog.bind_done _ first]
  by_cases missing : r = -1
  · rw [if_pos missing]
    rfl
  · rw [if_neg missing]
    rfl

omit length low enough in
theorem write {a : UInt32} (v : UInt8) (own : ∃ b, b ∈ u.live ∧ b.Has a) :
    HoldersTrack { u with machine := u.machine.withMem fun x => if x = a then v else u.machine.mem x } h := by
  obtain ⟨b, member, data⟩ := own
  have inside : b ∈ h.free ++ h.used := List.mem_append_right _ (track.live ▸ member)
  refine ⟨track.base, track.inited, track.live, ?_, track.asked, track.spare⟩
  refine track.sized.congr h.layout fun x _ header => if_neg ?_
  rintro rfl
  obtain ⟨heads, headers⟩ := h.layout.data_clear inside data
  rcases header with head | ⟨t, listed, above, behind⟩
  · omega
  · have outside := headers t listed
    omega

/-- A call that meets the condition keeps the heap, and gives no block past the 64 KB. -/
theorem step {c : Call} {o : Option UInt32} {v : Holders} (below : Holders.Below c u)
    (run : Holders.step fuel c u = .done o v) : (∃ h' : Heap R, HoldersTrack v h') ∧
      ∀ size p, c = .alloc size → o = some p → p ≠ 0 → Within64k R.base size p := by
  cases c with
  | alloc size =>
    obtain ⟨p, m, h', given, within, next⟩ := track.alloc length low enough below
    have called : Holders.onMachine (kalloc fuel size) u =
        .done p { u with machine := u.machine.withMem m } := Prog.zoom_done given
    rw [Holders.step, Prog.bind_done _ called] at run
    cases run
    refine ⟨⟨h', next⟩, ?_⟩
    rintro size' q ⟨⟩ ⟨⟩ -
    exact within
  | free pointer =>
    obtain ⟨m, h', freed, next⟩ := track.free length low enough pointer
    have called : Holders.onMachine (kfree goOn fuel pointer) u =
        .done () { u with machine := u.machine.withMem m } := Prog.zoom_done freed
    rw [Holders.step, Prog.bind_done _ called] at run
    cases run
    exact ⟨⟨h', next⟩, fun _ _ same => by cases same⟩
  | write a x =>
    cases run
    exact ⟨⟨h, track.write x below⟩, fun _ _ same => by cases same⟩

end HoldersTrack

/-- As long as nothing is given back, the one free block is behind all that has been asked for. -/
structure Growing (base : UInt32) (u : Holders) : Prop where
  heap : u.machine.kallocBase = base
  inited : u.machine.kallocInited = true
  words : u.asked % 4 = 0
  asked : 8 + u.asked ≤ kallocSize.toNat
  one : OneFree base (base + kallocSize) u.machine.mem (UInt32.ofNat (8 + u.asked))
  live : ∀ b, b ∈ u.live → base.toNat + 8 ≤ b.addr.toNat ∧ b.past ≤ base.toNat + 8 + u.asked

namespace Growing
variable {base : UInt32} {u : Holders} (growing : Growing base u)
  (length : (base + kallocSize).toNat = base.toNat + 65536)
include growing

theorem front : (UInt32.ofNat (8 + u.asked)).toNat = 8 + u.asked := by
  have asked : 8 + u.asked ≤ 65536 := growing.asked
  exact UInt32.toNat_ofNat_of_lt' (show _ < 4294967296 by omega)

/-- What is left of the length. -/
theorem left : 16 + u.asked + (slotLen u.machine.mem (base + UInt32.ofNat (8 + u.asked))).toNat =
    (base + kallocSize).toNat := by
  have tail := growing.one.tail
  rw [growing.front] at tail
  omega

include length

theorem place : (base + UInt32.ofNat (8 + u.asked)).toNat = base.toNat + 8 + u.asked := by
  have bound := (base + kallocSize).toNat_lt
  have asked : 8 + u.asked ≤ 65536 := growing.asked
  rw [UInt32.toNat_add, growing.front]
  omega

theorem valid : base + UInt32.ofNat (8 + u.asked) ≠ 0 := by
  intro zero
  have place := growing.place length
  rw [zero] at place
  change 0 = _ at place
  omega

/-- A request that is met gets the start of the block. -/
theorem alloc {size : UInt32} (k : ℕ) (below : Holders.Below (.alloc size) u) (low : 0x3000 ≤ base.toNat) :
    ∃ m, kalloc (k + 2) size u.machine = .done (base + UInt32.ofNat (8 + u.asked) + 8) (u.machine.withMem m) ∧
      OneFree base (base + kallocSize) m (UInt32.ofNat (8 + (u.asked + blockNeed size))) := by
  have below : 8 + u.asked + ((size.toNat + 3) / 4 * 4 + 8) ≤ 65536 := below
  have left := growing.left
  have front := growing.front
  have rounded : (roundUp size).toNat = (size.toNat + 3) / 4 * 4 := roundUp_toNat (by omega)
  have sum : (roundUp size + 8).toNat = (roundUp size).toNat + 8 := by
    rw [UInt32.toNat_add]
    exact Nat.mod_eq_of_lt (show _ + 8 < 4294967296 by omega)
  have passes : ¬slotLen u.machine.mem (base + UInt32.ofNat (8 + u.asked)) < roundUp size + 8 := by
    rw [UInt32.lt_iff_toNat_lt, sum]
    omega
  have room : (roundUp size).toNat + 8 ≤ (slotLen u.machine.mem (base + UInt32.ofNat (8 + u.asked))).toNat := by omega
  obtain ⟨m, run, one⟩ := growing.one.take_fits room
  have next : UInt32.ofNat (8 + u.asked) + 8 + roundUp size = UInt32.ofNat (8 + (u.asked + blockNeed size)) := by
    rw [← UInt32.toNat_inj, UInt32.toNat_add, UInt32.toNat_add, front, rounded, UInt32.toNat_ofNat', blockNeed]
    simp
    omega
  rw [next] at one
  refine ⟨m, ?_, one⟩
  rw [kalloc, if_pos growing.inited, growing.heap]
  exact Prog.zoom_done ((growing.one.alloc_taken k (growing.valid length) passes).trans run)

/-- A further block is in the 64 KB if and only if there is room for it, or there is none. -/
theorem within_iff (aligned : base.toNat % 4096 = 0) (k : ℕ) (size : UInt32) :
    KallocWithin (k + 2) base size u.machine ↔ Holders.Below (.alloc size) u ∨ Holders.Refused base size u := by
  have left := growing.left
  have place := growing.place length
  have words := growing.words
  have asked : 8 + u.asked ≤ 65536 := growing.asked
  have bound := (base + kallocSize).toNat_lt
  have kalloc_run {p : UInt32} {m : Mem}
      (run : Kernel.alloc (k + 2) base size u.machine.mem = .done p m) :
      kalloc (k + 2) size u.machine = .done p (u.machine.withMem m) := by
    rw [kalloc, if_pos growing.inited, growing.heap]
    exact Prog.zoom_done run
  by_cases refused : slotLen u.machine.mem (base + UInt32.ofNat (8 + u.asked)) < roundUp size + 8
  · have run := kalloc_run (growing.one.alloc_refused k (Or.inr refused))
    refine iff_of_true ⟨0, _, run, fun nonzero => absurd rfl nonzero⟩ (Or.inr ?_)
    rw [UInt32.lt_iff_toNat_lt] at refused
    unfold Holders.Refused
    omega
  · have met : ¬Holders.Refused base size u := by
      rw [UInt32.lt_iff_toNat_lt] at refused
      unfold Holders.Refused
      omega
    rw [or_iff_left met]
    obtain ⟨m, given⟩ := take_returns base (base + UInt32.ofNat (8 + u.asked)) 0 (roundUp size) u.machine.mem
    have run := kalloc_run ((growing.one.alloc_taken k (growing.valid length) refused).trans given)
    have pointer : (base + UInt32.ofNat (8 + u.asked) + 8).toNat = base.toNat + 16 + u.asked := by
      have eight : (8 : UInt32).toNat = 8 := rfl
      rw [UInt32.toNat_add, place, eight]
      omega
    have nonzero : base + UInt32.ofNat (8 + u.asked) + 8 ≠ 0 := by
      intro zero
      rw [zero] at pointer
      change 0 = _ at pointer
      omega
    constructor
    · rintro ⟨p, t, run', within⟩
      rw [run, Outcome.done.injEq] at run'
      obtain ⟨rfl, -⟩ := run'
      obtain ⟨-, upper⟩ := within nonzero
      rw [pointer] at upper
      change 8 + u.asked + ((size.toNat + 3) / 4 * 4 + 8) ≤ 65536
      change _ ≤ base.toNat + 65536 at upper
      -- the end of the 64 KB is a multiple of four away
      omega
    · intro below
      have below : 8 + u.asked + ((size.toNat + 3) / 4 * 4 + 8) ≤ 65536 := below
      refine ⟨_, _, run, fun _ => ⟨by omega, ?_⟩⟩
      rw [pointer]
      change _ ≤ base.toNat + 65536
      omega

/-- What is met, and what is stored, leaves it so. -/
theorem step {k : ℕ} (low : 0x3000 ≤ base.toNat) {c : Call} {o : Option UInt32} {v : Holders}
    (held : ∀ pointer, c ≠ .free pointer) (below : Holders.Below c u)
    (run : Holders.step (k + 2) c u = .done o v) : Growing base v := by
  have place := growing.place length
  have words := growing.words
  cases c with
  | alloc size =>
    obtain ⟨m, given, one⟩ := growing.alloc length k below low
    have called : Holders.onMachine (kalloc (k + 2) size) u = .done _ { u with machine := u.machine.withMem m } :=
      Prog.zoom_done given
    rw [Holders.step, Prog.bind_done _ called] at run
    cases run
    have room : 8 + u.asked + ((size.toNat + 3) / 4 * 4 + 8) ≤ 65536 := below
    have rounded : (roundUp size).toNat = (size.toNat + 3) / 4 * 4 := roundUp_toNat (by omega)
    refine ⟨growing.heap, growing.inited, ?_, ?_, one, ?_⟩
    · change (u.asked + ((size.toNat + 3) / 4 * 4 + 8)) % 4 = 0
      omega
    · change 8 + (u.asked + ((size.toNat + 3) / 4 * 4 + 8)) ≤ 65536
      omega
    · intro b member
      change b ∈ (if base + UInt32.ofNat (8 + u.asked) + 8 = 0 then u.live else _) at member
      change _ ∧ b.past ≤ base.toNat + 8 + (u.asked + ((size.toNat + 3) / 4 * 4 + 8))
      have old : b ∈ u.live → base.toNat + 8 ≤ b.addr.toNat ∧
          b.past ≤ base.toNat + 8 + (u.asked + ((size.toNat + 3) / 4 * 4 + 8)) := by
        intro listed
        obtain ⟨lower, upper⟩ := growing.live b listed
        exact ⟨lower, by omega⟩
      split at member
      next => exact old member
      next =>
        rcases List.mem_cons.mp member with rfl | listed
        · rw [pointer_sub]
          unfold Slot.past
          rw [place, rounded]
          omega
        · exact old listed
  | free pointer => exact absurd rfl (held pointer)
  | write a x =>
    cases run
    obtain ⟨b, member, data⟩ := below
    obtain ⟨lower, upper⟩ := growing.live b member
    unfold Slot.Has at data
    have offset : (a - base).toNat = a.toNat - base.toNat :=
      UInt32.toNat_sub_of_le _ _ (UInt32.le_iff_toNat_le.mpr (by omega))
    refine ⟨growing.heap, growing.inited, growing.words, growing.asked, ?_, growing.live⟩
    refine growing.one.written x (by omega) ?_
    rw [offset, growing.front]
    omega

end Growing

theorem heads_fit : 8 ≤ kallocSize.toNat := by decide

theorem kallocSize_beyond : (kallocSize + 8).toNat = 65544 := by decide

theorem kallocSize_rest : kallocSize.toNat - 8 - 0 = (kallocSize + 8 - 8 - 8).toNat := by decide

section
variable {base : UInt32} (linked : LinkerBase base) {s t : Machine} (run : initCpuHeap base s = .done () t)
include linked run

/-- There is a heap if the sum does not wrap. -/
theorem initCpuHeap_done : (base + kallocSize).toNat = base.toNat + 65536 ∧ t.kallocBase = base ∧
    t.kallocInited = true ∧ initAlloc base (base + kallocSize) s.mem = .done retSuccess t.mem := by
  have length : (base + kallocSize).toNat = (base.toNat + 65536) % 4294967296 := UInt32.toNat_add _ _
  have bound : base.toNat + 65536 ≤ 4294967296 := linked.2.2
  unfold initCpuHeap kallocInit at run
  obtain ⟨r, v, first, rest⟩ := Prog.of_bind_done run
  rw [Prog.modify_bind_run] at first
  obtain ⟨m, made, rfl⟩ := Prog.of_zoom_done first
  unfold initAlloc at made
  by_cases short : base + kallocSize < 8
  · rw [if_pos short] at made
    cases made
    cases rest
  · rw [UInt32.lt_iff_toNat_lt] at short
    change ¬_ < 8 at short
    have success : r = retSuccess := by
      rw [if_neg (by rw [UInt32.lt_iff_toNat_lt]; exact short)] at made
      cases made
      rfl
    subst success
    cases rest
    exact ⟨by omega, rfl, rfl, made⟩

theorem growing_start : Growing base ⟨t, [], 0⟩ := by
  obtain ⟨length, base_eq, inited, made⟩ := initCpuHeap_done linked run
  have long : 16 ≤ (base + kallocSize).toNat := by omega
  have one : OneFree base (base + kallocSize) t.mem 8 := initAlloc_oneFree made long
  constructor
  case heap => exact base_eq
  case inited => exact inited
  case words => exact Nat.zero_mod 4
  case asked => exact heads_fit
  case one => exact one
  case live => exact fun _ member => absurd member List.not_mem_nil

theorem holdersTrack_start : ∃ R : Region, R.base = base ∧ R.length = kallocSize + 8 ∧
    HoldersTrack ⟨t, [], 0⟩ (Heap.init R) := by
  obtain ⟨length, base_eq, inited, made⟩ := initCpuHeap_done linked run
  obtain ⟨-, head, last, len, used⟩ := initAlloc_words made
  obtain ⟨aligned, low, -⟩ := linked
  have bound := (base + kallocSize).toNat_lt
  let R : Region :=
    { base := base
      length := kallocSize + 8
      aligned := by
        unfold Mem.Aligned
        omega
      enough := by decide
      room := by
        rw [kallocSize_beyond]
        omega }
  have past : Slot.past ⟨R.base + 8, R.length - 8 - 8⟩ = R.hi := by
    have place : (base + 8).toNat = base.toNat + 8 := by
      rw [UInt32.toNat_add]
      exact Nat.mod_eq_of_lt (show _ + 8 < 4294967296 by omega)
    change (base + 8).toNat + 8 + (kallocSize + 8 - 8 - 8).toNat = base.toNat + (kallocSize + 8).toNat
    rw [place, ← kallocSize_rest, kallocSize_beyond]
    have size : kallocSize.toNat = 65536 := rfl
    omega
  have member : (⟨R.base + 8, R.length - 8 - 8⟩ : Slot) ∈ (Heap.init R).free ++ (Heap.init R).used :=
    List.mem_append_left _ (List.mem_singleton_self _)
  have valid : base + 8 ≠ 0 := (Heap.init R).layout.addr_ne_zero member
  have stored (s : Slot) (listed : s ∈ (Heap.init R).free ++ (Heap.init R).used) :
      slotLen t.mem s.addr = R.stored (R.base - 8) s := by
    obtain rfl : s = ⟨R.base + 8, R.length - 8 - 8⟩ := List.mem_singleton.mp listed
    rw [stored_last past]
    change slotLen t.mem (base + 8) = kallocSize + 8 - 8 - 8 + (base - 8)
    rw [len]
    grind
  refine ⟨R, rfl, rfl, base_eq, inited, rfl, ⟨⟨⟨head, valid, last⟩, used⟩, stored⟩, heads_fit, ?_⟩
  exact ⟨_, List.mem_singleton_self _, past, kallocSize_rest.le⟩

/-- As long as the two list heads and all that has been asked for come to no more than the 64 KB, every block lies
in them. Up to the first `kfree` a further one does if and only if its request keeps to that too, or is refused. -/
theorem kalloc_within {fuel : Nat} (enough : 8193 < fuel) :
    ∀ log u, Runs (Holders.step fuel) Holders.Below ⟨t, [], 0⟩ log u →
      (∀ size p, (.alloc size, some p) ∈ log → p ≠ 0 → Within64k base size p) ∧
      (∀ size, Holders.Below (.alloc size) u → KallocWithin fuel base size u.machine) ∧
      ((∀ pointer o, (.free pointer, o) ∉ log) → ∀ size, KallocWithin fuel base size u.machine ↔
        Holders.Below (.alloc size) u ∨ Holders.Refused base size u) := by
  obtain ⟨length, -⟩ := initCpuHeap_done linked run
  have growing := growing_start linked run
  have low := linked.2.1
  obtain ⟨R, rfl, whole, start⟩ := holdersTrack_start linked run
  obtain ⟨k, rfl⟩ : ∃ k, fuel = k + 2 := ⟨fuel - 2, by omega⟩
  intro log u runs
  have kept : (∃ h : Heap R, HoldersTrack u h) ∧
      (∀ size p, (.alloc size, some p) ∈ log → p ≠ 0 → Within64k R.base size p) ∧
      ((∀ pointer o, (.free pointer, o) ∉ log) → Growing R.base u) := by
    apply runs.invariant (fun log u => (∃ h : Heap R, HoldersTrack u h) ∧
      (∀ size p, (.alloc size, some p) ∈ log → p ≠ 0 → Within64k R.base size p) ∧
      ((∀ pointer o, (.free pointer, o) ∉ log) → Growing R.base u))
    · exact ⟨⟨_, start⟩, fun _ _ member => absurd member List.not_mem_nil, fun _ => growing⟩
    rintro log u c o v ⟨⟨h, track⟩, before, grows⟩ below called
    obtain ⟨next, within⟩ := track.step whole (by omega) enough below called
    refine ⟨next, fun size p member valid => ?_, fun held => ?_⟩
    · rcases List.mem_cons.mp member with now | earlier
      · rw [Prod.mk.injEq] at now
        exact within size p now.1.symm now.2.symm valid
      · exact before size p earlier valid
    · have earlier := grows fun pointer r member => held pointer r (List.mem_cons_of_mem _ member)
      refine earlier.step length low (fun pointer same => ?_) below called
      exact held pointer o (List.mem_cons.mpr (Or.inl (by rw [same])))
  obtain ⟨⟨h, track⟩, within, grows⟩ := kept
  refine ⟨within, fun size below => ?_, fun held => (grows held).within_iff length linked.1 k⟩
  obtain ⟨p, m, -, given, inside, -⟩ := track.alloc whole (by omega) enough below
  exact ⟨p, _, given, fun _ => inside⟩

end

/-- The kernel before its heap is there. -/
def starting : Machine where
  mem := fun _ => 0
  kallocBase := 0
  kallocInited := false
  memmanInited := false
  frameCount := 0
  frameMap := fun _ => ⟨false, 0⟩
  kernPageDir := 0
  schedStartProc := 0
  proctab := fun _ => ⟨0, .null, 0, 0⟩
  curproc := 0
  gdt := fun _ => ⟨0, 0, 0, 0, 0, 0⟩

theorem kalloc_within_linked : ∃ t, initCpuHeap 0x3000 starting = .done () t ∧
    ∀ log u, Runs (Holders.step 8194) Holders.Below ⟨t, [], 0⟩ log u →
      (∀ size p, (.alloc size, some p) ∈ log → p ≠ 0 → Within64k 0x3000 size p) ∧
      (∀ size, Holders.Below (.alloc size) u → KallocWithin 8194 0x3000 size u.machine) ∧
      ((∀ pointer o, (.free pointer, o) ∉ log) → ∀ size, KallocWithin 8194 0x3000 size u.machine ↔
        Holders.Below (.alloc size) u ∨ Holders.Refused 0x3000 size u) := by
  obtain ⟨t, run⟩ : ∃ t, initCpuHeap 0x3000 starting = .done () t := ⟨_, rfl⟩
  exact ⟨t, run, kalloc_within (by decide) run (Nat.lt_succ_self 8193)⟩

/-- The first request for 64 KB is met, with a block that ends 16 bytes past them. -/
theorem kalloc_past_64k : ∃ t p u, LinkerBase 0x3000 ∧ initCpuHeap 0x3000 starting = .done () t ∧
    kalloc 9729 0x10000 t = .done p u ∧ p ≠ 0 ∧ ¬Within64k 0x3000 0x10000 p := by
  obtain ⟨t, run⟩ : ∃ t, initCpuHeap 0x3000 starting = .done () t := ⟨_, rfl⟩
  obtain ⟨-, heap, inited, made⟩ := initCpuHeap_done (by decide) run
  have one : OneFree 0x3000 (0x3000 + kallocSize) t.mem 8 := initAlloc_oneFree made (by decide)
  have tail : 16 + (slotLen t.mem (0x3000 + 8)).toNat = 0x13000 := one.tail
  have passes : ¬slotLen t.mem (0x3000 + 8) < roundUp 0x10000 + 8 := by
    have sum : (roundUp 0x10000 + 8).toNat = 0x10008 := by decide
    rw [UInt32.lt_iff_toNat_lt, sum]
    omega
  obtain ⟨m, given⟩ := take_returns 0x3000 (0x3000 + 8) 0 (roundUp 0x10000) t.mem
  have taken := (one.alloc_taken 9727 (by decide) passes).trans given
  have called : kalloc 9729 0x10000 t =
      .done (0x3000 + 8 + 8) (t.withMem (m.store (usedList 0x3000) (0x3000 + 8))) := by
    rw [kalloc, if_pos inited, heap]
    exact Prog.zoom_done taken
  exact ⟨t, _, _, by decide, run, called, by decide, by decide⟩

end Sos.Kernel
