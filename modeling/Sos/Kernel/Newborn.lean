import Sos.Kernel.Loading
import Sos.Kernel.Spawn

/-! The page tables of a new process, and whose memory is left alone when its program is copied. -/

namespace Sos.Kernel
open Sos.Lib Machine

/-- Byte `o` of page `k` of a process. -/
def pageByte (k o : Nat) : UInt32 := memspaceUserMem + UInt32.ofNat (4096 * k + o)

def InFrame (f : Nat) (x : UInt32) : Prop := 4096 * f ≤ x.toNat ∧ x.toNat < 4096 * f + 4096

theorem pageByte_offset {k o : Nat} (few : k < 1024) (short : o < 4096) : pageByte k o &&& 0xFFF = UInt32.ofNat o := by
  have place := user_address (k := k) (o := o) (by omega) short
  apply UInt32.toNat_inj.mp
  rw [UInt32.toNat_and, show (0xFFF : UInt32).toNat = 2 ^ 12 - 1 by decide, Nat.and_two_pow_sub_one_eq_mod,
    UInt32.toNat_ofNat', pageByte, place]
  omega

theorem frameByte_toNat {f o : Nat} (small : f < 1048576) (short : o < 4096) :
    (frameAddr f + UInt32.ofNat o).toNat = 4096 * f + o := by
  rw [UInt32.toNat_add, frameAddr_toNat small, UInt32.toNat_ofNat']
  omega

/-- The directory has the table, and the table the pages. -/
structure Mapped (m : Mem) (r : Owned) : Prop where
  entry : m.load (frameAddr r.dir + 4 * 256) = frameToPdeUser (frameAddr r.table)
  words : ∀ k f, r.pages[k]? = some f →
    m.load (frameAddr r.table + 4 * UInt32.ofNat k) = frameToPteUser (frameAddr f + 1)

namespace Mapped
variable {m m' : Mem} {r : Owned}

theorem walk (mapped : Mapped m r) (table : r.table < 1048576) {k o f : Nat} (listed : r.pages[k]? = some f)
    (few : k < 1024) (small : f < 1048576) (short : o < 4096) :
    pageWalk m (frameAddr r.dir) (pageByte k o) = some ⟨frameAddr f, true, true⟩ := by
  have place := user_address (k := k) (o := o) (by omega) short
  obtain ⟨first, second⟩ := user_indices (i := 0) few short (place.trans (by omega))
  refine pageWalk_mapped table small ?_ ?_
  · rw [pageByte, first]
    exact mapped.entry
  · rw [pageByte, second]
    exact mapped.words k f listed

/-- The words are in two frames. -/
theorem congr (mapped : Mapped m r) (few : r.pages.length ≤ 1024) (dir : r.dir < 1048576) (table : r.table < 1048576)
    (kept : ∀ f, f = r.dir ∨ f = r.table → ∀ x, InFrame f x → m' x = m x) : Mapped m' r := by
  have word : ∀ f, f < 1048576 → (f = r.dir ∨ f = r.table) → ∀ k : UInt32, k.toNat < 1024 →
      m'.load (frameAddr f + 4 * k) = m.load (frameAddr f + 4 * k) := by
    intro f small mine k inside
    have place := frameWord_toNat small inside
    refine Mem.load_congr (by omega) fun x lower upper => kept f mine x ⟨by omega, by omega⟩
  refine ⟨(word _ dir (Or.inl rfl) 256 (by decide)).trans mapped.entry, fun k f listed => ?_⟩
  have inside := (List.getElem?_eq_some_iff.mp listed).1
  rw [word _ table (Or.inr rfl) _ (by rw [UInt32.toNat_ofNat']; omega)]
  exact mapped.words k f listed

end Mapped

/-- What is left of the memory in `s` when a process has been made in `t`: all but the heap, the frames that
were free, and a byte behind each new page. -/
structure Laid {R : Region} (s t : Machine) (r : Owned) : Prop where
  mapped : Mapped t.mem r
  directory : t.mem.load (r.tss.addr + 8 + 4 * 7) = frameAddr r.dir
  others : ∀ x : UInt32, (x.toNat < R.base.toNat ∨ R.hi ≤ x.toNat) → OffFrames (freeList s) 0 x →
    OffFrames r.pages 1 x → t.mem x = s.mem x

section
variable {R : Region} {s u t : Machine} {h h₂ h' : Heap R} {as : AddrSpace} {tLen : UInt32} {b c d e g : Slot}
  {m : Mem} {pd : Nat} {fs : List Nat} (built : Built s h (tLen + dataLen) as u b c h₂ m pd fs)
include built

/-- The pages come behind the directory and the table. -/
theorem Built.newborn_sorted (few : numFrames (tLen + dataLen) < 1024) {f : Nat}
    (page : f ∈ (newborn (tLen + dataLen) pd fs b c d e g).pages) : pd < f ∧ tableFrame fs 0 < f := by
  have sorted := freeList_sorted s
  obtain ⟨f₀, gs, rfl, -, table, -⟩ := built.one_table few
  rw [built.list, List.pairwise_cons, List.pairwise_cons] at sorted
  have listed : f ∈ gs := List.mem_of_mem_take page
  rw [table]
  exact ⟨sorted.1 f (List.mem_cons_of_mem _ listed), sorted.2.1 f listed⟩

theorem Built.newborn_page (few : numFrames (tLen + dataLen) < 1024) {k f : Nat}
    (listed : (newborn (tLen + dataLen) pd fs b c d e g).pages[k]? = some f) :
    k < numFrames (tLen + dataLen) ∧ f = pageFrame fs k := by
  obtain ⟨f₀, gs, rfl, -, -, pages⟩ := built.one_table few
  change (gs.take _)[k]? = some f at listed
  rw [List.getElem?_take] at listed
  split at listed
  next inside =>
    rw [pages k inside, Option.some.injEq] at listed
    exact ⟨inside, listed.symm⟩
  next => cases listed

omit built in
theorem newborn_few (few : numFrames (tLen + dataLen) < 1024) :
    (newborn (tLen + dataLen) pd fs b c d e g).pages.length ≤ 1024 := by
  have short : (fs.tail.take (numFrames (tLen + dataLen))).length ≤ _ := List.length_take_le _ _
  exact short.trans few.le

theorem Built.newborn_mem (few : numFrames (tLen + dataLen) < 1024) {k : Nat}
    (inside : k < numFrames (tLen + dataLen)) :
    pageFrame fs k ∈ (newborn (tLen + dataLen) pd fs b c d e g).pages := by
  obtain ⟨f₀, gs, rfl, -, -, pages⟩ := built.one_table few
  refine List.mem_of_getElem? (i := k) ?_
  change (gs.take _)[k]? = _
  rw [List.getElem?_take, if_pos inside, pages k inside]

theorem Built.newborn_mapped (spared : Spared R s 1) (few : numFrames (tLen + dataLen) < 1024) :
    Mapped u.mem (newborn (tLen + dataLen) pd fs b c d e g) := by
  have one := numPts_eq (tLen + dataLen)
  refine ⟨?_, fun k f listed => ?_⟩
  · have entry := built.user_word spared (e := 256) (by omega) (by omega)
    rw [if_pos (by omega), built.space] at entry
    exact entry
  · obtain ⟨inside, rfl⟩ := built.newborn_page few listed
    rcases built.table_word spared (i := 0) (j := k) (by omega) (by omega) with ⟨-, word⟩ | ⟨i, inside', past, -⟩ | ⟨past, -⟩
    · rw [Nat.mul_zero, Nat.zero_add] at word
      exact word
    · omega
    · omega

end

theorem frame_outside {R : Region} {s : Machine} {behind f : Nat} (spared : Spared R s behind) (free : f ∈ freeList s)
    {x : UInt32} (inside : InFrame f x) : x.toNat < R.base.toNat ∨ R.hi ≤ x.toNat := by
  have apart := spared.apart f free
  obtain ⟨lower, upper⟩ := inside
  omega

/-- Outside the heap a byte is none of its own. -/
theorem outside_plain {R : Region} {l : List Slot} (layout : Layout R l) {fs : List Nat} {behind : Nat} {x : UInt32}
    (outside : x.toNat < R.base.toNat ∨ R.hi ≤ x.toNat) (off : OffFrames fs behind x) : Plain R l fs behind x := by
  have enough := R.enough
  refine ⟨?_, fun b member => ?_, off⟩
  · unfold Region.lo Region.hi at *
    omega
  · have lower := layout.addr_bounds member
    have upper := layout.1.upper b member
    unfold Slot.past at upper
    omega

theorem outside_block {R : Region} {l : List Slot} (layout : Layout R l) {b : Slot} (member : b ∈ l) {x : UInt32}
    (outside : x.toNat < R.base.toNat ∨ R.hi ≤ x.toNat) : ¬b.Has x := by
  have lower := layout.addr_bounds member
  have upper := layout.1.upper b member
  unfold Slot.Has
  omega

/-- Outside the heap `create_process` writes to the frames it takes, and to the first byte behind each page. -/
theorem createProcess_laid {R : Region} {s t : Machine} {h : Heap R} {fuel : Nat} {p q : Process} {text tLen : UInt32}
    (hosts : Hosts s h) (steps : R.length.toNat / 8 < fuel) (spared : Spared R s 1)
    (few : numFrames (tLen + dataLen) < 1024)
    (run : createProcess goOn fuel p text tLen s = .done (retSuccess, q) t) :
    ∃ as u b c d e g h₂ h' m pd fs, Built s h (tLen + dataLen) as u b c h₂ m pd fs ∧
      Blocks h (tLen + dataLen) b c d e g h₂ h' ∧ Created s u h' as tLen p d e g q t ∧
      Laid (R := R) s t (newborn (tLen + dataLen) pd fs b c d e g) := by
  have one := numPts_eq (tLen + dataLen)
  obtain ⟨as₀, u₀, b, c, d, e, g, h₂, h', m₀, pd, fs, built₀, blocks, -, -⟩ :=
    createProcess_created hosts steps spared few run
  obtain ⟨h₁, first, second⟩ := blocks.lists
  obtain ⟨h₃, h₄, third, fourth, fifth⟩ := blocks.rest
  obtain ⟨as, u, m, alloc, built⟩ := allocAddrSpace_done hosts steps spared.weaken built₀.list built₀.enough first second
  obtain ⟨frames, valid, count, listed, long, -⟩ := built.names spared (by omega) fun k late inside => by omega
  have free : ∀ f, f ∈ (newborn (tLen + dataLen) pd fs b c d e g).pages → f ∈ freeList s :=
    fun f page => built.newborn_free few (List.mem_append_left _ (List.mem_append_left _ page))
  obtain ⟨q', t', made, created, kept⟩ := createProcess_frames free p text steps spared alloc (built.hosts_after spared (by omega)) third fourth fifth listed frames valid long (by
      intro k inside
      rw [count] at inside
      obtain ⟨i, within, -, entry⟩ := built.listed_word spared (by omega) (j := k) (by omega) inside
      exact ⟨_, built.newborn_mem few within, entry⟩)
  have same := run.symm.trans (made goOn)
  rw [Outcome.done.injEq, Prod.mk.injEq] at same
  obtain ⟨⟨-, rfl⟩, rfl⟩ := same
  obtain ⟨slotB, slotC, slotD, slotE, slotG⟩ := blocks.slots
  have givenG := h₄.request_some fifth
  have copied : ∀ x : UInt32, (x.toNat < R.base.toNat ∨ R.hi ≤ x.toNat) →
      OffFrames (newborn (tLen + dataLen) pd fs b c d e g).pages 1 x → t.mem x = u.mem x := by
    intro x outside off
    refine kept x (outside_plain h'.layout outside off) (outside_block h'.layout slotD outside)
      (outside_block h'.layout slotE outside) ?_
    exact (givenG.fits_tss _ _ _).off (outside_block h'.layout slotG outside)
  have directory : pd ∈ freeList s := built.pd_mem
  have table : tableFrame fs 0 ∈ freeList s := built.tableFrame_mem (by omega)
  refine ⟨as, u, b, c, d, e, g, h₂, h', m, pd, fs, built, blocks, created, ?_, ?_, ?_⟩
  · refine (built.newborn_mapped spared few).congr (newborn_few few) (spared.small directory)
      (spared.small table) ?_
    intro f mine x inside
    have free : f ∈ freeList s := by
      rcases mine with same | same
      · exact same ▸ directory
      · exact same ▸ table
    refine copied x (frame_outside spared free inside) fun page member => Or.inl ?_
    have above := built.newborn_sorted few member
    obtain ⟨-, upper⟩ := inside
    rcases mine with same | same
    · have same : f = pd := same
      omega
    · have same : f = tableFrame fs 0 := same
      omega
  · have word := created.task (7, as.pd) (by simp [tssFields])
    rw [built.space] at word
    exact word
  · intro x outside off behind
    rw [copied x outside behind]
    refine built.byte_kept spared.weaken (by omega) (outside_plain h₂.layout outside off) ?_ ?_
    · exact outside_block h₂.layout built.slots.1 outside
    · exact outside_block h₂.layout built.slots.2.1 outside

end Sos.Kernel
