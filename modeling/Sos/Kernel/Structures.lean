import Sos.Kernel.Process
import Sos.Kernel.SpaceWords

/-! Stores to structures in heap blocks, and the copy of a program to its frames. -/

namespace Sos.Kernel
open Sos.Lib Machine

theorem copyBytes_outside {n : Nat} {dest src x : UInt32} (m : Mem) (room : dest.toNat + n ≤ 4294967296)
    (outside : x.toNat < dest.toNat ∨ dest.toNat + n ≤ x.toNat) : copyBytes n dest src m x = m x := by
  induction n generalizing dest src m with
  | zero => rfl
  | succ n ih =>
    have differ : x ≠ dest := by
      rintro rfl
      omega
    cases n with
    | zero => exact if_neg differ
    | succ n =>
      have next : (dest + 1).toNat = dest.toNat + 1 := Bytes.toNat_succ (by omega)
      rw [copyBytes, ih _ (by omega) (by omega), if_neg differ]

/-- Downwards the source may lie partly under the destination. -/
theorem copyBytes_down {n : Nat} {dest src x y : UInt32} (m : Mem) (room : src.toNat + n ≤ 4294967296)
    (down : dest.toNat ≤ src.toNat) (lower : dest.toNat ≤ x.toNat) (upper : x.toNat < dest.toNat + n)
    (same : y.toNat + dest.toNat = x.toNat + src.toNat) : copyBytes n dest src m x = m y := by
  induction n generalizing dest src m with
  | zero => omega
  | succ n ih =>
    by_cases first : x = dest
    · subst first
      have at_ : y = src := UInt32.toNat_inj.mp (by omega)
      cases n with
      | zero => rw [copyBytes, copyBytes, if_pos rfl, at_]
      | succ n =>
        have next : (x + 1).toNat = x.toNat + 1 := Bytes.toNat_succ (by omega)
        rw [copyBytes, copyBytes_outside _ (by omega) (by omega), if_pos rfl, at_]
    · have differ : x.toNat ≠ dest.toNat := fun same => first (UInt32.toNat_inj.mp same)
      have dest_next : (dest + 1).toNat = dest.toNat + 1 := Bytes.toNat_succ (by omega)
      have src_next : (src + 1).toNat = src.toNat + 1 := Bytes.toNat_succ (by omega)
      have later : y ≠ dest := by
        rintro rfl
        omega
      rw [copyBytes, ih _ (by omega) (by omega) (by omega) (by omega) (by omega), if_neg later]

/-- The list of frames names frames out of `fs`, each by the address behind its own. -/
def Names (fs : List Nat) (as : AddrSpace) (m : Mem) (k : Nat) : Prop :=
  ∃ f, f ∈ fs ∧ m.load (as.frames + 4 * UInt32.ofNat k) = frameAddr f + 1

/-- No more than a frame is copied at once. -/
theorem chunk_le (copyLeft : UInt32) : (if copyLeft > frameLen then frameLen else copyLeft).toNat ≤ 4096 := by
  split
  · decide
  next short => exact UInt32.le_iff_toNat_le.mp (UInt32.not_lt.mp short)

/-- The program goes to the frames in the list and to the byte behind each. -/
theorem copyText_done (as : AddrSpace) (fs : List Nat) (s : Machine) (text : UInt32) (valid : as.frames ≠ 0)
    (small : ∀ f, f ∈ fs → f + 1 < 1048576) (word : Mem.Aligned as.frames) {left : Nat} {i : UInt32}
    (copyLeft : UInt32)
    (off : ∀ k, k < left → ∀ x : UInt32, (as.frames + 4 * (i + UInt32.ofNat k)).toNat ≤ x.toNat →
      x.toNat < (as.frames + 4 * (i + UInt32.ofNat k)).toNat + 4 → OffFrames fs 1 x)
    (names : ∀ k, k < left → ∃ f, f ∈ fs ∧
      s.mem.load (as.frames + 4 * (i + UInt32.ofNat k)) = frameAddr f + 1) :
    ∃ m', copyText as text left i copyLeft s = .done () (s.withMem m') ∧
      ∀ x, OffFrames fs 1 x → m' x = s.mem x := by
  induction left generalizing i copyLeft s with
  | zero => exact ⟨s.mem, rfl, fun _ _ => rfl⟩
  | succ left ih =>
    have here : i + UInt32.ofNat 0 = i := UInt32.add_zero i
    obtain ⟨f, member, entry⟩ := names 0 (by omega)
    rw [here] at entry
    have place := frameAddr_succ_toNat (small f member)
    have length := chunk_le copyLeft
    have kept : ∀ x, OffFrames fs 1 x →
        copyBytes (if copyLeft > frameLen then frameLen else copyLeft).toNat (frameAddr f + 1) text
          s.mem x = s.mem x := by
      intro x away
      have apart := away f member
      have short := small f member
      exact copyBytes_outside s.mem (by omega) (by omega)
    obtain ⟨m', run, rest⟩ := ih (i := i + 1) (copyLeft - frameLen)
      (s := s.withMem (copyBytes (if copyLeft > frameLen then frameLen else copyLeft).toNat
        (frameAddr f + 1) text s.mem))
      (by
        intro k inside
        rw [← index_shift]
        exact off (k + 1) (by omega))
      (by
        intro k inside
        rw [← index_shift]
        obtain ⟨g, memberG, entryG⟩ := names (k + 1) (by omega)
        refine ⟨g, memberG, ?_⟩
        rw [← entryG]
        refine Mem.load_congr (word.add (Mem.aligned_four _)).room ?_
        intro x lower upper
        exact kept x (off (k + 1) (by omega) x lower upper))
    refine ⟨m', ?_, fun x away => (rest x away).trans (kept x away)⟩
    rw [copyText, Prog.bind_done _ (fetch_done valid i), entry]
    exact run

/-- Stores to fields of the structure at `p`. -/
def fieldWrites (p : UInt32) (fields : List (UInt32 × UInt32)) : List (UInt32 × UInt32) :=
  fields.map fun field => (p + 4 * field.1, field.2)

def spaceFields (as : AddrSpace) : List (UInt32 × UInt32) :=
  [(0, as.pd), (1, as.numFrames), (2, as.frames), (3, as.numPts), (4, as.pts)]

theorem putAddrSpace_done {p : UInt32} (valid : p ≠ 0) (as : AddrSpace) (s : Machine) :
    putAddrSpace p as s = .done () (s.stored (fieldWrites p (spaceFields as))) := by
  rw [putAddrSpace, Prog.bind_done _ (assign_done valid _ _), Prog.bind_done _ (assign_done valid _ _),
    Prog.bind_done _ (assign_done valid _ _), Prog.bind_done _ (assign_done valid _ _),
    assign_done valid]
  rfl

theorem setFields_done {archInfo tss : UInt32} (valid : archInfo ≠ 0) (valid' : tss ≠ 0)
    (aligned : Mem.Aligned archInfo) (aligned' : Mem.Aligned tss) (fields : List (UInt32 × UInt32))
    (apart : ∀ field, field ∈ fields → archInfo + 4 * 0 ≠ tss + 4 * field.1) {s : Machine}
    (word : s.mem.load (archInfo + 4 * 0) = tss) :
    setFields archInfo fields s = .done () (s.stored (fieldWrites tss fields)) := by
  induction fields generalizing s with
  | nil => rfl
  | cons field fields ih =>
    have kept : (s.stored [(tss + 4 * field.1, field.2)]).mem.load (archInfo + 4 * 0) = tss :=
      (Mem.load_store_ne _ (aligned'.add (Mem.aligned_four _)) (aligned.add (by decide))
        (apart field List.mem_cons_self)).trans word
    rw [setFields, Prog.bind_done _ (fetch_done valid 0), word, Prog.bind_done _ (assign_done valid' _ _),
      ih (fun f member => apart f (List.mem_cons_of_mem field member)) kept, stored_append]
    rfl

/-- A word of a structure of `n` bytes. -/
theorem field_toNat {p i : UInt32} {n : Nat} (room : p.toNat + n ≤ 4294967296) (short : 4 * i.toNat + 4 ≤ n) :
    (p + 4 * i).toNat = p.toNat + 4 * i.toNat := by
  rw [UInt32.toNat_add, UInt32.toNat_mul]
  simp
  omega

theorem fieldWrites_aligned {p : UInt32} (aligned : Mem.Aligned p) (fields : List (UInt32 × UInt32)) :
    ∀ w, w ∈ fieldWrites p fields → Mem.Aligned w.1 := by
  intro w member
  obtain ⟨field, -, rfl⟩ := List.mem_map.mp member
  exact aligned.add (Mem.aligned_four _)

/-- A field has the value that is stored to it. -/
theorem load_fieldWrites {p : UInt32} {n : Nat} {fields : List (UInt32 × UInt32)} (aligned : Mem.Aligned p)
    (room : p.toNat + n ≤ 4294967296) (short : ∀ field, field ∈ fields → 4 * field.1.toNat + 4 ≤ n)
    (once : (fields.map Prod.fst).Nodup) (m : Mem) {i v : UInt32} (listed : (i, v) ∈ fields) :
    (m.storeAll (fieldWrites p fields)).load (p + 4 * i) = v := by
  refine Mem.load_storeAll_only m (aligned.add (Mem.aligned_four i)) (fieldWrites_aligned aligned fields)
    (List.mem_map.mpr ⟨_, listed, rfl⟩) ?_
  intro u member
  obtain ⟨field, listed', same⟩ := List.mem_map.mp member
  obtain ⟨place, rfl⟩ := Prod.mk.inj same
  have first := field_toNat room (short field listed')
  have second := field_toNat room (short (i, v) listed)
  have index : field.1 = i := by
    apply UInt32.toNat_inj.mp
    rw [place] at first
    change (p + 4 * i).toNat = p.toNat + 4 * i.toNat at second
    omega
  exact congrArg Prod.snd (List.inj_on_of_nodup_map once listed' listed index)

theorem fieldWrites_outside {p x : UInt32} {n : Nat} {fields : List (UInt32 × UInt32)} (aligned : Mem.Aligned p)
    (room : p.toNat + n ≤ 4294967296) (short : ∀ field, field ∈ fields → 4 * field.1.toNat + 4 ≤ n) (m : Mem)
    (outside : x.toNat < p.toNat ∨ p.toNat + n ≤ x.toNat) : m.storeAll (fieldWrites p fields) x = m x := by
  refine Mem.storeAll_outside m (fieldWrites_aligned aligned fields) ?_
  intro w member
  obtain ⟨field, listed, rfl⟩ := List.mem_map.mp member
  have place := field_toNat room (short field listed)
  have inside := short field listed
  change _ < (p + 4 * field.1).toNat ∨ (p + 4 * field.1).toNat + 4 ≤ _
  omega

theorem Layout.data_apart {R : Region} {l : List Slot} (layout : Layout R l) {b c : Slot} (hb : b ∈ l)
    (hc : c ∈ l) (differ : b ≠ c) {x : UInt32} (data : b.Has x) : ¬c.Has x := by
  have apart := layout.1.apart_of_ne hb hc differ
  unfold Slot.Has Slot.past at *
  unfold Slot.first at apart
  omega

/-- Fields of a structure that fits in block `b`. -/
structure Fits (R : Region) (l : List Slot) (b : Slot) (fields : List (UInt32 × UInt32)) : Prop where
  layout : Layout R l
  member : b ∈ l
  short : ∀ field, field ∈ fields → 4 * field.1.toNat + 4 ≤ b.len.toNat

namespace Fits
variable {R : Region} {l : List Slot} {b : Slot} {fields : List (UInt32 × UInt32)}
  (fits : Fits R l b fields)
include fits

theorem inside : ∀ w, w ∈ fieldWrites (b.addr + 8) fields →
    Mem.Aligned w.1 ∧ b.addr.toNat + 8 ≤ w.1.toNat ∧ w.1.toNat + 4 ≤ b.past := by
  intro w member
  obtain ⟨field, listed, rfl⟩ := List.mem_map.mp member
  have short := fits.short field listed
  have place := fits.layout.word_toNat fits.member short
  refine ⟨fits.layout.word_aligned fits.member _, ?_, ?_⟩
  · change _ ≤ (b.addr + 8 + 4 * field.1).toNat
    omega
  · change (b.addr + 8 + 4 * field.1).toNat + 4 ≤ b.addr.toNat + 8 + b.len.toNat
    omega

theorem off {x : UInt32} (away : ¬b.Has x) : ∀ w, w ∈ fieldWrites (b.addr + 8) fields →
    x.toNat < w.1.toNat ∨ w.1.toNat + 4 ≤ x.toNat := by
  intro w member
  obtain ⟨-, lower, upper⟩ := fits.inside w member
  unfold Slot.Has at away
  omega

theorem outside (m : Mem) {x : UInt32} (away : ¬b.Has x) :
    m.storeAll (fieldWrites (b.addr + 8) fields) x = m x :=
  Mem.storeAll_outside m (fun w member => (fits.inside w member).1) (fits.off away)

theorem load (m : Mem) (once : (fields.map Prod.fst).Nodup) {i v : UInt32} (listed : (i, v) ∈ fields) :
    (m.storeAll (fieldWrites (b.addr + 8) fields)).load (b.addr + 8 + 4 * i) = v := by
  have past := fits.layout.past_le fits.member
  have short := fits.short _ listed
  unfold Slot.past at past
  have start : (b.addr + 8).toNat = b.addr.toNat + 8 := by
    rw [UInt32.toNat_add]
    simp
    omega
  exact load_fieldWrites ((fits.layout.2 b fits.member).add (by decide)) (by omega) fits.short once m listed

end Fits

/-- Stores to the data of a block leave the heap. -/
theorem Hosts.stored {R : Region} {s : Machine} {h : Heap R} (hosts : Hosts s h) {b : Slot}
    {fields : List (UInt32 × UInt32)} (fits : Fits R (h.free ++ h.used) b fields) :
    Hosts (s.stored (fieldWrites (b.addr + 8) fields)) h := by
  refine hosts.congr rfl rfl ?_
  intro x lower upper data
  exact fits.outside s.mem (data b fits.member)

theorem Hosts.copied {R : Region} {s s₀ : Machine} {h : Heap R} (hosts : Hosts s h)
    (spared : Spared R s₀ 1) {m : Mem} (kept : ∀ x, OffFrames (freeList s₀) 1 x → m x = s.mem x) :
    Hosts (s.withMem m) h := by
  refine hosts.congr rfl rfl ?_
  intro x lower upper _
  exact kept x (spared.off lower upper)

/-- The bytes of a word of a block. -/
theorem Layout.word_has {R : Region} {l : List Slot} (layout : Layout R l) {b : Slot} (member : b ∈ l) {i : UInt32}
    (short : 4 * i.toNat + 4 ≤ b.len.toNat) {x : UInt32} (lower : (b.addr + 8 + 4 * i).toNat ≤ x.toNat)
    (upper : x.toNat < (b.addr + 8 + 4 * i).toNat + 4) : b.Has x := by
  have place := layout.word_toNat member short
  unfold Slot.Has Slot.past
  omega

/-- A word of a block whose bytes stay. -/
theorem Layout.word_kept {R : Region} {l : List Slot} (layout : Layout R l) {b : Slot} (member : b ∈ l) {i : UInt32}
    (short : 4 * i.toNat + 4 ≤ b.len.toNat) {m m' : Mem} (kept : ∀ x, b.Has x → m' x = m x) :
    m'.load (b.addr + 8 + 4 * i) = m.load (b.addr + 8 + 4 * i) :=
  Mem.load_congr (layout.word_aligned member i).room fun x lower upper =>
    kept x (layout.word_has member short lower upper)

end Sos.Kernel
