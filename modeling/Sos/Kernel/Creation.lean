import Sos.Kernel.Structures

/-! What `create_process` does when it returns successfully. -/

namespace Sos.Kernel
open Sos.Lib Machine

/-- The five blocks of a process: the lists of frames and of page tables, the
`addr_space_t`, the `proc_info_t` and the `tss_t`, asked for in this order. -/
structure Blocks {R : Region} (h : Heap R) (size : UInt32) (b c d e g : Slot) (h₂ h' : Heap R) : Prop where
  lists : ∃ h₁, h.request ((size / frameLen + 1) * 4) = some (b, h₁) ∧
    h₁.request (((size / frameLen + 1) / ptEntries + 1) * 4) = some (c, h₂)
  rest : ∃ h₃ h₄, h₂.request 20 = some (d, h₃) ∧ h₃.request 4 = some (e, h₄) ∧
    h₄.request tssSize = some (g, h')

namespace Blocks
variable {R : Region} {h h₂ h' : Heap R} {size : UInt32} {b c d e g : Slot}
  (blocks : Blocks h size b c d e g h₂ h')
include blocks

theorem used : h'.used = g :: e :: d :: c :: b :: h.used := by
  obtain ⟨h₁, first, second⟩ := blocks.lists
  obtain ⟨h₃, h₄, third, fourth, fifth⟩ := blocks.rest
  rw [(h₄.request_some fifth).used, (h₃.request_some fourth).used, (h₂.request_some third).used,
    (h₁.request_some second).used, (h.request_some first).used]

theorem slots : b ∈ h'.free ++ h'.used ∧ c ∈ h'.free ++ h'.used ∧ d ∈ h'.free ++ h'.used ∧
    e ∈ h'.free ++ h'.used ∧ g ∈ h'.free ++ h'.used := by
  rw [blocks.used]
  simp

theorem distinct : [g, e, d, c, b].Nodup ∧ ∀ y, y ∈ h.used → y ∉ [g, e, d, c, b] := by
  have once := (List.nodup_append.mp h'.layout.1.nodup).2.1
  rw [blocks.used, show g :: e :: d :: c :: b :: h.used = [g, e, d, c, b] ++ h.used from rfl] at once
  obtain ⟨new, -, apart⟩ := List.nodup_append.mp once
  exact ⟨new, fun y old member => apart y member y old rfl⟩

theorem lens : b.len.toNat = 4 * numFrames size ∧ c.len.toNat = 4 * numPts size ∧ d.len.toNat = 20 ∧
    e.len.toNat = 4 ∧ g.len.toNat = 104 := by
  obtain ⟨h₁, first, second⟩ := blocks.lists
  obtain ⟨h₃, h₄, third, fourth, fifth⟩ := blocks.rest
  have lenB := (h.request_some first).len
  have lenC := (h₁.request_some second).len
  rw [list_small] at lenB
  rw [pts_small] at lenC
  exact ⟨lenB, lenC, (h₂.request_some third).len, (h₃.request_some fourth).len, (h₄.request_some fifth).len⟩

theorem valid : d.addr + 8 ≠ 0 ∧ e.addr + 8 ≠ 0 ∧ g.addr + 8 ≠ 0 := by
  obtain ⟨h₃, h₄, third, fourth, fifth⟩ := blocks.rest
  exact ⟨(h₂.request_some third).valid, (h₃.request_some fourth).valid, (h₄.request_some fifth).valid⟩

end Blocks

/-- What `create_process` leaves, once the address space is made in `u`. -/
structure Created {R : Region} (s u : Machine) (h' : Heap R) (as : AddrSpace) (tLen : UInt32) (p : Process)
    (d e g : Slot) (q : Process) (t : Machine) : Prop where
  process : q = { p with addrSpace := d.addr + 8, archInfo := e.addr + 8 }
  machine : t = u.withMem t.mem
  hosts : Hosts t h'
  space : ∀ field, field ∈ spaceFields as → t.mem.load (d.addr + 8 + 4 * field.1) = field.2
  info : t.mem.load (e.addr + 8 + 4 * 0) = g.addr + 8
  task : ∀ field, field ∈ tssFields tLen u.schedStartProc as.pd → t.mem.load (g.addr + 8 + 4 * field.1) = field.2
  later : ∀ x, Plain R (h'.free ++ h'.used) (freeList s) 1 x → ¬d.Has x → ¬e.Has x →
    (∀ w, w ∈ fieldWrites (g.addr + 8) (tssFields tLen u.schedStartProc as.pd) →
      x.toNat < w.1.toNat ∨ w.1.toNat + 4 ≤ x.toNat) → t.mem x = u.mem x

section
variable {R : Region} {h₂ h₃ h₄ h' : Heap R} {fuel : Nat} {b d e g : Slot}

theorem Given.fits_tss (given : Given h₄ tssSize g h') (tLen eip pd : UInt32) :
    Fits R (h'.free ++ h'.used) g (tssFields tLen eip pd) := by
  refine ⟨h'.layout, given.slot, ?_⟩
  rw [given.len]
  simp [tssFields, tssSize]

/-- The last two blocks of a process. -/
theorem makeTss_fields {s : Machine} (steps : R.length.toNat / 8 < fuel) (hosts : Hosts s h₃)
    (fourth : h₃.request 4 = some (e, h₄)) (fifth : h₄.request tssSize = some (g, h')) (tLen pd : UInt32)
    (fs : List Nat) : ∃ m, makeTss fuel tLen pd s = .done (e.addr + 8) (s.withMem m) ∧
      Hosts (s.withMem m) h' ∧ m.load (e.addr + 8 + 4 * 0) = g.addr + 8 ∧
      (∀ field, field ∈ tssFields tLen s.schedStartProc pd → m.load (g.addr + 8 + 4 * field.1) = field.2) ∧
      ∀ x, Plain R (h'.free ++ h'.used) fs 1 x → ¬e.Has x →
        (∀ w, w ∈ fieldWrites (g.addr + 8) (tssFields tLen s.schedStartProc pd) →
          x.toNat < w.1.toNat ∨ w.1.toNat + 4 ≤ x.toNat) → m x = s.mem x := by
  have givenE := h₃.request_some fourth
  have givenG := h₄.request_some fifth
  have slotE : e ∈ h'.free ++ h'.used := by simp [givenG.used, givenE.used]
  have differ : e ≠ g := givenG.ne (by simp [givenE.used])
  obtain ⟨m₁, run₁, hosts₁, touches₁⟩ := hosts.request_done steps fourth
  obtain ⟨m₂, run₂, hosts₂, touches₂⟩ := hosts₁.request_done steps fifth
  have fitsE : Fits R (h'.free ++ h'.used) e [(0, g.addr + 8)] := by
    refine ⟨h'.layout, slotE, ?_⟩
    rw [givenE.len]
    simp
  have fitsG := givenG.fits_tss tLen s.schedStartProc pd
  have word : (m₂.storeAll (fieldWrites (e.addr + 8) [(0, g.addr + 8)])).load (e.addr + 8 + 4 * 0) =
      g.addr + 8 := fitsE.load m₂ (by simp) (by simp)
  have set := setFields_done givenE.valid givenG.valid ((h'.layout.2 e slotE).add (by decide))
    ((h'.layout.2 g givenG.slot).add (by decide)) (tssFields tLen s.schedStartProc pd)
    (fun field member => h'.layout.word_ne slotE givenG.slot differ (by rw [givenE.len]; simp)
      (fitsG.short field member))
    (s := (s.withMem m₂).stored (fieldWrites (e.addr + 8) [(0, g.addr + 8)])) word
  refine ⟨(m₂.storeAll (fieldWrites (e.addr + 8) [(0, g.addr + 8)])).storeAll
    (fieldWrites (g.addr + 8) (tssFields tLen s.schedStartProc pd)), ?_, ?_, ?_, ?_, ?_⟩
  · rw [makeTss, Prog.bind_done _ run₁, Prog.bind_done _ run₂,
      Prog.bind_done _ (assign_done givenE.valid _ _), Prog.get_bind_run]
    exact Prog.bind_done _ set
  · exact (hosts₂.stored fitsE).stored fitsG
  · refine (h'.layout.word_kept slotE (by rw [givenE.len]; simp) ?_).trans word
    intro x data
    exact fitsG.outside _ (h'.layout.data_apart slotE givenG.slot differ data)
  · rintro ⟨i, v⟩ member
    exact fitsG.load _ (by simp [tssFields]) member
  · intro x plain notE off
    rw [Mem.storeAll_outside _ (fun w member => (fitsG.inside w member).1) off,
      fitsE.outside _ notE, plain.touches touches₂]
    exact (plain.earlier givenG).touches touches₁

/-- The third block, and the program in its frames. -/
theorem placeText_frames {s u : Machine} {as : AddrSpace} {fs : List Nat} (sub : ∀ f, f ∈ fs → f ∈ freeList s)
    (steps : R.length.toNat / 8 < fuel) (spared : Spared R s 1) (hosts : Hosts u h₂)
    (third : h₂.request 20 = some (d, h₃)) (listed : b ∈ h₂.used) (frames : as.frames = b.addr + 8)
    (valid : as.frames ≠ 0) (long : 4 * as.numFrames.toNat ≤ b.len.toNat) (text tLen : UInt32)
    (names : ∀ k < as.numFrames.toNat, Names fs as u.mem k) : ∃ m₃ m,
      kalloc fuel 20 u = .done (d.addr + 8) (u.withMem m₃) ∧
      copyText as text as.numFrames.toNat 0 tLen
        ((u.withMem m₃).stored (fieldWrites (d.addr + 8) (spaceFields as))) = .done () (u.withMem m) ∧
      Hosts (u.withMem m) h₃ ∧
      (∀ field, field ∈ spaceFields as → m.load (d.addr + 8 + 4 * field.1) = field.2) ∧
      ∀ x, Plain R (h₃.free ++ h₃.used) fs 1 x → ¬d.Has x → m x = u.mem x := by
  have givenD := h₂.request_some third
  have slotB : b ∈ h₃.free ++ h₃.used := by simp [givenD.used, listed]
  have differ : b ≠ d := givenD.ne listed
  obtain ⟨m₃, run, hosts₃, touches⟩ := hosts.request_done steps third
  have fits : Fits R (h₃.free ++ h₃.used) d (spaceFields as) := by
    refine ⟨h₃.layout, givenD.slot, ?_⟩
    rw [givenD.len]
    simp [spaceFields]
  have short : ∀ k, k < as.numFrames.toNat → 4 * (0 + UInt32.ofNat k).toNat + 4 ≤ b.len.toNat := by
    intro k inside
    have bound := as.numFrames.toNat_lt
    rw [UInt32.zero_add, UInt32.toNat_ofNat']
    omega
  have kept : ∀ x, Plain R (h₃.free ++ h₃.used) fs 1 x → ¬d.Has x →
      m₃.storeAll (fieldWrites (d.addr + 8) (spaceFields as)) x = u.mem x := by
    intro x plain notD
    rw [fits.outside m₃ notD]
    exact plain.touches touches
  obtain ⟨m, copied, same⟩ := copyText_done as fs
    ((u.withMem m₃).stored (fieldWrites (d.addr + 8) (spaceFields as))) text valid
    (fun f listed => by
      have last := (mem_freeList (sub f listed)).1
      have count := spared.count
      omega)
    (by rw [frames]; exact (h₃.layout.2 b slotB).add (by decide)) tLen
    (by
      intro k inside x lower upper
      rw [frames] at lower upper
      have plain := spared.plain h₃.layout slotB (h₃.layout.word_has slotB (short k inside) lower upper)
      exact plain.frames.within sub)
    (by
      intro k inside
      obtain ⟨f, free, entry⟩ := names k inside
      rw [← UInt32.zero_add (UInt32.ofNat k)] at entry
      refine ⟨f, free, ?_⟩
      rw [← entry, frames]
      exact h₃.layout.word_kept slotB (short k inside) fun x data =>
        kept x ((spared.plain h₃.layout slotB data).within sub) (h₃.layout.data_apart slotB givenD.slot differ data))
  refine ⟨m₃, m, run, copied, (hosts₃.stored fits).copied spared fun x off => same x (off.within sub), ?_, ?_⟩
  · rintro ⟨i, v⟩ field
    refine Eq.trans ?_ (fits.load m₃ (by simp [spaceFields]) field)
    exact h₃.layout.word_kept givenD.slot (fits.short _ field) fun x data =>
      same x ((spared.plain h₃.layout givenD.slot data).frames.within sub)
  · intro x plain notD
    exact (same x plain.frames).trans (kept x plain notD)

theorem placeText_done {s u : Machine} {as : AddrSpace} (steps : R.length.toNat / 8 < fuel)
    (spared : Spared R s 1) (hosts : Hosts u h₂) (third : h₂.request 20 = some (d, h₃))
    (listed : b ∈ h₂.used) (frames : as.frames = b.addr + 8) (valid : as.frames ≠ 0)
    (long : 4 * as.numFrames.toNat ≤ b.len.toNat) (text tLen : UInt32)
    (names : ∀ k < as.numFrames.toNat, Names (freeList s) as u.mem k) : ∃ m₃ m,
      kalloc fuel 20 u = .done (d.addr + 8) (u.withMem m₃) ∧
      copyText as text as.numFrames.toNat 0 tLen
        ((u.withMem m₃).stored (fieldWrites (d.addr + 8) (spaceFields as))) = .done () (u.withMem m) ∧
      Hosts (u.withMem m) h₃ ∧
      (∀ field, field ∈ spaceFields as → m.load (d.addr + 8 + 4 * field.1) = field.2) ∧
      ∀ x, Plain R (h₃.free ++ h₃.used) (freeList s) 1 x → ¬d.Has x → m x = u.mem x :=
  placeText_frames (fun _ free => free) steps spared hosts third listed frames valid long text tLen names

/-- The names in the list are those of the frames `fs`, and only these are written. -/
theorem createProcess_frames {s u : Machine} {as : AddrSpace} {tLen : UInt32} {fs : List Nat}
    (sub : ∀ f, f ∈ fs → f ∈ freeList s) (p : Process) (text : UInt32)
    (steps : R.length.toNat / 8 < fuel) (spared : Spared R s 1)
    (run : ∀ unheld, allocAddrSpace unheld fuel (tLen + dataLen) s = .done (retSuccess, as) u)
    (hosts : Hosts u h₂) (third : h₂.request 20 = some (d, h₃)) (fourth : h₃.request 4 = some (e, h₄))
    (fifth : h₄.request tssSize = some (g, h')) (listed : b ∈ h₂.used) (frames : as.frames = b.addr + 8)
    (valid : as.frames ≠ 0) (long : 4 * as.numFrames.toNat ≤ b.len.toNat)
    (names : ∀ k < as.numFrames.toNat, Names fs as u.mem k) : ∃ q t,
      (∀ unheld, createProcess unheld fuel p text tLen s = .done (retSuccess, q) t) ∧
        Created s u h' as tLen p d e g q t ∧
        ∀ x, Plain R (h'.free ++ h'.used) fs 1 x → ¬d.Has x → ¬e.Has x →
          (∀ w, w ∈ fieldWrites (g.addr + 8) (tssFields tLen u.schedStartProc as.pd) →
            x.toNat < w.1.toNat ∨ w.1.toNat + 4 ≤ x.toNat) → t.mem x = u.mem x := by
  have givenD := h₂.request_some third
  have givenE := h₃.request_some fourth
  have givenG := h₄.request_some fifth
  have slotD : d ∈ h'.free ++ h'.used := by simp [givenG.used, givenE.used, givenD.used]
  have slotE : e ∈ h'.free ++ h'.used := by simp [givenG.used, givenE.used]
  have differE : d ≠ e := givenE.ne (by simp [givenD.used])
  have differG : d ≠ g := givenG.ne (by simp [givenE.used, givenD.used])
  obtain ⟨m₃, m₅, run₃, run₅, hosts₅, space, kept₅⟩ := placeText_frames sub steps spared hosts third
    listed frames valid long text tLen names
  obtain ⟨m, made, hosts', info, task, kept⟩ := makeTss_fields steps hosts₅ fourth fifth tLen as.pd fs
  have later : ∀ x, Plain R (h'.free ++ h'.used) fs 1 x → ¬d.Has x → ¬e.Has x →
      (∀ w, w ∈ fieldWrites (g.addr + 8) (tssFields tLen u.schedStartProc as.pd) →
        x.toNat < w.1.toNat ∨ w.1.toNat + 4 ≤ x.toNat) → m x = u.mem x := by
    intro x plain notD notE off
    rw [← kept₅ x ((plain.earlier givenG).earlier givenE) notD]
    exact kept x plain notE off
  have word : ∀ field, field ∈ spaceFields as → m.load (d.addr + 8 + 4 * field.1) = field.2 := by
    intro field member
    rw [← space field member]
    have short : 4 * field.1.toNat + 4 ≤ d.len.toNat := by
      rw [givenD.len]
      revert field
      simp [spaceFields]
    refine h'.layout.word_kept slotD short fun x data => ?_
    exact kept x ((spared.plain h'.layout slotD data).within sub) (h'.layout.data_apart slotD slotE differE data)
      ((givenG.fits_tss _ _ _).off (h'.layout.data_apart slotD givenG.slot differG data))
  refine ⟨{ p with addrSpace := d.addr + 8, archInfo := e.addr + 8 }, u.withMem m, ?_, ⟨rfl, rfl, hosts', word, info,
    task, fun x plain => later x (plain.within sub)⟩, later⟩
  intro unheld
  rw [createProcess, Prog.bind_done _ (run unheld)]
  simp only []
  rw [if_neg (by decide), Prog.bind_done _ run₃,
    Prog.bind_done _ (putAddrSpace_done givenD.valid as _), Prog.bind_done _ run₅,
    Prog.bind_done _ made]
  rfl

theorem createProcess_done {s u : Machine} {as : AddrSpace} {tLen : UInt32} (p : Process) (text : UInt32)
    (steps : R.length.toNat / 8 < fuel) (spared : Spared R s 1)
    (run : ∀ unheld, allocAddrSpace unheld fuel (tLen + dataLen) s = .done (retSuccess, as) u)
    (hosts : Hosts u h₂) (third : h₂.request 20 = some (d, h₃)) (fourth : h₃.request 4 = some (e, h₄))
    (fifth : h₄.request tssSize = some (g, h')) (listed : b ∈ h₂.used) (frames : as.frames = b.addr + 8)
    (valid : as.frames ≠ 0) (long : 4 * as.numFrames.toNat ≤ b.len.toNat)
    (names : ∀ k < as.numFrames.toNat, Names (freeList s) as u.mem k) : ∃ q t,
      (∀ unheld, createProcess unheld fuel p text tLen s = .done (retSuccess, q) t) ∧
        Created s u h' as tLen p d e g q t := by
  obtain ⟨q, t, run', created, -⟩ := createProcess_frames (fun _ free => free) p text steps spared run hosts third
    fourth fifth listed frames valid long names
  exact ⟨q, t, run', created⟩

end

theorem allocAddrSpace_result {unheld : Prog Machine Unit} {fuel : Nat} {size : UInt32} {r : Int}
    {as : AddrSpace} {s t : Machine} (run : allocAddrSpace unheld fuel size s = .done (r, as) t) :
    r = retSuccess ∨ r = retFailure := by
  unfold allocAddrSpace at run
  obtain ⟨_, _, -, run⟩ := Prog.of_bind_done run
  obtain ⟨_, _, -, run⟩ := Prog.of_bind_done run
  obtain ⟨⟨error, pd⟩, _, -, run⟩ := Prog.of_bind_done run
  cases error with
  | true =>
    simp only [if_true] at run
    obtain ⟨_, _, -, run⟩ := Prog.of_bind_done run
    obtain ⟨_, _, -, run⟩ := Prog.of_bind_done run
    cases run
    exact Or.inr rfl
  | false =>
    simp only [Bool.false_eq_true, if_false] at run
    obtain ⟨_, _, -, run⟩ := Prog.of_bind_done run
    obtain ⟨made, _, -, run⟩ := Prog.of_bind_done run
    cases made with
    | true =>
      simp only [if_true] at run
      obtain ⟨_, _, -, run⟩ := Prog.of_bind_done run
      cases run
      exact Or.inl rfl
    | false =>
      cases run
      exact Or.inr rfl

theorem putAddrSpace_null (as : AddrSpace) (s : Machine) : putAddrSpace 0 as s = .fault := rfl

section
variable {R : Region} {s u : Machine} {h h₂ h₃ : Heap R} {fuel : Nat}

/-- Without room for one of the last two blocks the routine does not go on. -/
theorem makeTss_requests (steps : R.length.toNat / 8 < fuel) (hosts : Hosts u h₃) {tLen pd archInfo : UInt32}
    {t : Machine} (run : makeTss fuel tLen pd u = .done archInfo t) : ∃ e h₄ g h',
      h₃.request 4 = some (e, h₄) ∧ h₄.request tssSize = some (g, h') := by
  rcases hosts.request steps 4 (by decide) with ⟨-, run₁⟩ | ⟨e, h₄, m₁, some₁, run₁, hosts₁, -⟩
  · rw [makeTss, Prog.bind_done _ run₁] at run
    obtain ⟨tss, _, -, run⟩ := Prog.of_bind_done run
    obtain ⟨_, _, null, -⟩ := Prog.of_bind_done run
    cases null
  · rcases hosts₁.request steps tssSize (by decide) with ⟨-, run₂⟩ | ⟨g, h', m₂, some₂, -, -, -⟩
    · have valid := (h₃.request_some some₁).valid
      rw [makeTss, Prog.bind_done _ run₁, Prog.bind_done _ run₂,
        Prog.bind_done _ (assign_done valid _ _), Prog.get_bind_run] at run
      obtain ⟨_, _, set, -⟩ := Prog.of_bind_done run
      have word : ((u.withMem m₁).stored [(e.addr + 8 + 4 * 0, 0)]).mem.load (e.addr + 8 + 4 * 0) = 0 :=
        Mem.load_store_same _ _ _
      rw [tssFields, setFields, Prog.bind_done _ (fetch_done valid 0), word] at set
      cases set
    · exact ⟨e, h₄, g, h', some₁, some₂⟩

/-- The list of frames is a block, and names free frames; the entries that no page table
has a place for are those the block held before. -/
theorem Built.names {as : AddrSpace} {size : UInt32} {b c : Slot} {m : Mem} {pd : Nat} {fs : List Nat}
    {behind : Nat} (built : Built s h size as u b c h₂ m pd fs) (spared : Spared R s behind)
    (fits : 4 * numPts size ≤ 3072 + behind)
    (late : ∀ k, 1024 ≤ k → k < numFrames size → Names (freeList s) as s.mem k) :
    as.frames = b.addr + 8 ∧ as.frames ≠ 0 ∧ as.numFrames.toNat = numFrames size ∧ b ∈ h₂.used ∧
      4 * as.numFrames.toNat ≤ b.len.toNat ∧ ∀ k < as.numFrames.toNat, Names (freeList s) as u.mem k := by
  obtain ⟨h₁, first, second⟩ := built.lists
  have givenB := h.request_some first
  have givenC := h₁.request_some second
  have frames : as.frames = b.addr + 8 := by rw [built.space]
  have count : as.numFrames.toNat = numFrames size := by
    rw [built.space]
    exact numFrames_toNat _
  refine ⟨frames, by rw [frames]; exact givenB.valid, count, by simp [givenC.used, givenB.used],
    by rw [count, givenB.len, list_small], ?_⟩
  intro k inside
  rw [count] at inside
  by_cases early : k < 1024
  · obtain ⟨i, within, -, entry⟩ := built.listed_word spared fits early inside
    exact ⟨_, built.pageFrame_mem within, entry⟩
  · obtain ⟨f, free, entry⟩ := late k (by omega) inside
    exact ⟨f, free, (built.late_word spared fits (by omega) inside).trans entry⟩

/-- A process is made where there are frames and blocks for it. -/
theorem createProcess_room (p : Process) (text : UInt32) {tLen : UInt32} {b c d e g : Slot} {h' : Heap R} {pd : Nat}
    {fs : List Nat} {behind : Nat} (hosts : Hosts s h) (steps : R.length.toNat / 8 < fuel)
    (spared : Spared R s behind) (far : 1 ≤ behind) (fits : 4 * numPts (tLen + dataLen) ≤ 3072 + behind)
    (list : freeList s = pd :: fs)
    (enough : demand (numPts (tLen + dataLen)) (numFrames (tLen + dataLen)) ≤ fs.length)
    (blocks : Blocks h (tLen + dataLen) b c d e g h₂ h')
    (late : ∀ k, 1024 ≤ k → k < numFrames (tLen + dataLen) →
      ∃ f, f ∈ freeList s ∧ s.mem.load (b.addr + 8 + 4 * UInt32.ofNat k) = frameAddr f + 1) :
    ∃ as u m q t, Built s h (tLen + dataLen) as u b c h₂ m pd fs ∧ Created s u h' as tLen p d e g q t ∧
      ∀ unheld, createProcess unheld fuel p text tLen s = .done (retSuccess, q) t := by
  obtain ⟨h₁, first, second⟩ := blocks.lists
  obtain ⟨h₃, h₄, third, fourth, fifth⟩ := blocks.rest
  obtain ⟨as, u, m, run, built⟩ := allocAddrSpace_done hosts steps spared.weaken list enough first second
  obtain ⟨frames, valid, -, listed, long, names⟩ := built.names spared fits (by
    intro k past inside
    obtain ⟨f, free, entry⟩ := late k past inside
    exact ⟨f, free, by rw [built.space]; exact entry⟩)
  obtain ⟨q, t, run', created⟩ := createProcess_done p text steps (spared.le far) run
    (built.hosts_after spared fits) third fourth fifth listed frames valid long names
  exact ⟨as, u, m, q, t, built, created, run'⟩

/-- A routine that returned successfully had its five blocks and its frames, and nothing
was freed on the way. -/
theorem createProcess_created {unheld : Prog Machine Unit} {p q : Process} {text tLen : UInt32} {t : Machine}
    (hosts : Hosts s h) (steps : R.length.toNat / 8 < fuel) (spared : Spared R s 1)
    (few : numFrames (tLen + dataLen) < 1024)
    (run : createProcess unheld fuel p text tLen s = .done (retSuccess, q) t) :
    ∃ as u b c d e g h₂ h' m pd fs, Built s h (tLen + dataLen) as u b c h₂ m pd fs ∧
      Blocks h (tLen + dataLen) b c d e g h₂ h' ∧ Created s u h' as tLen p d e g q t ∧
      ∀ unheld, createProcess unheld fuel p text tLen s = .done (retSuccess, q) t := by
  have one := numPts_eq (tLen + dataLen)
  have whole := run
  rw [createProcess] at run
  obtain ⟨⟨r, as⟩, u, made, run⟩ := Prog.of_bind_done run
  simp only [] at run
  by_cases failed : r = retFailure
  · rw [if_pos failed] at run
    cases run
  · rw [if_neg failed] at run
    obtain rfl := (allocAddrSpace_result made).resolve_right failed
    obtain ⟨b, c, h₂, m, pd, fs, built⟩ := allocAddrSpace_built hosts steps spared.weaken made
    obtain ⟨h₁, first, second⟩ := built.lists
    have hosts₂ := built.hosts_after spared (by omega)
    obtain ⟨frames, valid, -, listed, long, names⟩ := built.names spared (by omega) fun k _ _ => by omega
    rcases hosts₂.request steps 20 (by decide) with
      ⟨-, run₃⟩ | ⟨d, h₃, m₃, third, run₃, hosts₃, -⟩
    · rw [Prog.bind_done _ run₃] at run
      obtain ⟨_, _, null, -⟩ := Prog.of_bind_done run
      rw [putAddrSpace_null] at null
      cases null
    · have givenD := h₂.request_some third
      obtain ⟨m₃', m₅, run₃', run₅, hosts₅, -, -⟩ := placeText_done steps spared hosts₂ third listed frames
        valid long text tLen names
      rw [Prog.bind_done _ run₃', Prog.bind_done _ (putAddrSpace_done givenD.valid as _),
        Prog.bind_done _ run₅] at run
      obtain ⟨archInfo, _, tss, -⟩ := Prog.of_bind_done run
      obtain ⟨e, h₄, g, h', fourth, fifth⟩ := makeTss_requests steps hosts₅ tss
      have blocks : Blocks h (tLen + dataLen) b c d e g h₂ h' :=
        ⟨⟨h₁, first, second⟩, h₃, h₄, third, fourth, fifth⟩
      obtain ⟨as', u', m', q', t', built', created, run'⟩ := createProcess_room p text hosts steps
        spared (le_refl 1) (by omega) built.list built.enough blocks fun k _ _ => by omega
      have same := whole.symm.trans (run' unheld)
      rw [Outcome.done.injEq, Prod.mk.injEq] at same
      obtain ⟨⟨-, rfl⟩, rfl⟩ := same
      exact ⟨as', u', b, c, d, e, g, h₂, h', m', pd, fs, built', blocks, created, run'⟩

end

end Sos.Kernel
