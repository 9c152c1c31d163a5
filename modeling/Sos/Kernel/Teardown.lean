import Sos.Kernel.Creation

/-! What a process owns, and how `free_addr_space` and `destroy_process` give it back. -/

namespace Sos.Kernel
open Sos.Lib Machine

/-- The frames and the heap blocks of a process with one page table. -/
structure Owned where
  dir : Nat
  table : Nat
  pages : List Nat
  list : Slot
  links : Slot
  space : Slot
  info : Slot
  tss : Slot

namespace Owned

/-- In the order in which they are freed. -/
def frames (r : Owned) : List Nat := r.pages ++ [r.table] ++ [r.dir]

/-- The latest first. -/
def blocks (r : Owned) : List Slot := [r.tss, r.info, r.space, r.links, r.list]

/-- The `addr_space_t`. -/
def addrSpace (r : Owned) : AddrSpace :=
  ⟨frameAddr r.dir, UInt32.ofNat r.pages.length, r.list.addr + 8, 1, r.links.addr + 8⟩

end Owned

/-- The entry of a process leads to what it owns. -/
structure Records (s : Machine) (p : Process) (r : Owned) : Prop where
  addrSpace : p.addrSpace = r.space.addr + 8
  archInfo : p.archInfo = r.info.addr + 8
  fields : ∀ field, field ∈ spaceFields r.addrSpace →
    s.mem.load (r.space.addr + 8 + 4 * field.1) = field.2
  pages : ∀ i f, r.pages[i]? = some f →
    s.mem.load (r.list.addr + 8 + 4 * UInt32.ofNat i) = frameAddr f + 1
  link : s.mem.load (r.links.addr + 8 + 4 * 0) = frameAddr r.table
  tss : s.mem.load (r.info.addr + 8 + 4 * 0) = r.tss.addr + 8
  few : r.pages.length < 1024
  lens : 4 * r.pages.length ≤ r.list.len.toNat ∧ 4 ≤ r.links.len.toNat ∧ 20 ≤ r.space.len.toNat ∧
    4 ≤ r.info.len.toNat
  valid : ∀ b, b ∈ r.blocks → b.addr + 8 ≠ 0

/-- The list has the address of a frame, or the one behind it. -/
theorem frame_of_addr {f : Nat} (small : f < 1048576) :
    frameAddr f / frameLen = UInt32.ofNat f ∧ (frameAddr f + 1) / frameLen = UInt32.ofNat f := by
  have place := frameAddr_toNat small
  constructor
  · apply UInt32.toNat_inj.mp
    rw [UInt32.toNat_div, place, UInt32.toNat_ofNat', show frameLen.toNat = 4096 by decide]
    omega
  · apply UInt32.toNat_inj.mp
    rw [UInt32.toNat_div, UInt32.toNat_add, place, UInt32.toNat_ofNat', show frameLen.toNat = 4096 by decide]
    simp
    omega

theorem freeFrames_done (unheld : Prog Machine Unit) {list : UInt32} (valid : list ≠ 0) (fs : List Nat)
    {j : UInt32} {s : Machine} (once : fs.Nodup) (held : ∀ f, f ∈ fs → HeldFrame s f)
    (listed : ∀ i f, fs[i]? = some f →
      s.mem.load (list + 4 * (j + UInt32.ofNat i)) / frameLen = UInt32.ofNat f) :
    freeFrames unheld list fs.length j s = .done () (s.dropped fs) := by
  induction fs generalizing j s with
  | nil => rw [dropped_nil]; rfl
  | cons f fs ih =>
    obtain ⟨fresh, once⟩ := List.nodup_cons.mp once
    have first := listed 0 f rfl
    rw [show j + UInt32.ofNat 0 = j from UInt32.add_zero j] at first
    have rest := ih (j := j + 1) (s := s.dropped [f]) once
      (fun g member => (held g (List.mem_cons_of_mem f member)).dropped (by
        rw [List.mem_singleton]
        rintro rfl
        exact fresh member))
      (by
        intro i g at_
        rw [← index_shift]
        exact listed (i + 1) g at_)
    rw [dropped_dropped (by simpa using fresh)] at rest
    rw [List.length_cons, freeFrames, Prog.bind_done _ (fetch_done valid j), first,
      Prog.bind_done _ (memmanFreeFrame_done (held f List.mem_cons_self) unheld)]
    exact rest

/-- A used block is given back, and the data of the others stays. -/
theorem Hosts.kfree_used {R : Region} {s : Machine} {h : Heap R} (hosts : Hosts s h) {fuel : Nat}
    (steps : R.length.toNat / 8 < fuel) {b : Slot} (member : b ∈ h.used) : ∃ (h' : Heap R) (m : Mem),
      (∀ unheld, kfree unheld fuel (b.addr + 8) s = .done () (s.withMem m)) ∧ Hosts (s.withMem m) h' ∧
      h.used.Perm (b :: h'.used) ∧ ∀ c, c ∈ h.used → ∀ x, c.Has x → m x = s.mem x := by
  rcases h.release_cases b.addr with ⟨-, missing⟩ | ⟨pre, c, post, h'', split, -, same, some, -, used⟩
  · exact absurd rfl (missing b member)
  · have inside : c ∈ h.used := by simp [split]
    obtain rfl : c = b := h.layout.eq_of_addr (List.mem_append_right h.free inside)
      (List.mem_append_right h.free member) same
    rcases hosts.kfree_done steps (c.addr + 8) with ⟨none, -⟩ | ⟨h', m, result, run, hosts', touches⟩
    · rw [pointer_sub, some] at none
      cases none
    · rw [pointer_sub, some, Option.some.injEq] at result
      subst result
      refine ⟨h'', m, run, hosts', ?_, ?_⟩
      · rw [split, used]
        exact List.perm_middle
      · intro d used' x data
        exact touches.data h.layout (List.mem_append_right h.free used') data

/-- Outside the heap's region `kfree` changes nothing. -/
theorem Hosts.kfree_outside {R : Region} {s t : Machine} {h : Heap R} (hosts : Hosts s h) {fuel : Nat}
    (steps : R.length.toNat / 8 < fuel) {slot : UInt32} (run : kfree goOn fuel slot s = .done () t) {x : UInt32}
    (outside : x.toNat < R.base.toNat ∨ R.hi ≤ x.toNat) : t.mem x = s.mem x := by
  rcases hosts.kfree_done steps slot with ⟨-, missed⟩ | ⟨h', m, -, freed, -, touches⟩
  · rw [missed goOn] at run
    cases run
    rfl
  · rw [freed goOn] at run
    cases run
    exact touches.outside h.layout outside

/-- The `addr_space_t` at `a`, kept where the heap does not write. -/
structure Keeps {R : Region} (s : Machine) (h : Heap R) (a : UInt32) (as : AddrSpace) : Prop where
  valid : a ≠ 0
  aligned : Mem.Aligned a
  room : a.toNat + 20 ≤ 4294967296
  place : ∀ x : UInt32, a.toNat ≤ x.toNat → x.toNat < a.toNat + 20 →
    (x.toNat < R.base.toNat ∨ R.hi ≤ x.toNat) ∨ ∃ d, d ∈ h.used ∧ d.Has x
  fields : ∀ field, field ∈ spaceFields as → s.mem.load (a + 4 * field.1) = field.2

theorem spaceFields_short (as : AddrSpace) : ∀ field, field ∈ spaceFields as → 4 * field.1.toNat + 4 ≤ 20 := by
  simp [spaceFields]

/-- The words of the `addr_space_t`, also when the memory has changed elsewhere. -/
theorem Keeps.words {R : Region} {s : Machine} {h : Heap R} {a : UInt32} {as : AddrSpace} (keeps : Keeps s h a as)
    {u : Machine} (kept : ∀ x : UInt32, a.toNat ≤ x.toNat → x.toNat < a.toNat + 20 → u.mem x = s.mem x) :
    fetch a 0 u = .done as.pd u ∧ fetch a 1 u = .done as.numFrames u ∧ fetch a 2 u = .done as.frames u ∧
      fetch a 3 u = .done as.numPts u ∧ fetch a 4 u = .done as.pts u := by
  have field : ∀ i v, (i, v) ∈ spaceFields as → fetch a i u = .done v u := by
    intro i v listed
    have short : 4 * i.toNat + 4 ≤ 20 := spaceFields_short as _ listed
    have place := field_toNat keeps.room short
    rw [fetch_done keeps.valid]
    congr 1
    refine Eq.trans ?_ (keeps.fields _ listed)
    refine Mem.load_congr (keeps.aligned.add (Mem.aligned_four i)).room fun x lower upper => ?_
    exact kept x (by omega) (by omega)
  exact ⟨field _ _ (by simp [spaceFields]), field _ _ (by simp [spaceFields]), field _ _ (by simp [spaceFields]),
    field _ _ (by simp [spaceFields]), field _ _ (by simp [spaceFields])⟩

/-- What an `addr_space_t` leads to: these frames, through lists in the blocks `b` and `c`. -/
structure Leads (s : Machine) (as : AddrSpace) (b c : Slot) (pages tables : List Nat) (dir : Nat) : Prop where
  pd : as.pd = frameAddr dir
  frames : as.frames = b.addr + 8
  pts : as.pts = c.addr + 8
  numFrames : as.numFrames.toNat = pages.length
  numPts : as.numPts.toNat = tables.length
  valid : b.addr + 8 ≠ 0 ∧ c.addr + 8 ≠ 0
  listed : ∀ i f, pages[i]? = some f → s.mem.load (b.addr + 8 + 4 * UInt32.ofNat i) = frameAddr f + 1
  linked : ∀ i f, tables[i]? = some f → s.mem.load (c.addr + 8 + 4 * UInt32.ofNat i) = frameAddr f
  once : (pages ++ tables ++ [dir]).Nodup
  held : ∀ f, f ∈ pages ++ tables ++ [dir] → HeldFrame s f
  small : ∀ f, f ∈ pages ++ tables ++ [dir] → f < 1048576

namespace Leads
variable {s : Machine} {as : AddrSpace} {b c : Slot} {pages tables : List Nat} {dir : Nat}
  (leads : Leads s as b c pages tables dir)
include leads

theorem apart : pages.Nodup ∧ tables.Nodup ∧ (∀ f, f ∈ pages → f ∉ tables) ∧ dir ∉ pages ++ tables := by
  obtain ⟨once, -, last⟩ := List.nodup_append.mp leads.once
  obtain ⟨oncePages, onceTables, differ⟩ := List.nodup_append.mp once
  exact ⟨oncePages, onceTables, fun f early late => differ f early f late rfl,
    fun early => last dir early dir List.mem_cons_self rfl⟩

theorem free_pages (unheld : Prog Machine Unit) :
    freeFrames unheld as.frames as.numFrames.toNat 0 s = .done () (s.dropped pages) := by
  rw [leads.frames, leads.numFrames]
  refine freeFrames_done unheld leads.valid.1 pages leads.apart.1 (fun f page => leads.held f (by simp [page])) ?_
  intro i f at_
  have page : f ∈ pages := List.mem_of_getElem? at_
  rw [UInt32.zero_add, leads.listed i f at_]
  exact (frame_of_addr (leads.small f (by simp [page]))).2

theorem free_tables (unheld : Prog Machine Unit) :
    freeFrames unheld as.pts as.numPts.toNat 0 (s.dropped pages) = .done () (s.dropped (pages ++ tables)) := by
  obtain ⟨-, once, differ, -⟩ := leads.apart
  rw [leads.pts, leads.numPts, ← dropped_dropped differ]
  refine freeFrames_done unheld leads.valid.2 tables once ?_ ?_
  · intro f table
    exact (leads.held f (by simp [table])).dropped fun page => differ f page table
  · intro i f at_
    have table : f ∈ tables := List.mem_of_getElem? at_
    have entry := leads.linked i f at_
    rw [UInt32.zero_add]
    change s.mem.load (c.addr + 8 + 4 * UInt32.ofNat i) / frameLen = _
    rw [entry]
    exact (frame_of_addr (leads.small f (by simp [table]))).1

theorem free_dir (unheld : Prog Machine Unit) :
    memmanFreeFrame unheld (as.pd / frameLen) (s.dropped (pages ++ tables)) =
      .done retSuccess (s.dropped (pages ++ tables ++ [dir])) := by
  have last := leads.apart.2.2.2
  have distinct : ∀ f, f ∈ pages ++ tables → f ∉ [dir] := by
    intro f early late
    rw [List.mem_singleton] at late
    exact last (late ▸ early)
  rw [leads.pd, (frame_of_addr (leads.small dir (by simp))).1,
    memmanFreeFrame_done ((leads.held dir (by simp)).dropped last) unheld, dropped_dropped distinct]

/-- Each of the frames loses a reference, and the two lists are given back. -/
theorem freeAddrSpace_done {R : Region} {h : Heap R} {fuel : Nat} {a : UInt32} (keeps : Keeps s h a as)
    (hosts : Hosts s h) (steps : R.length.toNat / 8 < fuel) {rest : List Slot}
    (used : h.used.Perm (c :: b :: rest)) : ∃ (h' : Heap R) (m : Mem),
      (∀ unheld, freeAddrSpace unheld fuel a s =
        .done retSuccess ((s.dropped (pages ++ tables ++ [dir])).withMem m)) ∧
      Hosts ((s.dropped (pages ++ tables ++ [dir])).withMem m) h' ∧ h'.used.Perm rest ∧
      ∀ d, d ∈ h'.used → ∀ x, d.Has x → m x = s.mem x := by
  have hosts₀ : Hosts (s.dropped (pages ++ tables ++ [dir])) h := ⟨hosts.base, hosts.inited, hosts.rep⟩
  obtain ⟨h₁, m₁, run₁, hosts₁, perm₁, kept₁⟩ := hosts₀.kfree_used steps (b := b) (used.mem_iff.mpr (by simp))
  have used₁ : h₁.used.Perm (c :: rest) :=
    (perm₁.symm.trans (used.trans (List.Perm.swap b c rest))).cons_inv
  obtain ⟨h', m, run₂, hosts₂, perm₂, kept₂⟩ := hosts₁.kfree_used steps (b := c) (used₁.mem_iff.mpr List.mem_cons_self)
  refine ⟨h', m, ?_, hosts₂, (perm₂.symm.trans used₁).cons_inv, ?_⟩
  · intro unheld
    have same : ∀ x : UInt32, a.toNat ≤ x.toNat → x.toNat < a.toNat + 20 → m₁ x = s.mem x := by
      intro x lower upper
      rcases keeps.place x lower upper with outside | ⟨d, member, data⟩
      · exact hosts₀.kfree_outside steps (run₁ goOn) outside
      · exact kept₁ d member x data
    obtain ⟨-, count, list, -, -⟩ := keeps.words (u := s) fun _ _ _ => rfl
    obtain ⟨-, -, -, count', links⟩ := keeps.words (u := s.dropped pages) fun _ _ _ => rfl
    obtain ⟨pd, -, -, -, -⟩ := keeps.words (u := s.dropped (pages ++ tables)) fun _ _ _ => rfl
    obtain ⟨-, -, list', -, -⟩ := keeps.words (u := s.dropped (pages ++ tables ++ [dir])) fun _ _ _ => rfl
    obtain ⟨-, -, -, -, links'⟩ := keeps.words (u := (s.dropped (pages ++ tables ++ [dir])).withMem m₁) same
    rw [freeAddrSpace, Prog.bind_done _ list, Prog.bind_done _ count, Prog.bind_done _ (leads.free_pages unheld),
      Prog.bind_done _ links, Prog.bind_done _ count', Prog.bind_done _ (leads.free_tables unheld),
      Prog.bind_done _ pd, Prog.bind_done _ (leads.free_dir unheld), Prog.bind_done _ list', leads.frames,
      Prog.bind_done _ (run₁ unheld), Prog.bind_done _ links', leads.pts]
    exact Prog.bind_done _ (run₂ unheld)
  · intro d later x data
    have early : d ∈ h₁.used := perm₂.mem_iff.mpr (List.mem_cons_of_mem c later)
    exact (kept₂ d early x data).trans (kept₁ d (perm₁.mem_iff.mpr (List.mem_cons_of_mem b early)) x data)

end Leads

/-- The frames of a process are its own. -/
structure Exclusive (s : Machine) (r : Owned) : Prop where
  once : r.frames.Nodup
  held : ∀ f, f ∈ r.frames → HeldFrame s f
  small : ∀ f, f ∈ r.frames → f < 1048576

section
variable {R : Region} {s : Machine} {h : Heap R} {fuel : Nat} {p : Process} {r : Owned}
  (records : Records s p r)
include records

theorem Records.short_field {field : UInt32 × UInt32} (member : field ∈ spaceFields r.addrSpace) :
    4 * field.1.toNat + 4 ≤ r.space.len.toNat := by
  have len := records.lens.2.2.1
  revert field
  simp [spaceFields]
  omega

/-- An entry stays good while the data of its blocks does. -/
theorem Records.congr (used : ∀ b, b ∈ r.blocks → b ∈ h.used) {t : Machine}
    (kept : ∀ b, b ∈ r.blocks → ∀ x, b.Has x → t.mem x = s.mem x) : Records t p r := by
  have word : ∀ b, b ∈ r.blocks → ∀ i : UInt32, 4 * i.toNat + 4 ≤ b.len.toNat →
      t.mem.load (b.addr + 8 + 4 * i) = s.mem.load (b.addr + 8 + 4 * i) := fun b mine i short =>
    h.layout.word_kept (List.mem_append_right h.free (used b mine)) short (kept b mine)
  obtain ⟨list, links, -, info⟩ := records.lens
  refine { records with fields := ?_, pages := ?_, link := ?_, tss := ?_ }
  · intro field member
    rw [word r.space (by simp [Owned.blocks]) _ (records.short_field member), records.fields _ member]
  · intro i f at_
    have inside := (List.getElem?_eq_some_iff.mp at_).1
    have few := records.few
    rw [word r.list (by simp [Owned.blocks]) _ (by rw [UInt32.toNat_ofNat']; omega), records.pages i f at_]
  · rw [word r.links (by simp [Owned.blocks]) _ (by simpa using links), records.link]
  · rw [word r.info (by simp [Owned.blocks]) _ (by simpa using info), records.tss]

theorem Records.keeps (used : r.space ∈ h.used) : Keeps s h p.addrSpace r.addrSpace := by
  have layout := h.layout
  have member : r.space ∈ h.free ++ h.used := List.mem_append_right h.free used
  have past := layout.past_le member
  have len := records.lens.2.2.1
  unfold Slot.past at past
  have start : (r.space.addr + 8).toNat = r.space.addr.toNat + 8 := by
    rw [UInt32.toNat_add]
    simp
    omega
  rw [records.addrSpace]
  refine ⟨records.valid _ (by simp [Owned.blocks]), (layout.2 _ member).add (by decide), by omega, ?_, records.fields⟩
  intro x lower upper
  refine Or.inr ⟨r.space, used, ?_⟩
  unfold Slot.Has Slot.past
  omega

theorem Records.leads (own : Exclusive s r) :
    Leads s r.addrSpace r.list r.links r.pages [r.table] r.dir where
  pd := rfl
  frames := rfl
  pts := rfl
  numFrames := by
    have few := records.few
    change (UInt32.ofNat r.pages.length).toNat = _
    rw [UInt32.toNat_ofNat']
    omega
  numPts := rfl
  valid := ⟨records.valid _ (by simp [Owned.blocks]), records.valid _ (by simp [Owned.blocks])⟩
  listed := records.pages
  linked := by
    intro i f at_
    cases i with
    | zero =>
      obtain rfl : r.table = f := by simpa using at_
      exact records.link
    | succ i => simp at at_
  once := own.once
  held := own.held
  small := own.small

/-- The frames of a process lose a reference each, and its two lists are given back. -/
theorem Records.freeAddrSpace_done (own : Exclusive s r) (hosts : Hosts s h) (steps : R.length.toNat / 8 < fuel)
    {rest : List Slot} (used : h.used.Perm (r.blocks ++ rest)) : ∃ (h' : Heap R) (m : Mem),
      (∀ unheld, freeAddrSpace unheld fuel p.addrSpace s =
        .done retSuccess ((s.dropped r.frames).withMem m)) ∧
      Hosts ((s.dropped r.frames).withMem m) h' ∧ h'.used.Perm ([r.tss, r.info, r.space] ++ rest) ∧
      ∀ c, c ∈ h'.used → ∀ x, c.Has x → m x = s.mem x := by
  have space : r.space ∈ h.used := used.mem_iff.mpr (by simp [Owned.blocks])
  have front : h.used.Perm (r.links :: r.list :: ([r.tss, r.info, r.space] ++ rest)) := by
    have move : (r.blocks ++ rest).Perm ([r.links, r.list] ++ ([r.tss, r.info, r.space] ++ rest)) := by
      rw [← List.append_assoc]
      have swap : ([r.tss, r.info, r.space] ++ [r.links, r.list]).Perm
          ([r.links, r.list] ++ [r.tss, r.info, r.space]) := List.perm_append_comm
      exact swap.append_right rest
    exact used.trans move
  exact (records.leads own).freeAddrSpace_done (records.keeps space) hosts steps front

end

/-- The TSS, the `proc_info_t` and the `addr_space_t` are given back. -/
theorem destroyProcess_done {R : Region} {s : Machine} {h : Heap R} {fuel : Nat} {p : Process} {r : Owned}
    (addrSpace : p.addrSpace = r.space.addr + 8) (archInfo : p.archInfo = r.info.addr + 8)
    (valid : r.info.addr + 8 ≠ 0) (tss : s.mem.load (r.info.addr + 8 + 4 * 0) = r.tss.addr + 8)
    (hosts : Hosts s h) (steps : R.length.toNat / 8 < fuel) {rest : List Slot}
    (used : h.used.Perm ([r.tss, r.info, r.space] ++ rest)) : ∃ (h' : Heap R) (m : Mem),
      (∀ unheld, destroyProcess unheld fuel p s = .done () (s.withMem m)) ∧
      Hosts (s.withMem m) h' ∧ h'.used.Perm rest ∧
      ∀ c, c ∈ h'.used → ∀ x, c.Has x → m x = s.mem x := by
  obtain ⟨h₁, m₁, run₁, hosts₁, perm₁, kept₁⟩ := hosts.kfree_used steps (b := r.tss)
    (used.mem_iff.mpr (by simp))
  have used₁ : h₁.used.Perm ([r.info, r.space] ++ rest) := (perm₁.symm.trans used).cons_inv
  obtain ⟨h₂, m₂, run₂, hosts₂, perm₂, kept₂⟩ := hosts₁.kfree_used steps (b := r.info)
    (used₁.mem_iff.mpr (by simp))
  have used₂ : h₂.used.Perm ([r.space] ++ rest) := (perm₂.symm.trans used₁).cons_inv
  obtain ⟨h', m, run₃, hosts₃, perm₃, kept₃⟩ := hosts₂.kfree_used steps (b := r.space)
    (used₂.mem_iff.mpr (by simp))
  refine ⟨h', m, ?_, hosts₃, (perm₃.symm.trans used₂).cons_inv, ?_⟩
  · intro unheld
    rw [destroyProcess, archInfo, Prog.bind_done _ (fetch_done valid 0), tss,
      Prog.bind_done _ (run₁ unheld), Prog.bind_done _ (run₂ unheld), addrSpace]
    exact run₃ unheld
  · intro c member x data
    have before₃ : c ∈ h₂.used := perm₃.mem_iff.mpr (List.mem_cons_of_mem _ member)
    have before₂ : c ∈ h₁.used := perm₂.mem_iff.mpr (List.mem_cons_of_mem _ before₃)
    have before₁ : c ∈ h.used := perm₁.mem_iff.mpr (List.mem_cons_of_mem _ before₂)
    calc m x = m₂ x := kept₃ c before₃ x data
      _ = m₁ x := kept₂ c before₂ x data
      _ = s.mem x := kept₁ c before₁ x data

end Sos.Kernel
