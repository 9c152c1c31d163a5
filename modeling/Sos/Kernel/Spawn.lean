import Sos.Kernel.Scheduling

/-! A process made and entered into the table. -/

namespace Sos.Kernel
open Sos.Lib Machine

/-- What a new process owns, the directory being in frame `pd` and these the free frames
behind it. -/
def newborn (size : UInt32) (pd : Nat) (fs : List Nat) (b c d e g : Slot) : Owned :=
  ⟨pd, tableFrame fs 0, fs.tail.take (numFrames size), b, c, d, e, g⟩

theorem schedAdd_done {s t : Machine} {p : Process} (run : schedAdd p s = .done retSuccess t) :
    ∃ i gdt, i < 4 ∧ (s.proctab i).status = .null ∧
      t = (s.setProc i { p with status := .run, pid := UInt32.ofNat i }).switched s.curproc gdt := by
  unfold schedAdd at run
  rw [Prog.get_bind_run] at run
  cases found : nullEntry s with
  | none =>
    rw [found] at run
    cases run
  | some i =>
    have null := List.find?_some found
    have inside := List.mem_of_find?_eq_some found
    rw [List.mem_range'_1] at inside
    rw [found] at run
    simp only [] at run
    rw [Prog.modify_bind_run] at run
    obtain ⟨_, u, added, run⟩ := Prog.of_bind_done run
    unfold archSchedAdd at added
    by_cases valid : p.archInfo = 0
    · simp only [valid] at added
      obtain ⟨_, _, fault, -⟩ := Prog.of_bind_done added
      cases fault
    · rw [Prog.bind_done _ (fetch_done valid 0)] at added
      cases run
      cases added
      exact ⟨i, _, by omega, by simpa using null, rfl⟩

theorem schedAdd_room {s : Machine} {p : Process} {i : Nat} (found : nullEntry s = some i)
    (valid : p.archInfo ≠ 0) : ∃ t, schedAdd p s = .done retSuccess t := by
  let entry : Process := { p with status := .run, pid := UInt32.ofNat i }
  have added : ∃ t, archSchedAdd entry (s.setProc i entry) = .done () t := by
    unfold archSchedAdd
    rw [Prog.bind_done _ (fetch_done valid 0)]
    exact ⟨_, rfl⟩
  obtain ⟨t, added⟩ := added
  refine ⟨t, ?_⟩
  unfold schedAdd
  rw [Prog.get_bind_run, found]
  simp only []
  rw [Prog.modify_bind_run]
  exact Prog.bind_done _ added

/-- A byte of the `tss_t` that is none of the fields which are set is what it was. -/
theorem Created.unset_kept {R : Region} {s u t : Machine} {h h₂ h' : Heap R} {as : AddrSpace} {size tLen : UInt32}
    {p q : Process} {b c d e g : Slot} {m : Mem} {pd behind : Nat} {fs : List Nat}
    (built : Built s h size as u b c h₂ m pd fs) (blocks : Blocks h size b c d e g h₂ h')
    (created : Created s u h' as tLen p d e g q t) (spared : Spared R s behind) (far : 1 ≤ behind)
    (fits : 4 * numPts size ≤ 3072 + behind) {x : UInt32} (data : g.Has x)
    (unset : ∀ field, field ∈ tssFields tLen u.schedStartProc as.pd →
      x.toNat < g.addr.toNat + 8 + 4 * field.1.toNat ∨ g.addr.toNat + 8 + 4 * field.1.toNat + 4 ≤ x.toNat) :
    t.mem x = s.mem x := by
  obtain ⟨slotB, slotC, slotD, slotE, slotG⟩ := blocks.slots
  have once := blocks.distinct.1
  simp only [List.nodup_cons, List.mem_cons, List.not_mem_nil, or_false, not_or] at once
  obtain ⟨⟨gE, gD, gC, gB⟩, -⟩ := once
  obtain ⟨h₃, h₄, third, fourth, fifth⟩ := blocks.rest
  have plain := spared.plain h'.layout slotG data
  rw [created.later _ ((spared.le far).plain h'.layout slotG data) (h'.layout.data_apart slotG slotD gD data)
    (h'.layout.data_apart slotG slotE gE data)]
  · exact built.byte_kept spared fits
      (((plain.earlier (h₄.request_some fifth)).earlier (h₃.request_some fourth)).earlier
        (h₂.request_some third)) (h'.layout.data_apart slotG slotB gB data)
      (h'.layout.data_apart slotG slotC gC data)
  · intro w member
    obtain ⟨field, listed, rfl⟩ := List.mem_map.mp member
    have short := ((h₄.request_some fifth).fits_tss tLen u.schedStartProc as.pd).short field listed
    have word := h'.layout.word_toNat slotG short
    have apart := unset field listed
    change _ < (g.addr + 8 + 4 * field.1).toNat ∨ (g.addr + 8 + 4 * field.1).toNat + 4 ≤ _
    omega

section
variable {R : Region} {s u t : Machine} {h h₂ h' : Heap R} {as : AddrSpace} {tLen : UInt32}
  {p q : Process} {b c d e g : Slot} {m : Mem} {pd : Nat} {fs : List Nat}
  (built : Built s h (tLen + dataLen) as u b c h₂ m pd fs)
  (blocks : Blocks h (tLen + dataLen) b c d e g h₂ h') (created : Created s u h' as tLen p d e g q t)
include built

theorem Built.one_table (few : numFrames (tLen + dataLen) < 1024) : ∃ f gs, fs = f :: gs ∧
    numFrames (tLen + dataLen) ≤ gs.length ∧ tableFrame fs 0 = f ∧
    ∀ k < numFrames (tLen + dataLen), gs[k]? = some (pageFrame fs k) := by
  have length := built.length_le
  have one := numPts_eq (tLen + dataLen)
  cases fs with
  | nil =>
    rw [List.length_nil] at length
    omega
  | cons f gs =>
    rw [List.length_cons] at length
    refine ⟨f, gs, rfl, by omega, rfl, ?_⟩
    intro k inside
    rw [pageFrame, show 1025 * (k / 1024) + 1 + k % 1024 = k + 1 by omega, List.getD_cons_succ,
      List.getD_eq_getElem gs 0 (by omega), List.getElem?_eq_getElem (by omega)]

/-- The frames that were claimed are those of the new process. -/
theorem Built.newborn_frames (few : numFrames (tLen + dataLen) < 1024) :
    (newborn (tLen + dataLen) pd fs b c d e g).frames.Perm
      (pd :: fs.take (demand (numPts (tLen + dataLen)) (numFrames (tLen + dataLen)))) := by
  obtain ⟨f, gs, rfl, -, table, -⟩ := built.one_table few
  have one := numPts_eq (tLen + dataLen)
  rw [demand_eq, show numPts (tLen + dataLen) + numFrames (tLen + dataLen) =
    numFrames (tLen + dataLen) + 1 by omega, List.take_succ_cons]
  have pages : ((newborn (tLen + dataLen) pd (f :: gs) b c d e g).pages ++ [f]).Perm
      (f :: gs.take (numFrames (tLen + dataLen))) := List.perm_append_comm
  exact List.perm_append_comm.trans (pages.cons pd)

theorem Built.newborn_free (few : numFrames (tLen + dataLen) < 1024) {f : Nat}
    (mine : f ∈ (newborn (tLen + dataLen) pd fs b c d e g).frames) : f ∈ freeList s := by
  rw [built.list]
  rcases List.mem_cons.mp ((built.newborn_frames few).mem_iff.mp mine) with rfl | other
  · exact List.mem_cons_self
  · exact List.mem_cons_of_mem _ (List.mem_of_mem_take other)

theorem Built.newborn_once (few : numFrames (tLen + dataLen) < 1024) :
    (newborn (tLen + dataLen) pd fs b c d e g).frames.Nodup := by
  have all := freeList_nodup s
  rw [built.list] at all
  exact (built.newborn_frames few).nodup_iff.mpr (all.sublist ((List.take_sublist _ fs).cons_cons pd))

include created

/-- Apart from memory a new process takes frames, and nothing else. -/
theorem Created.machine_eq : t = (s.claimed (pd :: fs.take
    (demand (numPts (tLen + dataLen)) (numFrames (tLen + dataLen))))).withMem t.mem := by
  have machine := created.machine
  rw [built.result, Machine.withMem_stored] at machine
  exact machine

theorem Created.proctab : t.proctab = s.proctab := by
  rw [created.machine_eq built]
  rfl

theorem Created.frameMap (few : numFrames (tLen + dataLen) < 1024) (f : Nat) : t.frameMap f =
    if f ∈ (newborn (tLen + dataLen) pd fs b c d e g).frames then ⟨false, 1⟩ else s.frameMap f := by
  rw [created.machine_eq built]
  change (if f ∈ _ then _ else _) = _
  simp only [(built.newborn_frames few).mem_iff]

include blocks

/-- Data of blocks that others had stays as it is. -/
theorem Created.others_kept (spared : Spared R s 1) (few : numFrames (tLen + dataLen) < 1024) {y : Slot}
    (used : y ∈ h.used) {x : UInt32} (data : y.Has x) : t.mem x = s.mem x := by
  have one := numPts_eq (tLen + dataLen)
  obtain ⟨slotB, slotC, slotD, slotE, slotG⟩ := blocks.slots
  have slot : y ∈ h'.free ++ h'.used := by simp [blocks.used, used]
  have apart := blocks.distinct.2 y used
  simp only [List.mem_cons, List.not_mem_nil, or_false, not_or] at apart
  obtain ⟨notG, notE, notD, notC, notB⟩ := apart
  have plain := spared.plain h'.layout slot data
  obtain ⟨h₃, h₄, third, fourth, fifth⟩ := blocks.rest
  have givenG := h₄.request_some fifth
  rw [created.later x plain (h'.layout.data_apart slot slotD notD data)
    (h'.layout.data_apart slot slotE notE data)
    ((givenG.fits_tss _ _ _).off (h'.layout.data_apart slot slotG notG data))]
  exact built.byte_kept spared (by omega)
    (((plain.earlier givenG).earlier (h₃.request_some fourth)).earlier (h₂.request_some third))
    (h'.layout.data_apart slot slotB notB data) (h'.layout.data_apart slot slotC notC data)

/-- Data of the two lists stays as it was made. -/
theorem Created.lists_kept (spared : Spared R s 1) {y : Slot} (list : y = b ∨ y = c) {x : UInt32}
    (data : y.Has x) : t.mem x = u.mem x := by
  obtain ⟨slotB, slotC, slotD, slotE, slotG⟩ := blocks.slots
  have once := blocks.distinct.1
  simp only [List.nodup_cons, List.mem_cons, List.not_mem_nil, or_false, not_or, List.nodup_nil,
    not_false_eq_true, and_true] at once
  obtain ⟨⟨gE, gD, gC, gB⟩, ⟨eD, eC, eB⟩, ⟨dC, dB⟩, cB⟩ := once
  obtain ⟨h₃, h₄, third, fourth, fifth⟩ := blocks.rest
  have fits := (h₄.request_some fifth).fits_tss tLen u.schedStartProc as.pd
  rcases list with rfl | rfl
  · exact created.later x (spared.plain h'.layout slotB data)
      (h'.layout.data_apart slotB slotD (Ne.symm dB) data)
      (h'.layout.data_apart slotB slotE (Ne.symm eB) data)
      (fits.off (h'.layout.data_apart slotB slotG (Ne.symm gB) data))
  · exact created.later x (spared.plain h'.layout slotC data)
      (h'.layout.data_apart slotC slotD (Ne.symm dC) data)
      (h'.layout.data_apart slotC slotE (Ne.symm eC) data)
      (fits.off (h'.layout.data_apart slotC slotG (Ne.symm gC) data))

/-- The new process leads to what it owns. -/
theorem Created.records (spared : Spared R s 1) (few : numFrames (tLen + dataLen) < 1024) (i : Nat) :
    Records t { q with status := .run, pid := UInt32.ofNat i }
      (newborn (tLen + dataLen) pd fs b c d e g) := by
  have one := numPts_eq (tLen + dataLen)
  obtain ⟨slotB, slotC, -⟩ := blocks.slots
  obtain ⟨lenB, lenC, lenD, lenE, -⟩ := blocks.lens
  obtain ⟨validD, validE, validG⟩ := blocks.valid
  obtain ⟨h₁, first, second⟩ := blocks.lists
  obtain ⟨f, gs, rfl, long, table, pages⟩ := built.one_table few
  have length : (gs.take (numFrames (tLen + dataLen))).length = numFrames (tLen + dataLen) := by
    rw [List.length_take]
    exact Nat.min_eq_left long
  have frames : as.frames = b.addr + 8 := by rw [built.space]
  have pts : as.pts = c.addr + 8 := by rw [built.space]
  have count : (tLen + dataLen) / frameLen + 1 =
      UInt32.ofNat (gs.take (numFrames (tLen + dataLen))).length := by
    apply UInt32.toNat_inj.mp
    rw [numFrames_toNat, UInt32.toNat_ofNat', length]
    omega
  have tables : ((tLen + dataLen) / frameLen + 1) / ptEntries + 1 = 1 := by
    apply UInt32.toNat_inj.mp
    rw [numPts_toNat, one]
    simp
    omega
  have space : (newborn (tLen + dataLen) pd (f :: gs) b c d e g).addrSpace = as := by
    rw [built.space, tables, count]
    rfl
  refine ⟨by rw [created.process]; rfl, by rw [created.process]; rfl, ?_, ?_, ?_, created.info, ?_, ?_, ?_⟩
  · intro field member
    rw [space] at member
    exact created.space field member
  · intro i g' at_
    change (gs.take (numFrames (tLen + dataLen)))[i]? = some g' at at_
    have inside := (List.getElem?_eq_some_iff.mp at_).1
    rw [length] at inside
    rw [List.getElem?_take, if_pos inside, pages i inside, Option.some.injEq] at at_
    obtain ⟨k, within, same, entry⟩ := built.listed_word spared (by omega) (j := i) (by omega) inside
    have short : 4 * (UInt32.ofNat i).toNat + 4 ≤ b.len.toNat := by
      rw [UInt32.toNat_ofNat']
      omega
    rw [frames, show k = i by omega, at_] at entry
    exact (h'.layout.word_kept slotB short fun x data =>
      created.lists_kept built blocks spared (Or.inl rfl) data).trans entry
  · have link := built.link_word spared (by omega) (i := 0) (by omega)
    rw [pts] at link
    exact (h'.layout.word_kept slotC (i := 0) (by rw [lenC]; simp; omega) fun x data =>
      created.lists_kept built blocks spared (Or.inr rfl) data).trans link
  · change (gs.take (numFrames (tLen + dataLen))).length < 1024
    omega
  · change 4 * (gs.take (numFrames (tLen + dataLen))).length ≤ b.len.toNat ∧ 4 ≤ c.len.toNat ∧
      20 ≤ d.len.toNat ∧ 4 ≤ e.len.toNat
    omega
  · intro y member
    simp only [Owned.blocks, newborn, List.mem_cons, List.not_mem_nil, or_false] at member
    rcases member with rfl | rfl | rfl | rfl | rfl
    · exact validG
    · exact validE
    · exact validD
    · exact (h₁.request_some second).valid
    · exact (h.request_some first).valid

end

end Sos.Kernel
