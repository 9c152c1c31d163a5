import Sos.Kernel.HeapLists

/-! `init_alloc` and `alloc` refine the heap of two lists. -/

namespace Sos.Kernel
open Sos.Lib

theorem initAlloc_done (R : Region) (m : Mem) : ∃ m', initAlloc R.base R.length m = .done retSuccess m' ∧
    Rep R m' (Heap.init R).free (Heap.init R).used := by
  have enough := R.enough
  have layout : Layout R [⟨R.base + 8, R.length - 8 - 8⟩] := (Heap.init R).layout
  have long : ¬R.length < 8 := by
    rw [UInt32.lt_iff_toNat_lt]
    simp
    omega
  have elem : IsLink R [⟨R.base + 8, R.length - 8 - 8⟩] (R.base + 8) :=
    Or.inr (Or.inr ⟨⟨R.base + 8, R.length - 8 - 8⟩, by simp, rfl⟩)
  have head : IsLink R [⟨R.base + 8, R.length - 8 - 8⟩] R.base := Or.inl rfl
  have used : IsLink R [⟨R.base + 8, R.length - 8 - 8⟩] (usedList R.base) := IsLink.used
  have apart := layout.addr_ne_heads (s := ⟨R.base + 8, R.length - 8 - 8⟩) (by simp)
  have words : ∀ x, IsLink R [⟨R.base + 8, R.length - 8 - 8⟩] x →
      ((((m.store (usedList R.base) 0).store (R.base + 8) 0).store (R.base + 8 + 4)
        (R.length - 8 - 8)).store R.base (R.base + 8)).load x =
      if x = R.base then R.base + 8 else if x = R.base + 8 then 0
      else if x = usedList R.base then 0 else m.load x := by
    intro x link
    rw [layout.load_storeLink head link,
      layout.load_storeLen (s := ⟨R.base + 8, R.length - 8 - 8⟩) (by simp) link,
      layout.load_storeLink elem link, layout.load_storeLink used link]
  refine ⟨(((m.store (usedList R.base) 0).store (R.base + 8) 0).store (R.base + 8 + 4)
    (R.length - 8 - 8)).store R.base (R.base + 8), ?_, ⟨?_, ?_⟩, ?_⟩
  · rw [initAlloc, if_neg long]
    rfl
  · refine ⟨?_, layout.addr_ne_zero (by simp), ?_⟩
    · rw [words _ head, if_pos rfl]
    · change Mem.load _ (R.base + 8) = 0
      rw [words _ elem, if_neg apart.1, if_pos rfl]
  · change Mem.load _ (usedList R.base) = 0
    rw [words _ used, if_neg R.usedList_ne, if_neg apart.2.symm, if_pos rfl]
  · intro s member
    have same : s = ⟨R.base + 8, R.length - 8 - 8⟩ := by simpa [Heap.init] using member
    subst same
    rw [layout.len_storeLink head (by simp)]
    exact (layout.len_storeLen (s := ⟨R.base + 8, R.length - 8 - 8⟩) (by simp) (by simp)).trans
      (if_pos rfl)

/-- What the first-fit rule comes to. -/
theorem Heap.alloc_cases {R : Region} (h : Heap R) (q : Request) :
    (h.alloc q = none ∧ ∀ s, s ∈ h.free → q.fits s = false) ∨
    ∃ pre p post h', h.free = pre ++ p :: post ∧ (∀ s, s ∈ pre → q.fits s = false) ∧
      q.fits p = true ∧ h.alloc q = some (p.part q.size, h') ∧
      h'.free = p.rest q.size :: (pre ++ post) ∧ h'.used = p.part q.size :: h.used := by
  unfold Heap.alloc
  split
  next missing =>
    left
    refine ⟨rfl, fun s member => ?_⟩
    simpa using List.find?_eq_none.mp missing s member
  next p found =>
    right
    obtain ⟨fits, pre, post, split, before⟩ := List.find?_eq_some_iff_append.mp found
    have before' : ∀ s, s ∈ pre → q.fits s = false := fun s member => by simpa using before s member
    have outside : p ∉ pre := by
      intro member
      rw [before' p member] at fits
      cases fits
    refine ⟨pre, p, post, _, split, before', fits, rfl, ?_, rfl⟩
    change p.rest q.size :: h.free.erase p = _
    rw [split, List.erase_append_right _ outside, List.erase_cons_head]

/-- The block that was given is cut off a free one. -/
theorem Heap.of_alloc_some {R : Region} (h : Heap R) {q : Request} {s : Slot} {h' : Heap R}
    (result : h.alloc q = some (s, h')) : ∃ pre p post, h.free = pre ++ p :: post ∧ q.fits p = true ∧
      s = p.part q.size ∧ h'.free = p.rest q.size :: (pre ++ post) ∧ h'.used = s :: h.used := by
  rcases h.alloc_cases q with ⟨none, -⟩ | ⟨pre, p, post, h'', split, -, fits, some, free, used⟩
  · rw [none] at result
    cases result
  · rw [some, Option.some.injEq, Prod.mk.injEq] at result
    obtain ⟨rfl, rfl⟩ := result
    exact ⟨pre, p, post, split, fits, rfl, free, used⟩

/-- The part of `alloc` behind the search, on the slot `p` that follows `j`. -/
def take (base p j size : UInt32) : Prog Mem UInt32 := do
  unlink base p j
  if (← load (p + 4)) ≥ size + 8 then
    let k := p + 8 + size
    store k (← load base)
    setLen k ((← load (p + 4)) - size - 8)
    store base k
    setLen p size
  store p (← load (usedList base))
  store (usedList base) p
  return p + 8

/-- The memory that `take` leaves, from the one with `p` unlinked. -/
def taken (R : Region) (p : Slot) (size : UInt32) (m : Mem) : Mem :=
  (((((m.store (p.rest size).addr (m.load R.base)).store ((p.rest size).addr + 4)
    (p.rest size).len).store R.base (p.rest size).addr).store ((p.part size).addr + 4) size).store
      (p.part size).addr (m.load (usedList R.base))).store (usedList R.base) (p.part size).addr

section
variable {R : Region} {m : Mem} {l : List Slot} (layout : Layout R l) {p k : Slot} {size : UInt32}
  (place : (p.rest size).addr = k.addr) (memK : k ∈ l) (memP : p.part size ∈ l)
include layout place memK memP

theorem taken_link {x : UInt32} (link : IsLink R l x) : (taken R p size m).load x =
    if x = usedList R.base then (p.part size).addr
    else if x = (p.part size).addr then m.load (usedList R.base)
    else if x = R.base then k.addr
    else if x = k.addr then m.load R.base else m.load x := by
  have linkP := IsLink.slot (R := R) memP
  have linkK := IsLink.slot (R := R) memK
  unfold taken
  rw [place, layout.load_storeLink IsLink.used link, layout.load_storeLink linkP link,
    layout.load_storeLen memP link, layout.load_storeLink IsLink.free link,
    layout.load_storeLen memK link, layout.load_storeLink linkK link]

theorem taken_len {s : Slot} (member : s ∈ l) : slotLen (taken R p size m) s.addr =
    if s = p.part size then size else if s = k then (p.rest size).len else slotLen m s.addr := by
  have linkP := IsLink.slot (R := R) memP
  have linkK := IsLink.slot (R := R) memK
  unfold taken
  rw [place, layout.len_storeLink IsLink.used member, layout.len_storeLink linkP member,
    layout.len_storeLen memP member, layout.len_storeLink IsLink.free member,
    layout.len_storeLen memK member, layout.len_storeLink linkK member]

theorem taken_touches : Touches R l m (taken R p size m) := by
  have linkP := IsLink.slot (R := R) memP
  have linkK := IsLink.slot (R := R) memK
  unfold taken
  rw [place]
  refine Touches.trans ?_ (layout.touches_storeLink IsLink.used)
  refine Touches.trans ?_ (layout.touches_storeLink linkP)
  refine Touches.trans ?_ (layout.touches_storeLen memP)
  refine Touches.trans ?_ (layout.touches_storeLink IsLink.free)
  refine Touches.trans ?_ (layout.touches_storeLen memK)
  exact layout.touches_storeLink linkK

theorem take_done {j : UInt32} {m₀ : Mem} (unlinked : unlink R.base p.addr j m₀ = .done () m)
    (len : slotLen m p.addr = p.len) (fits : p.len ≥ size + 8) :
    take R.base p.addr j size m₀ = .done (p.addr + 8) (taken R p size m) := by
  have linkP := IsLink.slot (R := R) memP
  have linkK := IsLink.slot (R := R) memK
  have used : IsLink R l (usedList R.base) := IsLink.used
  have len₁ : m.load (p.addr + 4) = p.len := len
  have len₂ : ∀ v, (m.store (p.rest size).addr v).load (p.addr + 4) = p.len := by
    intro v
    rw [place]
    exact (layout.len_storeLink linkK memP).trans len
  have heads := layout.addr_ne_heads memK
  have list : ∀ v w u, ((((m.store (p.rest size).addr v).store ((p.rest size).addr + 4) w).store
      R.base u).store (p.addr + 4) size).load (usedList R.base) = m.load (usedList R.base) := by
    intro v w u
    refine (layout.load_storeLen memP used).trans ?_
    rw [place, layout.load_storeLink IsLink.free used, if_neg R.usedList_ne,
      layout.load_storeLen memK used, layout.load_storeLink linkK used, if_neg heads.2.symm]
  unfold take
  rw [Prog.bind_done _ unlinked]
  simp only [load, store, setLen, Prog.get_bind_run, len₁]
  rw [if_pos fits]
  have addr : p.addr + 8 + size = (p.rest size).addr := rfl
  simp only [Prog.get_bind_run, Prog.modify_bind_run, addr, len₂, list]
  rfl

end

theorem roundUp_toNat {size : UInt32} (small : (size.toNat + 3) / 4 * 4 + 8 < 4294967296) :
    (roundUp size).toNat = (size.toNat + 3) / 4 * 4 := by
  have four : (4 : UInt32).toNat = 4 := rfl
  have remainder : (size % 4).toNat = size.toNat % 4 := UInt32.toNat_mod size 4
  unfold roundUp
  split
  next odd =>
    have positive : (size % 4).toNat ≠ 0 := fun zero => odd (UInt32.toNat_inj.mp zero)
    have missing : (4 - size % 4).toNat = 4 - size.toNat % 4 := by
      rw [UInt32.toNat_sub_of_le _ _ (UInt32.le_iff_toNat_le.mpr (by omega)), remainder, four]
    rw [UInt32.toNat_add, missing]
    omega
  next even =>
    have zero : (size % 4).toNat = 0 := by
      rw [not_not.mp even]
      rfl
    omega

/-- A size that can be rounded up with room for a header. -/
def Request.of (size : UInt32) (small : (size.toNat + 3) / 4 * 4 + 8 < 4294967296) : Request where
  size := roundUp size
  aligned := by
    rw [Mem.Aligned, roundUp_toNat small]
    omega
  small := by rwa [roundUp_toNat small]

theorem alloc_eq (fuel : Nat) (base size : UInt32) : alloc fuel base size = (do
    let (p, j) ← search fuel (fun m p => ¬slotLen m p < roundUp size + 8) base
    if p = 0 then return 0
    take base p j (roundUp size)) := rfl

/-- A slot that is not in the free list moves to the used list, its rest to the free list. -/
theorem Linked.taken {R : Region} {m : Mem} {free used : List Slot} {p k : Slot} {size : UInt32}
    (linked : Linked R m free used) (place : (p.rest size).addr = k.addr)
    (layout : Layout R ((k :: free) ++ p.part size :: used)) :
    Linked R (taken R p size m) (k :: free) (p.part size :: used) := by
  have memK : k ∈ (k :: free) ++ p.part size :: used := by simp
  have memP : p.part size ∈ (k :: free) ++ p.part size :: used := by simp
  have linkP := IsLink.slot (R := R) memP
  have linkK := IsLink.slot (R := R) memK
  have headsK := layout.addr_ne_heads memK
  have headsP := layout.addr_ne_heads memP
  obtain ⟨onceFree, onceUsed, apart⟩ := List.nodup_append.mp layout.1.nodup
  have addr_ne := fun {s t} (hs : s ∈ (k :: free) ++ p.part size :: used)
    (ht : t ∈ (k :: free) ++ p.part size :: used) (differ : s ≠ t) (same : s.addr = t.addr) =>
      differ (layout.eq_of_addr hs ht same)
  have differ := addr_ne memK memP (apart _ (by simp) _ (by simp))
  have others : ∀ s, s ∈ free ++ used → s ≠ p.part size ∧ s ≠ k := by
    intro s member
    rcases List.mem_append.mp member with left | right
    · refine ⟨apart s (List.mem_cons_of_mem _ left) _ (by simp), ?_⟩
      rintro rfl
      exact (List.nodup_cons.mp onceFree).1 left
    · refine ⟨?_, (apart _ (by simp) s (List.mem_cons_of_mem _ right)).symm⟩
      rintro rfl
      exact (List.nodup_cons.mp onceUsed).1 right
  have within : ∀ s, s ∈ free ++ used → s ∈ (k :: free) ++ p.part size :: used := by
    intro s member
    simp only [List.mem_append, List.mem_cons] at member ⊢
    tauto
  have kept : ∀ s, s ∈ free ++ used →
      (Sos.Kernel.taken R p size m).load s.addr = m.load s.addr := by
    intro s member
    have inside := within s member
    have heads := layout.addr_ne_heads inside
    rw [taken_link layout place memK memP (IsLink.slot inside), if_neg heads.2,
      if_neg (addr_ne inside memP (others s member).1), if_neg heads.1,
      if_neg (addr_ne inside memK (others s member).2)]
  refine ⟨linked.freeChain.push (layout.addr_ne_zero memK) ?_ ?_ ?_,
    linked.usedChain.push (layout.addr_ne_zero memP) ?_ ?_ ?_⟩
  · rw [taken_link layout place memK memP IsLink.free, if_neg R.usedList_ne.symm, if_neg headsP.1.symm,
      if_pos rfl]
  · rw [taken_link layout place memK memP linkK, if_neg headsK.2, if_neg differ, if_neg headsK.1,
      if_pos rfl]
  · intro y member
    obtain ⟨s, inside, rfl⟩ := List.mem_map.mp member
    exact kept s (List.mem_append_left used inside)
  · rw [taken_link layout place memK memP IsLink.used, if_pos rfl]
  · rw [taken_link layout place memK memP linkP, if_neg headsP.2, if_pos rfl]
  · intro y member
    obtain ⟨s, inside, rfl⟩ := List.mem_map.mp member
    exact kept s (List.mem_append_right free inside)

/-- The length of the rest is written, and that of the part. -/
theorem Sized.taken {R : Region} {len : Slot → UInt32} {m : Mem} {free used : List Slot} {p k : Slot}
    {size : UInt32} (sized : Sized R len m free used) (place : (p.rest size).addr = k.addr)
    (layout : Layout R ((k :: free) ++ p.part size :: used)) (part : len (p.part size) = size)
    (rest : len k = (p.rest size).len) :
    Sized R len (taken R p size m) (k :: free) (p.part size :: used) := by
  refine ⟨sized.toLinked.taken place layout, fun s member => ?_⟩
  rw [taken_len layout place (by simp) (by simp) member]
  by_cases isP : s = p.part size
  · rw [if_pos isP, isP, part]
  · rw [if_neg isP]
    by_cases isK : s = k
    · rw [if_pos isK, isK, rest]
    · rw [if_neg isK]
      refine sized.lens s ?_
      simp only [List.mem_append, List.mem_cons] at member ⊢
      tauto

/-- `alloc` follows the heap of two lists as far as the lengths in memory pass the same tests, and are divided
in the same way. -/
theorem Sized.alloc_done {R : Region} {len : Slot → UInt32} {m : Mem} {fuel : Nat} (h : Heap R)
    (sized : Sized R len m h.free h.used) (enough : h.free.length < fuel) (size : UInt32)
    (small : (size.toNat + 3) / 4 * 4 + 8 < 4294967296)
    (test : ∀ s, s ∈ h.free → decide (¬len s < roundUp size + 8) = (Request.of size small).fits s)
    (cut : ∀ s, s ∈ h.free → (Request.of size small).fits s = true →
      len (s.part (roundUp size)) = roundUp size ∧ len (s.rest (roundUp size)) = len s - roundUp size - 8) :
    (h.alloc (Request.of size small) = none ∧ alloc fuel R.base size m = .done 0 m) ∨
    ∃ s h' m', h.alloc (Request.of size small) = some (s, h') ∧
      alloc fuel R.base size m = .done (s.addr + 8) m' ∧ Sized R len m' h'.free h'.used ∧
      Touches R (h'.free ++ h'.used) m m' := by
  have test : ∀ s, s ∈ h.free → decide (¬slotLen m s.addr < roundUp size + 8) =
      (Request.of size small).fits s := by
    intro s member
    rw [sized.lens s (List.mem_append_left _ member)]
    exact test s member
  rcases h.alloc_cases (Request.of size small) with ⟨full, none⟩ |
    ⟨pre, p, post, h', split, before, fits, result, free, used⟩
  · left
    refine ⟨full, ?_⟩
    have missed := search_end fuel (fun m p => ¬slotLen m p < roundUp size + 8) sized.freeChain
      (by simpa using enough) (by
        intro y member
        obtain ⟨s, inside, rfl⟩ := List.mem_map.mp member
        rw [test s inside, none s inside])
    rw [alloc_eq, Prog.bind_done _ missed]
    rfl
  · right
    have chain := sized.freeChain
    rw [split, List.map_append, List.map_cons] at chain
    have member : p ∈ h.free := by simp [split]
    have passed := test p member
    rw [sized.lens p (List.mem_append_left _ member), fits] at passed
    have hit := search_hit fuel (fun m p => ¬slotLen m p < roundUp size + 8) chain
      (by
        rw [split] at enough
        simp at enough ⊢
        omega)
      (by
        intro y inside
        obtain ⟨s, early, rfl⟩ := List.mem_map.mp inside
        rw [test s (by simp [split, early]), before s early])
      (by rw [test p member, fits])
    have layout := h'.layout
    rw [free, used] at layout
    have lens : ∀ s, s ∈ h.free ++ h.used → slotLen (unlinked m R.base pre p) s.addr = len s := by
      intro s inside
      have within : ∀ t, t ∈ pre ++ p :: post → t ∈ h.free ++ h.used :=
        fun t link => List.mem_append_left h.used (split ▸ link)
      rw [unlinked_len h.layout IsLink.free within inside, sized.lens s inside]
    have without : Sized R len (unlinked m R.base pre p) (pre ++ post) h.used := by
      refine ⟨sized.toLinked.unlinkFree h.layout h.layout.among split, fun s inside => lens s ?_⟩
      rw [split]
      simp only [List.mem_append, List.mem_cons] at inside ⊢
      tauto
    have large : len p ≥ roundUp size + 8 := UInt32.not_lt.mp (of_decide_eq_true passed)
    have prev : IsLink R ((p.rest (roundUp size) :: (pre ++ post)) ++ p.part (roundUp size) :: h.used)
        ((pre.map Slot.addr).getLastD R.base) :=
      prev_link IsLink.free fun s early => by simp [early]
    -- the slot as it is in memory
    let stored : Slot := ⟨p.addr, len p⟩
    have place : (stored.rest (roundUp size)).addr = (p.rest (roundUp size)).addr := rfl
    have memK : p.rest (roundUp size) ∈
        (p.rest (roundUp size) :: (pre ++ post)) ++ p.part (roundUp size) :: h.used := by simp
    have memP : stored.part (roundUp size) ∈
        (p.rest (roundUp size) :: (pre ++ post)) ++ p.part (roundUp size) :: h.used := by simp [stored, Slot.part]
    obtain ⟨part, rest⟩ := cut p member fits
    refine ⟨p.part (roundUp size), h', Sos.Kernel.taken R stored (roundUp size) (unlinked m R.base pre p), result,
      ?_, ?_, ?_⟩
    · have valid : p.addr ≠ 0 := h.layout.addr_ne_zero (List.mem_append_left _ member)
      rw [alloc_eq, Prog.bind_done _ hit]
      simp only [if_neg valid]
      exact take_done layout place memK memP (unlink_done chain)
        (lens p (List.mem_append_left _ member)) large
    · rw [free, used]
      exact without.taken place layout part rest
    · rw [free, used]
      exact (layout.touches_storeLink prev).trans (taken_touches layout place memK memP)

/-- `alloc` follows the heap of two lists, and writes nothing but list heads and the
headers of the slots there are afterwards. -/
theorem alloc_done {R : Region} {m : Mem} {fuel : Nat} (h : Heap R) (rep : Rep R m h.free h.used)
    (enough : h.free.length < fuel) (size : UInt32)
    (small : (size.toNat + 3) / 4 * 4 + 8 < 4294967296) :
    (h.alloc (Request.of size small) = none ∧ alloc fuel R.base size m = .done 0 m) ∨
    ∃ s h' m', h.alloc (Request.of size small) = some (s, h') ∧
      alloc fuel R.base size m = .done (s.addr + 8) m' ∧ Rep R m' h'.free h'.used ∧
      Touches R (h'.free ++ h'.used) m m' := by
  rcases rep.sized.alloc_done h enough size small (fun _ _ => rfl) (fun _ _ _ => ⟨rfl, rfl⟩) with
    refused | ⟨s, h', m', result, run, sized, touches⟩
  · exact Or.inl refused
  · exact Or.inr ⟨s, h', m', result, run, sized.rep, touches⟩

end Sos.Kernel
