import Sos.Kernel.Heap

/-! The heap in memory: which words the two lists are made of, and what a store to one of
them leaves alone. -/

namespace Sos.Kernel
open Sos.Lib

/-- The two lists in memory, by the addresses of their slots. -/
structure Linked (R : Region) (m : Mem) (free used : List Slot) : Prop where
  freeChain : Chain m.load 0 R.base (free.map Slot.addr)
  usedChain : Chain m.load 0 (usedList R.base) (used.map Slot.addr)

/-- With lengths that need not be those of the slots. -/
structure Sized (R : Region) (len : Slot → UInt32) (m : Mem) (free used : List Slot) : Prop
    extends Linked R m free used where
  lens : ∀ s, s ∈ free ++ used → slotLen m s.addr = len s

/-- The memory holds these two lists. -/
structure Rep (R : Region) (m : Mem) (free used : List Slot) : Prop extends Linked R m free used where
  lens : ∀ s, s ∈ free ++ used → slotLen m s.addr = s.len

/-- The two lists are made of different slots of `l`. -/
structure Among (l free used : List Slot) : Prop where
  once : (free ++ used).Nodup
  inside : ∀ s, s ∈ free ++ used → s ∈ l

/-- A list head or the first word of a slot. -/
def IsLink (R : Region) (l : List Slot) (x : UInt32) : Prop :=
  x = R.base ∨ x = usedList R.base ∨ ∃ s, s ∈ l ∧ x = s.addr

theorem IsLink.free {R : Region} {l : List Slot} : IsLink R l R.base := Or.inl rfl

theorem IsLink.used {R : Region} {l : List Slot} : IsLink R l (usedList R.base) := Or.inr (Or.inl rfl)

theorem IsLink.slot {R : Region} {l : List Slot} {s : Slot} (member : s ∈ l) : IsLink R l s.addr :=
  Or.inr (Or.inr ⟨s, member, rfl⟩)

/-- The links of a list are its head and its slots. -/
theorem IsLink.of_list {R : Region} {l part : List Slot} {list : UInt32} (head : IsLink R l list)
    (inside : ∀ s, s ∈ part → s ∈ l) {x : UInt32} (member : x ∈ list :: part.map Slot.addr) :
    IsLink R l x := by
  rcases List.mem_cons.mp member with rfl | member
  · exact head
  · obtain ⟨s, own, rfl⟩ := List.mem_map.mp member
    exact IsLink.slot (inside s own)

/-- Only list heads and headers differ. -/
def Touches (R : Region) (l : List Slot) (m m' : Mem) : Prop :=
  ∀ x : UInt32, (x.toNat < R.base.toNat ∨ R.lo ≤ x.toNat) →
    (∀ s, s ∈ l → x.toNat < s.addr.toNat ∨ s.addr.toNat + 8 ≤ x.toNat) → m' x = m x

theorem Touches.trans {R : Region} {l : List Slot} {m m' m'' : Mem} (first : Touches R l m m')
    (second : Touches R l m' m'') : Touches R l m m'' := by
  intro x heads headers
  rw [second x heads headers, first x heads headers]

namespace Region
variable (R : Region)

theorem base_toNat_lt : R.base.toNat + 8 < 4294967296 := by
  have enough := R.enough
  have room := R.room
  omega

theorem usedList_toNat : (usedList R.base).toNat = R.base.toNat + 4 := by
  have bound := R.base_toNat_lt
  rw [usedList, UInt32.toNat_add]
  simp
  omega

theorem usedList_aligned : Mem.Aligned (usedList R.base) := R.aligned.add (by decide)

theorem usedList_ne : usedList R.base ≠ R.base := by
  intro same
  have value := R.usedList_toNat
  rw [same] at value
  omega

end Region

namespace Layout
variable {R : Region} {l : List Slot} (layout : Layout R l)
include layout

theorem addr_bounds {s : Slot} (member : s ∈ l) :
    R.base.toNat + 8 ≤ s.addr.toNat ∧ s.addr.toNat + 8 ≤ 4294967296 := by
  have lower := layout.1.lower s member
  have upper := layout.past_le member
  unfold Region.lo Slot.first at lower
  unfold Slot.past at upper
  omega

theorem len_toNat {s : Slot} (member : s ∈ l) : (s.addr + 4).toNat = s.addr.toNat + 4 := by
  have bounds := layout.addr_bounds member
  rw [UInt32.toNat_add]
  simp
  omega

theorem len_aligned {s : Slot} (member : s ∈ l) : Mem.Aligned (s.addr + 4) :=
  (layout.2 s member).add (by decide)

theorem addr_ne_zero {s : Slot} (member : s ∈ l) : s.addr ≠ 0 := by
  intro zero
  have bounds := layout.addr_bounds member
  rw [zero] at bounds
  simp at bounds

theorem addr_ne_heads {s : Slot} (member : s ∈ l) : s.addr ≠ R.base ∧ s.addr ≠ usedList R.base := by
  have bounds := layout.addr_bounds member
  have second := R.usedList_toNat
  constructor
  · intro same
    rw [same] at bounds
    omega
  · intro same
    rw [same] at bounds
    omega

/-- A slot is known by its address. -/
theorem eq_of_addr {s t : Slot} (hs : s ∈ l) (ht : t ∈ l) (same : s.addr = t.addr) : s = t :=
  layout.1.eq_of_first hs ht (congrArg UInt32.toNat same)

theorem link_aligned {x : UInt32} (link : IsLink R l x) : Mem.Aligned x := by
  rcases link with rfl | rfl | ⟨s, member, rfl⟩
  · exact R.aligned
  · exact R.usedList_aligned
  · exact layout.2 s member

/-- The two lists have no link in common. -/
theorem lists_apart {free used : List Slot} (among : Among l free used) {x y : UInt32}
    (hx : x ∈ R.base :: free.map Slot.addr) (hy : y ∈ usedList R.base :: used.map Slot.addr) :
    x ≠ y := by
  rcases List.mem_cons.mp hx with rfl | hx
  · rcases List.mem_cons.mp hy with rfl | hy
    · exact R.usedList_ne.symm
    · obtain ⟨t, memberT, rfl⟩ := List.mem_map.mp hy
      exact (layout.addr_ne_heads (among.inside t (List.mem_append_right free memberT))).1.symm
  · obtain ⟨s, memberS, rfl⟩ := List.mem_map.mp hx
    have insideS := among.inside s (List.mem_append_left used memberS)
    rcases List.mem_cons.mp hy with rfl | hy
    · exact (layout.addr_ne_heads insideS).2
    · obtain ⟨t, memberT, rfl⟩ := List.mem_map.mp hy
      have insideT := among.inside t (List.mem_append_right free memberT)
      intro same
      exact (List.nodup_append.mp among.once).2.2 s memberS t memberT
        (layout.eq_of_addr insideS insideT same)

/-- Links and lengths are different words. -/
theorem link_ne_len {x : UInt32} (link : IsLink R l x) {s : Slot} (member : s ∈ l) : x ≠ s.addr + 4 := by
  have bounds := layout.addr_bounds member
  have len := layout.len_toNat member
  have second := R.usedList_toNat
  intro same
  have value := congrArg UInt32.toNat same
  rw [len] at value
  rcases link with rfl | rfl | ⟨t, memberT, rfl⟩
  · omega
  · omega
  · by_cases self : s = t
    · subst self
      omega
    · have apart := layout.1.apart_of_ne member memberT self
      unfold Slot.past Slot.first at apart
      omega

theorem load_storeLink {m : Mem} {x y v : UInt32} (store : IsLink R l x) (read : IsLink R l y) :
    (m.store x v).load y = if y = x then v else m.load y :=
  Mem.load_store v (layout.link_aligned store) (layout.link_aligned read)

theorem len_storeLink {m : Mem} {x v : UInt32} (store : IsLink R l x) {s : Slot} (member : s ∈ l) :
    slotLen (m.store x v) s.addr = slotLen m s.addr :=
  Mem.load_store_ne v (layout.link_aligned store) (layout.len_aligned member)
    (layout.link_ne_len store member).symm

theorem load_storeLen {m : Mem} {s : Slot} {v y : UInt32} (member : s ∈ l) (read : IsLink R l y) :
    (m.store (s.addr + 4) v).load y = m.load y :=
  Mem.load_store_ne v (layout.len_aligned member) (layout.link_aligned read)
    (layout.link_ne_len read member)

theorem len_storeLen {m : Mem} {s t : Slot} {v : UInt32} (hs : s ∈ l) (ht : t ∈ l) :
    slotLen (m.store (s.addr + 4) v) t.addr = if t = s then v else slotLen m t.addr := by
  unfold slotLen
  rw [Mem.load_store v (layout.len_aligned hs) (layout.len_aligned ht)]
  by_cases same : t = s
  · rw [if_pos same, if_pos (by rw [same])]
  · rw [if_neg same, if_neg]
    intro equal
    exact same (layout.eq_of_addr ht hs (by simpa using equal))

theorem touches_storeLink {m : Mem} {x v : UInt32} (store : IsLink R l x) :
    Touches R l m (m.store x v) := by
  intro y heads headers
  have second := R.usedList_toNat
  have room := (layout.link_aligned store).room
  refine Mem.store_outside m v room ?_
  unfold Region.lo at heads
  rcases store with rfl | rfl | ⟨s, member, rfl⟩
  · omega
  · omega
  · have outside := headers s member
    omega

theorem touches_storeLen {m : Mem} {s : Slot} {v : UInt32} (member : s ∈ l) :
    Touches R l m (m.store (s.addr + 4) v) := by
  intro y heads headers
  have len := layout.len_toNat member
  have outside := headers s member
  exact Mem.store_outside m v (layout.len_aligned member).room (by omega)

/-- The data of a slot is clear of every header. -/
theorem data_clear {s : Slot} (member : s ∈ l) {x : UInt32} (data : s.Has x) :
    (x.toNat < R.base.toNat ∨ R.lo ≤ x.toNat) ∧
      ∀ t, t ∈ l → x.toNat < t.addr.toNat ∨ t.addr.toNat + 8 ≤ x.toNat := by
  have bounds := layout.addr_bounds member
  unfold Slot.Has at data
  refine ⟨by unfold Region.lo; omega, ?_⟩
  intro t memberT
  by_cases self : s = t
  · subst self
    omega
  · have apart := layout.1.apart_of_ne member memberT self
    unfold Slot.past Slot.first at apart
    unfold Slot.past at data
    omega

end Layout

theorem Touches.data {R : Region} {l : List Slot} {m m' : Mem} (touches : Touches R l m m')
    (layout : Layout R l) {s : Slot} (member : s ∈ l) {x : UInt32} (data : s.Has x) : m' x = m x := by
  obtain ⟨heads, headers⟩ := layout.data_clear member data
  exact touches x heads headers

theorem Rep.sized {R : Region} {m : Mem} {free used : List Slot} (rep : Rep R m free used) :
    Sized R Slot.len m free used := ⟨rep.toLinked, rep.lens⟩

theorem Sized.rep {R : Region} {m : Mem} {free used : List Slot} (sized : Sized R Slot.len m free used) :
    Rep R m free used := ⟨sized.toLinked, sized.lens⟩

/-- The representation reads list heads and headers only. -/
theorem Sized.congr {R : Region} {len : Slot → UInt32} {m m' : Mem} {free used : List Slot}
    (sized : Sized R len m free used) (layout : Layout R (free ++ used))
    (same : ∀ x : UInt32, R.base.toNat ≤ x.toNat → x.toNat < R.lo ∨
      (∃ s, s ∈ free ++ used ∧ s.addr.toNat ≤ x.toNat ∧ x.toNat < s.addr.toNat + 8) → m' x = m x) :
    Sized R len m' free used := by
  have link : ∀ x, IsLink R (free ++ used) x → m'.load x = m.load x := by
    intro x isLink
    have second := R.usedList_toNat
    refine Mem.load_congr (layout.link_aligned isLink).room ?_
    intro y lower upper
    rcases isLink with rfl | rfl | ⟨s, member, rfl⟩
    · exact same y lower (Or.inl (by unfold Region.lo; omega))
    · exact same y (by omega) (Or.inl (by unfold Region.lo; omega))
    · have bounds := layout.addr_bounds member
      exact same y (by omega) (Or.inr ⟨s, member, lower, by omega⟩)
  refine ⟨⟨sized.freeChain.congr ?_, sized.usedChain.congr ?_⟩, ?_⟩
  · intro x member
    refine link x ?_
    rcases List.mem_cons.mp member with rfl | member
    · exact Or.inl rfl
    · obtain ⟨s, inside, rfl⟩ := List.mem_map.mp member
      exact Or.inr (Or.inr ⟨s, List.mem_append_left used inside, rfl⟩)
  · intro x member
    refine link x ?_
    rcases List.mem_cons.mp member with rfl | member
    · exact Or.inr (Or.inl rfl)
    · obtain ⟨s, inside, rfl⟩ := List.mem_map.mp member
      exact Or.inr (Or.inr ⟨s, List.mem_append_right free inside, rfl⟩)
  · intro s member
    rw [← sized.lens s member]
    have len := layout.len_toNat member
    have bounds := layout.addr_bounds member
    refine Mem.load_congr (layout.len_aligned member).room ?_
    intro y lower upper
    exact same y (by omega) (Or.inr ⟨s, member, by omega, by omega⟩)

theorem Rep.congr {R : Region} {m m' : Mem} {free used : List Slot} (rep : Rep R m free used)
    (layout : Layout R (free ++ used))
    (same : ∀ x : UInt32, R.base.toNat ≤ x.toNat → x.toNat < R.lo ∨
      (∃ s, s ∈ free ++ used ∧ s.addr.toNat ≤ x.toNat ∧ x.toNat < s.addr.toNat + 8) → m' x = m x) :
    Rep R m' free used := (rep.sized.congr layout same).rep

end Sos.Kernel
