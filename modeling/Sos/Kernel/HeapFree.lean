import Sos.Kernel.HeapAdjacent

/-! `free` gives a slot back and joins it with its free neighbours. -/

namespace Sos.Kernel
open Sos.Lib

/-- The part of `free` behind the walk over the free list. -/
def merge (base f : UInt32) (found : Adjacent) : Prog Mem Int := do
  if found.before ≠ 0 then
    setLen found.before ((← load (found.before + 4)) + (8 + (← load (f + 4))))
  let f := if found.before ≠ 0 then found.before else f
  if found.after ≠ 0 then
    setLen f ((← load (f + 4)) + (8 + (← load (found.after + 4))))
    unlink base found.after found.afterPrev
  if found.before = 0 then
    store f (← load base)
    store base f
  return retSuccess

theorem free_eq (fuel : Nat) (base slot : UInt32) : free fuel base slot = (do
    let (p, j) ← search fuel (fun _ p => p = slot - 8) (usedList base)
    if p = 0 then return retFailure
    unlink (usedList base) p j
    let found ← adjacent fuel base (slot - 8)
    merge base (slot - 8) found) := rfl

theorem mem_of_without {free rest pre post : List Slot} {p s : Slot} (split : free = pre ++ p :: post)
    (member : s ∈ (pre ++ post) ++ rest) : s ∈ free ++ rest := by
  rw [split]
  simp only [List.mem_append, List.mem_cons] at member ⊢
  tauto

theorem Among.without {l free rest pre post : List Slot} {p : Slot} (among : Among l free rest)
    (split : free = pre ++ p :: post) : Among l (pre ++ post) rest where
  once := by
    refine among.once.sublist (List.Sublist.append_right ?_ rest)
    rw [split]
    exact List.Sublist.append_left (List.sublist_cons_self p post) pre
  inside := fun s member => among.inside s (mem_of_without split member)

theorem replace_addrs {l : List Slot} {b b' : Slot} (same : b'.addr = b.addr) :
    (l.map fun x => if x = b then b' else x).map Slot.addr = l.map Slot.addr := by
  rw [List.map_map]
  apply List.map_congr_left
  intro x member
  by_cases hit : x = b
  · simp [hit, same]
  · simp [hit]

theorem replace_mem {l free rest : List Slot} {b b' t : Slot} (among : Among l free rest)
    (member : b ∈ free) (listed : t ∈ (free.map fun x => if x = b then b' else x) ++ rest) :
    t = b' ∨ t ∈ free ++ rest ∧ t ≠ b := by
  rcases List.mem_append.mp listed with left | right
  · obtain ⟨x, inside, value⟩ := List.mem_map.mp left
    by_cases hit : x = b
    · left
      rw [← value, if_pos hit]
    · right
      rw [if_neg hit] at value
      subst value
      exact ⟨List.mem_append_left rest inside, hit⟩
  · right
    refine ⟨List.mem_append_right free right, ?_⟩
    exact fun same => (List.nodup_append.mp among.once).2.2 b member t right same.symm

section
variable {R : Region} {len : Slot → UInt32} {m : Mem} {l free rest : List Slot} {s : Slot} (layout : Layout R l)
  (linked : Linked R m free rest) (among : Among l free rest)
  (lens : ∀ t, t ∈ l → slotLen m t.addr = len t) (member : s ∈ l)
include layout linked among lens member

theorem merge_alone (outside : s ∉ free ++ rest) (p : UInt32) : ∃ m',
    merge R.base s.addr ⟨0, 0, p⟩ m = .done retSuccess m' ∧ Sized R len m' (s :: free) rest ∧
      Touches R l m m' := by
  refine ⟨(m.store s.addr (m.load R.base)).store R.base s.addr, rfl,
    ⟨linked.pushFree layout among member outside, ?_⟩, ?_⟩
  · intro t inside
    have inside' : t ∈ l := by
      rcases List.mem_append.mp inside with left | right
      · rcases List.mem_cons.mp left with rfl | left
        · exact member
        · exact among.left left
      · exact among.right right
    rw [layout.len_storeLink IsLink.free inside', layout.len_storeLink (IsLink.slot member) inside',
      lens t inside']
  · exact (layout.touches_storeLink (IsLink.slot member)).trans
      (layout.touches_storeLink IsLink.free)

theorem merge_after {pre post : List Slot} {a : Slot} (outside : s ∉ free ++ rest)
    (split : free = pre ++ a :: post) (whole : len (s.join a) = len s + (8 + len a)) : ∃ m',
    merge R.base s.addr ⟨0, a.addr, (pre.map Slot.addr).getLastD 0⟩ m = .done retSuccess m' ∧
      Sized R len m' (s.join a :: (pre ++ post)) rest ∧ Touches R l m m' := by
  have memberA : a ∈ l := among.left (by rw [split]; simp)
  have valid : a.addr ≠ 0 := layout.addr_ne_zero memberA
  have inside : ∀ t, t ∈ pre ++ a :: post → t ∈ l := fun t link => among.left (split ▸ link)
  have lenS : m.load (s.addr + 4) = len s := lens s member
  have lenA : m.load (a.addr + 4) = len a := lens a memberA
  have linked₂ := linked.storeLen layout among member (len s + (8 + len a))
  have run := unlinked_done (split ▸ linked₂.freeChain)
  have among₃ := among.without split
  have outside₃ : s ∉ (pre ++ post) ++ rest := fun again => outside (mem_of_without split again)
  have linked₃ := linked₂.unlinkFree layout among split
  have linked₄ := linked₃.pushFree layout among₃ member outside₃
  have touches : Touches R l m (unlinked (m.store (s.addr + 4) (len s + (8 + len a))) R.base pre a) :=
    (layout.touches_storeLen member).trans (unlinked_touches layout IsLink.free inside)
  refine ⟨_, ?_, ⟨linked₄.of_addrs rfl, ?_⟩, ?_⟩
  · unfold merge
    simp only [load, setLen, store, ne_eq, not_true_eq_false, if_false, valid, not_false_eq_true,
      if_true, Prog.get_bind_run, Prog.modify_bind_run, lenS, lenA]
    rw [Prog.bind_done _ run]
    rfl
  · have value : ∀ t, t ∈ l → slotLen (((unlinked (m.store (s.addr + 4) (len s + (8 + len a))) R.base
        pre a).store s.addr ((unlinked (m.store (s.addr + 4) (len s + (8 + len a))) R.base pre a).load
          R.base)).store R.base s.addr) t.addr = if t = s then len s + (8 + len a) else len t := by
      intro t link
      rw [layout.len_storeLink IsLink.free link, layout.len_storeLink (IsLink.slot member) link,
        unlinked_len layout IsLink.free inside link, layout.len_storeLen member link, lens t link]
    intro t listed
    rcases List.mem_cons.mp listed with rfl | other
    · exact ((value s member).trans (if_pos rfl)).trans whole.symm
    · rw [value t (among₃.inside t other), if_neg]
      rintro rfl
      exact outside₃ other
  · exact (touches.trans (layout.touches_storeLink (IsLink.slot member))).trans
      (layout.touches_storeLink IsLink.free)

theorem merge_before {b : Slot} (memberB : b ∈ free) (p : UInt32)
    (whole : len (b.join s) = len b + (8 + len s)) : ∃ m',
    merge R.base s.addr ⟨b.addr, 0, p⟩ m = .done retSuccess m' ∧
      Sized R len m' (free.map fun x => if x = b then b.join s else x) rest ∧ Touches R l m m' := by
  have insideB : b ∈ l := among.left memberB
  have valid : b.addr ≠ 0 := layout.addr_ne_zero insideB
  have lenS : m.load (s.addr + 4) = len s := lens s member
  have lenB : m.load (b.addr + 4) = len b := lens b insideB
  have linked₂ := linked.storeLen layout among insideB (len b + (8 + len s))
  refine ⟨m.store (b.addr + 4) (len b + (8 + len s)), ?_, ⟨linked₂.of_addrs (replace_addrs rfl), ?_⟩,
    layout.touches_storeLen insideB⟩
  · unfold merge
    simp only [load, setLen, store, ne_eq, not_true_eq_false, if_false, valid, not_false_eq_true,
      if_true, Prog.get_bind_run, Prog.modify_bind_run, lenS, lenB]
    rfl
  · intro t listed
    rcases replace_mem among memberB listed with rfl | ⟨other, differ⟩
    · exact ((layout.len_storeLen insideB insideB).trans (if_pos rfl)).trans whole.symm
    · rw [layout.len_storeLen insideB (among.inside t other), if_neg differ,
        lens t (among.inside t other)]

theorem merge_both {pre post : List Slot} {a b : Slot} (memberB : b ∈ pre ++ post) (differ : b ≠ a)
    (split : free = pre ++ a :: post) (whole : len ((b.join s).join a) = len b + (8 + len s) + (8 + len a)) : ∃ m',
    merge R.base s.addr ⟨b.addr, a.addr, (pre.map Slot.addr).getLastD 0⟩ m = .done retSuccess m' ∧
      Sized R len m' ((pre ++ post).map fun x => if x = b then (b.join s).join a else x) rest ∧
      Touches R l m m' := by
  have memberA : a ∈ l := among.left (by rw [split]; simp)
  have among₃ := among.without split
  have insideB : b ∈ l := among₃.left memberB
  have validA : a.addr ≠ 0 := layout.addr_ne_zero memberA
  have validB : b.addr ≠ 0 := layout.addr_ne_zero insideB
  have inside : ∀ t, t ∈ pre ++ a :: post → t ∈ l := fun t link => among.left (split ▸ link)
  have lenS : m.load (s.addr + 4) = len s := lens s member
  have lenB : m.load (b.addr + 4) = len b := lens b insideB
  have lenB₂ : ∀ v, (m.store (b.addr + 4) v).load (b.addr + 4) = v := fun v =>
    Mem.load_store_same m _ v
  have lenA : ∀ v, (m.store (b.addr + 4) v).load (a.addr + 4) = len a := by
    intro v
    refine (layout.len_storeLen insideB memberA).trans ?_
    rw [if_neg differ.symm, lens a memberA]
  have linked₂ := linked.storeLen layout among insideB (len b + (8 + len s) + (8 + len a))
  have run := unlinked_done (split ▸ linked₂.freeChain)
  have linked₃ := linked₂.unlinkFree layout among split
  refine ⟨unlinked (m.store (b.addr + 4) (len b + (8 + len s) + (8 + len a))) R.base pre a, ?_,
    ⟨linked₃.of_addrs (replace_addrs rfl), ?_⟩,
    (layout.touches_storeLen insideB).trans (unlinked_touches layout IsLink.free inside)⟩
  · unfold merge
    simp only [load, setLen, store, ne_eq, validA, validB, not_false_eq_true, if_true, if_false,
      Prog.get_bind_run, Prog.modify_bind_run, lenS, lenB, lenB₂, lenA, Mem.store_store]
    rw [Prog.bind_done _ run]
    rfl
  · intro t listed
    rcases replace_mem among₃ memberB listed with rfl | ⟨other, apart⟩
    · refine (unlinked_len layout IsLink.free inside insideB).trans ?_
      exact ((layout.len_storeLen insideB insideB).trans (if_pos rfl)).trans whole.symm
    · have link := among₃.inside t other
      rw [unlinked_len layout IsLink.free inside link, layout.len_storeLen insideB link,
        if_neg apart, lens t link]

end

/-- What giving back comes to. -/
theorem Heap.release_cases {R : Region} (h : Heap R) (f : UInt32) :
    (h.release f = none ∧ ∀ s, s ∈ h.used → s.addr ≠ f) ∨
    ∃ pre s post h', h.used = pre ++ s :: post ∧ (∀ t, t ∈ pre → t.addr ≠ f) ∧ s.addr = f ∧
      h.release f = some h' ∧ h'.free = putBack h.free s ∧ h'.used = pre ++ post := by
  unfold Heap.release
  split
  next missing =>
    left
    refine ⟨rfl, fun s member => ?_⟩
    simpa using List.find?_eq_none.mp missing s member
  next s found =>
    right
    obtain ⟨hit, pre, post, split, before⟩ := List.find?_eq_some_iff_append.mp found
    have before' : ∀ t, t ∈ pre → t.addr ≠ f := fun t member => by simpa using before t member
    have same : s.addr = f := by simpa using hit
    have outside : s ∉ pre := fun member => before' s member same
    refine ⟨pre, s, post, _, split, before', same, rfl, rfl, ?_⟩
    change h.used.erase s = _
    rw [split, List.erase_append_right _ outside, List.erase_cons_head]

theorem erase_split {l pre post : List Slot} {a : Slot} (once : l.Nodup) (split : l = pre ++ a :: post) :
    l.erase a = pre ++ post := by
  subst split
  have outside : a ∉ pre := fun early =>
    (List.nodup_append.mp once).2.2 a early a List.mem_cons_self rfl
  rw [List.erase_append_right _ outside, List.erase_cons_head]

/-- Two neighbours have the length in memory that `free` gives them. -/
def Whole (l : List Slot) (len : Slot → UInt32) : Prop :=
  ∀ s t, t ∈ l → s.past = t.first → len (s.join t) = len s + (8 + len t)

theorem Layout.join_past {R : Region} {l : List Slot} (layout : Layout R l) {s t : Slot} (member : t ∈ l)
    (next : s.past = t.first) : (s.join t).past = t.past := by
  have bound := layout.past_le member
  unfold Slot.past Slot.first at next
  unfold Slot.past at bound
  have len : (s.join t).len.toNat = s.len.toNat + (8 + t.len.toNat) := by
    rw [Slot.join, UInt32.toNat_add, UInt32.toNat_add]
    simp
    omega
  unfold Slot.past
  rw [len]
  simp only [Slot.join]
  omega

/-- All four ways to put a slot back. -/
theorem merge_done {R : Region} {len : Slot → UInt32} {m : Mem} {l free rest : List Slot} {s : Slot}
    {found : Adjacent} (layout : Layout R l) (linked : Linked R m free rest) (among : Among l free rest)
    (lens : ∀ t, t ∈ l → slotLen m t.addr = len t) (whole : Whole l len) (member : s ∈ l)
    (outside : s ∉ free ++ rest) (adjacent : Found free s 0 ⟨0, 0, 0⟩ found) : ∃ m',
    merge R.base s.addr found m = .done retSuccess m' ∧ Sized R len m' (Heap.putBack free s) rest ∧
      Touches R l m m' := by
  obtain ⟨before, after, afterPrev⟩ := found
  have valueB : before = ((Heap.before free s).map Slot.addr).getD 0 := adjacent.before
  have valueA : after = ((Heap.after free s).map Slot.addr).getD 0 := adjacent.after
  have once : free.Nodup := (List.nodup_append.mp among.once).1
  unfold Heap.putBack
  cases findB : Heap.before free s with
  | none =>
    rw [findB] at valueB
    subst valueB
    cases findA : Heap.after free s with
    | none =>
      rw [findA] at valueA
      subst valueA
      exact merge_alone layout linked among lens member outside afterPrev
    | some a =>
      rw [findA] at valueA
      subst valueA
      obtain ⟨memberA, nextA⟩ := Heap.of_after findA
      obtain ⟨pre, post, split⟩ := List.append_of_mem memberA
      have prev : afterPrev = _ := adjacent.afterPrev pre a post findA split
      subst prev
      simp only [erase_split once split]
      exact merge_after layout linked among lens member outside split (whole s a (among.left memberA) nextA)
  | some b =>
    obtain ⟨memberB, nextB⟩ := Heap.of_before findB
    rw [findB] at valueB
    subst valueB
    cases findA : Heap.after free s with
    | none =>
      rw [findA] at valueA
      subst valueA
      exact merge_before layout linked among lens member memberB afterPrev (whole b s member nextB)
    | some a =>
      rw [findA] at valueA
      subst valueA
      obtain ⟨memberA, nextA⟩ := Heap.of_after findA
      obtain ⟨pre, post, split⟩ := List.append_of_mem memberA
      have prev : afterPrev = _ := adjacent.afterPrev pre a post findA split
      subst prev
      have differ : b ≠ a := by
        rintro rfl
        exact layout.one_side member (among.left memberB) nextB nextA
      have rest : b ∈ pre ++ post := by
        rw [← erase_split once split]
        exact (List.mem_erase_of_ne differ).mpr memberB
      have next : (b.join s).past = a.first := (layout.join_past member nextB).trans nextA
      have both : len ((b.join s).join a) = len b + (8 + len s) + (8 + len a) := by
        rw [whole (b.join s) a (among.left memberA) next, whole b s member nextB]
      simp only [erase_split once split]
      exact merge_both layout linked among lens member rest differ split both

/-- `free` follows the heap of two lists as far as the lengths in memory tell the same neighbours, and are joined
in the same way. -/
theorem Sized.free_done {R : Region} {len : Slot → UInt32} {m : Mem} {fuel : Nat} (h : Heap R)
    (sized : Sized R len m h.free h.used) (enough : (h.free ++ h.used).length < fuel)
    (whole : Whole (h.free ++ h.used) len)
    (ends : ∀ s t, s ∈ h.free ++ h.used → t ∈ h.free ++ h.used →
      (s.addr + 8 + len s = t.addr ↔ s.past = t.first)) (slot : UInt32) :
    (h.release (slot - 8) = none ∧ free fuel R.base slot m = .done retFailure m) ∨
    ∃ h' m', h.release (slot - 8) = some h' ∧ free fuel R.base slot m = .done retSuccess m' ∧
      Sized R len m' h'.free h'.used ∧ Touches R (h.free ++ h.used) m m' := by
  rw [List.length_append] at enough
  rcases h.release_cases (slot - 8) with ⟨result, none⟩ |
    ⟨pre, s, post, h', split, before, same, result, free, used⟩
  · left
    refine ⟨result, ?_⟩
    have missed := search_end fuel (fun _ p => p = slot - 8) sized.usedChain
      (by rw [List.length_map]; omega) (by
        intro y member
        obtain ⟨s, inside, rfl⟩ := List.mem_map.mp member
        simpa using none s inside)
    rw [free_eq, Prog.bind_done _ missed]
    rfl
  · right
    have member : s ∈ h.free ++ h.used := by simp [split]
    have chain := sized.usedChain
    rw [split, List.map_append, List.map_cons] at chain
    have hit := search_hit fuel (fun _ p => p = slot - 8) chain
      (by
        rw [split] at enough
        simp at enough ⊢
        omega)
      (by
        intro y inside
        obtain ⟨t, early, rfl⟩ := List.mem_map.mp inside
        simpa using before t early)
      (by simpa using same)
    have within : ∀ t, t ∈ pre ++ s :: post → t ∈ h.free ++ h.used :=
      fun t link => List.mem_append_right h.free (split ▸ link)
    have linked := sized.toLinked.unlinkUsed h.layout h.layout.among split
    have lens : ∀ t, t ∈ h.free ++ h.used →
        slotLen (unlinked m (usedList R.base) pre s) t.addr = len t := by
      intro t inside
      rw [unlinked_len h.layout IsLink.used within inside, sized.lens t inside]
    have once := h.layout.1.nodup
    rw [split] at once
    have order : (h.free ++ (pre ++ s :: post)).Perm (s :: (h.free ++ (pre ++ post))) := by
      rw [← List.append_assoc, ← List.append_assoc]
      exact List.perm_middle
    obtain ⟨outside, once'⟩ := List.nodup_cons.mp (order.nodup_iff.mp once)
    have among : Among (h.free ++ h.used) h.free (pre ++ post) := by
      refine ⟨once', fun t inside => ?_⟩
      rw [split]
      exact order.mem_iff.mpr (List.mem_cons_of_mem s inside)
    have blocks : ∀ t, t ∈ h.free →
        (blockEnd (unlinked m (usedList R.base) pre s) t.addr = s.addr ↔ t.past = s.first) ∧
        (blockEnd (unlinked m (usedList R.base) pre s) s.addr = t.addr ↔ s.past = t.first) := by
      intro t inside
      have link := List.mem_append_left h.used inside
      unfold blockEnd
      rw [lens t link, lens s member]
      exact ⟨ends t s link member, ends s t member link⟩
    obtain ⟨found, walked, adjacent⟩ := findAdjacent_done h.layout member linked.freeChain
      (fun t inside => List.mem_append_left h.used inside) blocks (List.nodup_append.mp once).1 fuel (by omega) 0
      ⟨0, 0, 0⟩
    have neighbours : Sos.Kernel.adjacent fuel R.base s.addr (unlinked m (usedList R.base) pre s) =
        .done found (unlinked m (usedList R.base) pre s) := by
      rw [Sos.Kernel.adjacent, walked]
    obtain ⟨m', run, sized', touches⟩ := merge_done h.layout linked among lens whole member outside adjacent
    refine ⟨h', m', result, ?_, ?_, (unlinked_touches h.layout IsLink.used within).trans touches⟩
    · have valid : s.addr ≠ 0 := h.layout.addr_ne_zero member
      rw [free_eq, Prog.bind_done _ hit]
      simp only [if_neg valid]
      rw [Prog.bind_done _ (unlinked_done (split ▸ sized.usedChain)), ← same, Prog.bind_done _ neighbours]
      exact run
    · rw [free, used]
      exact sized'

/-- `free` follows the heap of two lists, and writes nothing but list heads and the
headers of the slots there were. -/
theorem free_done {R : Region} {m : Mem} {fuel : Nat} (h : Heap R) (rep : Rep R m h.free h.used)
    (enough : (h.free ++ h.used).length < fuel) (slot : UInt32) :
    (h.release (slot - 8) = none ∧ free fuel R.base slot m = .done retFailure m) ∨
    ∃ h' m', h.release (slot - 8) = some h' ∧ free fuel R.base slot m = .done retSuccess m' ∧
      Rep R m' h'.free h'.used ∧ Touches R (h.free ++ h.used) m m' := by
  rcases rep.sized.free_done h enough (fun _ _ _ _ => rfl) (fun _ _ hs ht => h.layout.end_iff hs ht) slot with
    refused | ⟨h', m', result, run, sized, touches⟩
  · exact Or.inl refused
  · exact Or.inr ⟨h', m', result, run, sized.rep, touches⟩

end Sos.Kernel
