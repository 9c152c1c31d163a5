import Sos.Kernel.HeapRep

/-! Finding a node of a list in memory and taking it out. -/

namespace Sos.Kernel
open Sos.Lib

theorem getLastD_mem (a : UInt32) (l : List UInt32) : l.getLastD a ∈ a :: l := List.getLastD_mem_cons

/-- Both ways to take a node out store its link in the link before it. -/
theorem unlink_done {m : Mem} {list x : UInt32} {pre post : List UInt32}
    (chain : Chain m.load 0 list (pre ++ x :: post)) :
    unlink list x (pre.getLastD 0) m = .done () (m.store (pre.getLastD list) (m.load x)) := by
  unfold unlink
  cases pre with
  | nil =>
    have first : m.load list = x := chain.1
    rw [if_pos (by rfl)]
    simp only [load, store, Prog.get_bind_run, Prog.modify_run, first]
    rfl
  | cons y pre =>
    have valid : pre.getLastD y ≠ 0 := by
      refine chain.ne_null _ ?_
      rcases List.mem_cons.mp (getLastD_mem y pre) with same | member
      · rw [same]
        simp
      · exact List.mem_append_left _ (List.mem_cons_of_mem y member)
    rw [List.getLastD_cons, List.getLastD_cons, if_neg valid]
    simp only [load, store, Prog.get_bind_run, Prog.modify_run]

theorem search_hit {m : Mem} (fuel : Nat) (stop : Mem → UInt32 → Bool) {list x : UInt32}
    {pre post : List UInt32} (chain : Chain m.load 0 list (pre ++ x :: post))
    (enough : pre.length < fuel) (before : ∀ y, y ∈ pre → stop m y = false) (hit : stop m x = true) :
    search fuel stop list m = .done (x, pre.getLastD 0) m := by
  rw [search, walk_hit chain 0 enough before hit]

theorem search_end {m : Mem} (fuel : Nat) (stop : Mem → UInt32 → Bool) {list : UInt32}
    {l : List UInt32} (chain : Chain m.load 0 list l) (enough : l.length < fuel)
    (none : ∀ y, y ∈ l → stop m y = false) :
    search fuel stop list m = .done (0, l.getLastD 0) m := by
  rw [search, walk_end chain 0 enough none]

theorem getLastD_link (list : UInt32) (pre : List Slot) :
    (pre.map Slot.addr).getLastD list = list ∨
      ∃ s, s ∈ pre ∧ (pre.map Slot.addr).getLastD list = s.addr := by
  rcases List.mem_cons.mp (getLastD_mem list (pre.map Slot.addr)) with same | member
  · exact Or.inl same
  · obtain ⟨s, inside, value⟩ := List.mem_map.mp member
    exact Or.inr ⟨s, inside, value.symm⟩

/-- The memory once the link before a node has the node's own. -/
def unlinked (m : Mem) (list : UInt32) (pre : List Slot) (p : Slot) : Mem :=
  m.store ((pre.map Slot.addr).getLastD list) (m.load p.addr)

theorem unlinked_done {m : Mem} {list : UInt32} {pre post : List Slot} {p : Slot}
    (chain : Chain m.load 0 list ((pre ++ p :: post).map Slot.addr)) :
    unlink list p.addr ((pre.map Slot.addr).getLastD 0) m = .done () (unlinked m list pre p) := by
  rw [List.map_append, List.map_cons] at chain
  exact unlink_done chain

theorem prev_link {R : Region} {l pre : List Slot} {list : UInt32} (head : IsLink R l list)
    (member : ∀ s, s ∈ pre → s ∈ l) : IsLink R l ((pre.map Slot.addr).getLastD list) := by
  rcases getLastD_link list pre with same | ⟨s, inside, same⟩
  · rwa [same]
  · exact Or.inr (Or.inr ⟨s, member s inside, same⟩)

section
variable {R : Region} {m : Mem} {l pre post : List Slot} {p : Slot} {list : UInt32}
  (layout : Layout R l) (head : IsLink R l list) (inside : ∀ s, s ∈ pre ++ p :: post → s ∈ l)
include layout head inside

theorem unlinked_link {x : UInt32} (link : IsLink R l x) : (unlinked m list pre p).load x =
    if x = (pre.map Slot.addr).getLastD list then m.load p.addr else m.load x :=
  layout.load_storeLink (prev_link head fun s member => inside s (by simp [member])) link

theorem unlinked_own (chain : Chain m.load 0 list ((pre ++ p :: post).map Slot.addr)) :
    Chain (unlinked m list pre p).load 0 list ((pre ++ post).map Slot.addr) := by
  have prev : IsLink R l ((pre.map Slot.addr).getLastD list) :=
    prev_link head fun s member => inside s (by simp [member])
  have within : ∀ s, s ∈ pre ++ post → s ∈ l := by
    intro s member
    refine inside s ?_
    rcases List.mem_append.mp member with before | behind
    · exact List.mem_append_left _ before
    · exact List.mem_append_right _ (List.mem_cons_of_mem p behind)
  rw [List.map_append, List.map_cons] at chain
  rw [List.map_append]
  refine chain.unlink ?_ ?_
  · rw [unlinked_link layout head inside prev, if_pos rfl]
  · intro y member other
    rw [← List.map_append] at member
    rw [unlinked_link layout head inside (head.of_list within member), if_neg other]

theorem unlinked_other {other : UInt32} {rest : List Slot}
    (chain : Chain m.load 0 other (rest.map Slot.addr))
    (links : ∀ x, x ∈ other :: rest.map Slot.addr → IsLink R l x)
    (apart : ∀ x, x ∈ other :: rest.map Slot.addr → x ≠ (pre.map Slot.addr).getLastD list) :
    Chain (unlinked m list pre p).load 0 other (rest.map Slot.addr) := by
  refine chain.congr ?_
  intro x member
  rw [unlinked_link layout head inside (links x member), if_neg (apart x member)]

theorem unlinked_len {s : Slot} (member : s ∈ l) :
    slotLen (unlinked m list pre p) s.addr = slotLen m s.addr :=
  layout.len_storeLink (prev_link head fun t before => inside t (by simp [before])) member

theorem unlinked_touches : Touches R l m (unlinked m list pre p) :=
  layout.touches_storeLink (prev_link head fun t before => inside t (by simp [before]))

end

/-- The link before a node is the head of the list or one of its nodes. -/
theorem prev_mem {l pre post : List Slot} {p : Slot} (list : UInt32) (split : l = pre ++ p :: post) :
    (pre.map Slot.addr).getLastD list ∈ list :: l.map Slot.addr := by
  rcases getLastD_link list pre with same | ⟨s, before, same⟩
  · rw [same]
    exact List.mem_cons_self
  · rw [same, split]
    exact List.mem_cons_of_mem _ (List.mem_map_of_mem (List.mem_append_left _ before))

theorem Among.left {l free used : List Slot} (among : Among l free used) {s : Slot}
    (member : s ∈ free) : s ∈ l :=
  among.inside s (List.mem_append_left used member)

theorem Among.right {l free used : List Slot} (among : Among l free used) {s : Slot}
    (member : s ∈ used) : s ∈ l :=
  among.inside s (List.mem_append_right free member)

theorem Among.free_link {R : Region} {l free used : List Slot} (among : Among l free used) {x : UInt32}
    (member : x ∈ R.base :: free.map Slot.addr) : IsLink R l x :=
  IsLink.free.of_list (fun _ => among.left) member

theorem Among.used_link {R : Region} {l free used : List Slot} (among : Among l free used) {x : UInt32}
    (member : x ∈ usedList R.base :: used.map Slot.addr) : IsLink R l x :=
  IsLink.used.of_list (fun _ => among.right) member

theorem Layout.among {R : Region} {free used : List Slot} (layout : Layout R (free ++ used)) :
    Among (free ++ used) free used :=
  ⟨layout.1.nodup, fun _ member => member⟩

/-- The links say nothing about lengths. -/
theorem Linked.of_addrs {R : Region} {m : Mem} {free free' used : List Slot}
    (linked : Linked R m free used) (same : free'.map Slot.addr = free.map Slot.addr) :
    Linked R m free' used :=
  ⟨same ▸ linked.freeChain, linked.usedChain⟩

namespace Linked
variable {R : Region} {m : Mem} {l free used : List Slot} (linked : Linked R m free used)
  (layout : Layout R l) (among : Among l free used)
include linked layout among

/-- A length that is written leaves the links. -/
theorem storeLen {s : Slot} (member : s ∈ l) (v : UInt32) :
    Linked R (m.store (s.addr + 4) v) free used where
  freeChain := linked.freeChain.congr fun _ link =>
    layout.load_storeLen member (among.free_link link)
  usedChain := linked.usedChain.congr fun _ link =>
    layout.load_storeLen member (among.used_link link)

/-- The free list without one of its slots. -/
theorem unlinkFree {pre post : List Slot} {p : Slot} (split : free = pre ++ p :: post) :
    Linked R (unlinked m R.base pre p) (pre ++ post) used where
  freeChain := unlinked_own layout IsLink.free (fun _ member => among.left (split ▸ member))
    (split ▸ linked.freeChain)
  usedChain := by
    refine unlinked_other layout IsLink.free (fun _ member => among.left (split ▸ member))
      linked.usedChain (fun _ => among.used_link) ?_
    intro x member
    exact (layout.lists_apart among (prev_mem R.base split) member).symm

/-- The used list without one of its slots. -/
theorem unlinkUsed {pre post : List Slot} {p : Slot} (split : used = pre ++ p :: post) :
    Linked R (unlinked m (usedList R.base) pre p) free (pre ++ post) where
  freeChain := by
    refine unlinked_other layout IsLink.used (fun _ member => among.right (split ▸ member))
      linked.freeChain (fun _ => among.free_link) ?_
    intro x member
    exact layout.lists_apart among member (prev_mem (usedList R.base) split)
  usedChain := unlinked_own layout IsLink.used (fun _ member => among.right (split ▸ member))
    (split ▸ linked.usedChain)

/-- A slot of neither list put in front of the free list. -/
theorem pushFree {s : Slot} (member : s ∈ l) (outside : s ∉ free ++ used) :
    Linked R ((m.store s.addr (m.load R.base)).store R.base s.addr) (s :: free) used := by
  have word : ∀ x, IsLink R l x → ((m.store s.addr (m.load R.base)).store R.base s.addr).load x =
      if x = R.base then s.addr else if x = s.addr then m.load R.base else m.load x := by
    intro x link
    rw [layout.load_storeLink IsLink.free link, layout.load_storeLink (IsLink.slot member) link]
  have heads := layout.addr_ne_heads member
  have differ : ∀ t, t ∈ free ++ used → t.addr ≠ s.addr := by
    intro t inside same
    rw [layout.eq_of_addr (among.inside t inside) member same] at inside
    exact outside inside
  refine ⟨linked.freeChain.push (layout.addr_ne_zero member) ?_ ?_ ?_, linked.usedChain.congr ?_⟩
  · rw [word _ IsLink.free, if_pos rfl]
  · rw [word _ (IsLink.slot member), if_neg heads.1, if_pos rfl]
  · intro x link
    obtain ⟨t, inside, rfl⟩ := List.mem_map.mp link
    rw [word _ (IsLink.slot (among.left inside)), if_neg (layout.addr_ne_heads (among.left inside)).1,
      if_neg (differ t (List.mem_append_left used inside))]
  · intro x link
    rw [word x (among.used_link link)]
    rcases List.mem_cons.mp link with rfl | link
    · rw [if_neg R.usedList_ne, if_neg heads.2.symm]
    · obtain ⟨t, inside, rfl⟩ := List.mem_map.mp link
      rw [if_neg (layout.addr_ne_heads (among.right inside)).1,
        if_neg (differ t (List.mem_append_right free inside))]

end Linked

end Sos.Kernel
