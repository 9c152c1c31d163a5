import Sos.Kernel.Machine
import Sos.Kernel.HeapRuns

/-! `kalloc` and `kfree` on the kernel's heap. -/

namespace Sos.Kernel
open Sos.Lib Machine

theorem kalloc_mem {fuel : Nat} {size p : UInt32} {s u : Machine} (run : kalloc fuel size s = .done p u) :
    ∃ m, u = s.withMem m := by
  unfold kalloc at run
  split at run
  · obtain ⟨m, -, same⟩ := Prog.of_zoom_done run
    exact ⟨m, same⟩
  · rw [Outcome.done.injEq] at run
    exact ⟨s.mem, run.2.symm⟩

/-- The kernel's heap is the heap of two lists `h`. -/
structure Hosts {R : Region} (s : Machine) (h : Heap R) : Prop where
  base : s.kallocBase = R.base
  inited : s.kallocInited = true
  rep : Rep R s.mem h.free h.used

namespace Hosts
variable {R : Region} {s : Machine} {h : Heap R} (hosts : Hosts s h)
include hosts

/-- Stores that leave list heads and headers alone. -/
theorem congr {t : Machine} (base : t.kallocBase = s.kallocBase) (inited : t.kallocInited = s.kallocInited)
    (same : ∀ x : UInt32, R.base.toNat ≤ x.toNat → x.toNat < R.hi →
      (∀ b, b ∈ h.free ++ h.used → ¬b.Has x) → t.mem x = s.mem x) : Hosts t h where
  base := base.trans hosts.base
  inited := inited.trans hosts.inited
  rep := by
    refine hosts.rep.congr h.layout ?_
    intro x lower header
    have enough := R.enough
    rcases header with head | ⟨c, listed, above, below⟩
    · refine same x lower (by unfold Region.lo at head; unfold Region.hi; omega) ?_
      intro b member data
      obtain ⟨heads, -⟩ := h.layout.data_clear member data
      omega
    · have upper := h.layout.1.upper c listed
      refine same x lower (by unfold Slot.past at upper; omega) ?_
      intro b member data
      obtain ⟨-, headers⟩ := h.layout.data_clear member data
      have outside := headers c listed
      omega

theorem kalloc_done {fuel : Nat} (enough : R.length.toNat / 8 < fuel) {size : UInt32}
    (small : (size.toNat + 3) / 4 * 4 + 8 < 4294967296) :
    (h.alloc (Request.of size small) = none ∧ kalloc fuel size s = .done 0 s) ∨
    ∃ b h' m', h.alloc (Request.of size small) = some (b, h') ∧
      kalloc fuel size s = .done (b.addr + 8) (s.withMem m') ∧
      Hosts (s.withMem m') h' ∧ Touches R (h'.free ++ h'.used) s.mem m' := by
  have steps : h.free.length < fuel := by
    have count := h.layout.among_left
    omega
  rcases alloc_done h hosts.rep steps size small with ⟨none, run⟩ |
    ⟨b, h', m', result, run, rep, touches⟩
  · left
    refine ⟨none, ?_⟩
    rw [kalloc, if_pos hosts.inited, hosts.base]
    exact Prog.zoom_done run
  · right
    refine ⟨b, h', m', result, ?_, ⟨hosts.base, hosts.inited, rep⟩, touches⟩
    rw [kalloc, if_pos hosts.inited, hosts.base]
    exact Prog.zoom_done run

theorem kfree_done {fuel : Nat} (enough : R.length.toNat / 8 < fuel) (slot : UInt32) :
    (h.release (slot - 8) = none ∧ ∀ unheld, kfree unheld fuel slot s = unheld s) ∨
    ∃ h' m', h.release (slot - 8) = some h' ∧
      (∀ unheld, kfree unheld fuel slot s = .done () (s.withMem m')) ∧
      Hosts (s.withMem m') h' ∧ Touches R (h.free ++ h.used) s.mem m' := by
  have steps : (h.free ++ h.used).length < fuel := by
    have count := h.layout.length_le
    omega
  rcases free_done h hosts.rep steps slot with ⟨none, run⟩ | ⟨h', m', result, run, rep, touches⟩
  · left
    have first : onMem (free fuel R.base slot) s = .done retFailure s := Prog.zoom_done run
    refine ⟨none, fun unheld => ?_⟩
    rw [kfree, if_pos hosts.inited, hosts.base, Prog.bind_done _ first]
    exact congrFun (if_pos rfl) s
  · right
    have first : onMem (free fuel R.base slot) s = .done retSuccess (s.withMem m') :=
      Prog.zoom_done run
    refine ⟨h', m', result, fun unheld => ?_, ⟨hosts.base, hosts.inited, rep⟩, touches⟩
    rw [kfree, if_pos hosts.inited, hosts.base, Prog.bind_done _ first]
    exact congrFun (if_neg (by decide)) (s.withMem m')

end Hosts

end Sos.Kernel
