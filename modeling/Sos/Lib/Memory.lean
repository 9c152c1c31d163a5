import Sos.Lib.Bytes

/-! A 32-bit byte memory with little-endian words. Words at aligned addresses behave as
independent cells. -/

namespace Sos.Lib
open Sos.Lib.Bytes

abbrev Mem := UInt32 → UInt8

namespace Mem

def load (m : Mem) (a : UInt32) : UInt32 := wordOf (m a) (m (a + 1)) (m (a + 2)) (m (a + 3))

def store (m : Mem) (a v : UInt32) : Mem := fun x =>
  if (x - a).toNat < 4 then byteOf v (x - a).toNat else m x

/-- The range of `n` addresses from `a` on, past which lies `x`. -/
theorem sub_outside {x a : UInt32} {n : Nat} (room : a.toNat + n ≤ 4294967296)
    (outside : x.toNat < a.toNat ∨ a.toNat + n ≤ x.toNat) : ¬(x - a).toNat < n := by
  have hx := x.toNat_lt
  rw [UInt32.toNat_sub]
  omega

theorem sub_inside {x a : UInt32} {n : Nat} (lower : a.toNat ≤ x.toNat)
    (upper : x.toNat < a.toNat + n) : (x - a).toNat < n := by
  rw [UInt32.toNat_sub_of_le _ _ (UInt32.le_iff_toNat_le.mpr lower)]
  omega

theorem store_outside (m : Mem) {a x : UInt32} (v : UInt32) (room : a.toNat + 4 ≤ 4294967296)
    (outside : x.toNat < a.toNat ∨ a.toNat + 4 ≤ x.toNat) : m.store a v x = m x := by
  rw [store, if_neg (sub_outside room outside)]

theorem load_congr {m m' : Mem} {a : UInt32} (room : a.toNat + 4 ≤ 4294967296)
    (same : ∀ x : UInt32, a.toNat ≤ x.toNat → x.toNat < a.toNat + 4 → m' x = m x) :
    m'.load a = m.load a := by
  have step : ∀ k : UInt32, k.toNat < 4 → (a + k).toNat = a.toNat + k.toNat := by
    intro k small
    rw [UInt32.toNat_add]
    omega
  have at_ : ∀ k : UInt32, k.toNat < 4 → m' (a + k) = m (a + k) := by
    intro k small
    have value := step k small
    exact same _ (by omega) (by omega)
  have first := at_ 0 (by decide)
  simp only [UInt32.add_zero] at first
  rw [load, load, first, at_ 1 (by decide), at_ 2 (by decide), at_ 3 (by decide)]

theorem load_store_same (m : Mem) (a v : UInt32) : (m.store a v).load a = v := by
  have cell : ∀ k : UInt32, k.toNat < 4 → m.store a v (a + k) = byteOf v k.toNat := by
    intro k small
    rw [store, show a + k - a = k by rw [UInt32.add_comm, UInt32.add_sub_cancel], if_pos small]
  have first := cell 0 (by decide)
  simp only [UInt32.add_zero] at first
  rw [load, first, cell 1 (by decide), cell 2 (by decide), cell 3 (by decide)]
  exact wordOf_byteOf v

theorem store_store (m : Mem) (a v w : UInt32) : (m.store a v).store a w = m.store a w := by
  funext x
  unfold store
  split
  · rfl
  · rfl

theorem load_store_apart (m : Mem) {a b : UInt32} (v : UInt32) (roomA : a.toNat + 4 ≤ 4294967296)
    (roomB : b.toNat + 4 ≤ 4294967296) (apart : b.toNat + 4 ≤ a.toNat ∨ a.toNat + 4 ≤ b.toNat) :
    (m.store a v).load b = m.load b := by
  apply load_congr roomB
  intro x lower upper
  exact store_outside m v roomA (by omega)

/-- Words that lie apart from one address on, around the end of the memory too. -/
theorem load_store_from (m : Mem) (base v : UInt32) {x y : UInt32} (roomX : x.toNat + 4 ≤ 4294967296)
    (roomY : y.toNat + 4 ≤ 4294967296) (apart : y.toNat + 4 ≤ x.toNat ∨ x.toNat + 4 ≤ y.toNat) :
    (m.store (base + x) v).load (base + y) = m.load (base + y) := by
  have hbase := base.toNat_lt
  have cell (k : UInt32) (small : k.toNat < 4) : m.store (base + x) v (base + y + k) = m (base + y + k) := by
    rw [store, if_neg]
    rw [UInt32.toNat_sub, UInt32.toNat_add, UInt32.toNat_add, UInt32.toNat_add]
    omega
  have first := cell 0 (by decide)
  simp only [UInt32.add_zero] at first
  rw [load, load, first, cell 1 (by decide), cell 2 (by decide), cell 3 (by decide)]

/-- Another byte is stored, which is none of the word's. -/
theorem load_byte_from (m : Mem) (base : UInt32) (v : UInt8) {x y : UInt32} (room : y.toNat + 4 ≤ 4294967296)
    (apart : x.toNat < y.toNat ∨ y.toNat + 4 ≤ x.toNat) :
    Mem.load (fun a => if a = base + x then v else m a) (base + y) = m.load (base + y) := by
  have cell (k : UInt32) (small : k.toNat < 4) :
      (if base + y + k = base + x then v else m (base + y + k)) = m (base + y + k) := by
    rw [if_neg]
    rw [UInt32.add_assoc, UInt32.add_right_inj]
    intro same
    have number := congrArg UInt32.toNat same
    rw [UInt32.toNat_add] at number
    omega
  have first := cell 0 (by decide)
  simp only [UInt32.add_zero] at first
  rw [load, load, first, cell 1 (by decide), cell 2 (by decide), cell 3 (by decide)]

/-- A word address. -/
def Aligned (a : UInt32) : Prop := a.toNat % 4 = 0

instance (a : UInt32) : Decidable (Aligned a) := inferInstanceAs (Decidable (_ = _))

theorem Aligned.room {a : UInt32} (aligned : Aligned a) : a.toNat + 4 ≤ 4294967296 := by
  have bound := a.toNat_lt
  unfold Aligned at aligned
  omega

theorem Aligned.add {a b : UInt32} (ha : Aligned a) (hb : Aligned b) : Aligned (a + b) := by
  unfold Aligned at *
  rw [UInt32.toNat_add]
  omega

theorem aligned_four (k : UInt32) : Aligned (4 * k) := by
  unfold Aligned
  rw [UInt32.toNat_mul]
  simp

theorem load_store {m : Mem} {a b : UInt32} (v : UInt32) (ha : Aligned a) (hb : Aligned b) :
    (m.store a v).load b = if b = a then v else m.load b := by
  by_cases same : b = a
  · rw [if_pos same, same, load_store_same]
  · have differ : b.toNat ≠ a.toNat := fun h => same (UInt32.toNat_inj.mp h)
    unfold Aligned at ha hb
    rw [if_neg same, load_store_apart m v (Aligned.room ha) (Aligned.room hb) (by omega)]

theorem load_store_ne {m : Mem} {a b : UInt32} (v : UInt32) (ha : Aligned a) (hb : Aligned b)
    (differ : b ≠ a) : (m.store a v).load b = m.load b := by
  rw [load_store v ha hb, if_neg differ]

end Mem

end Sos.Lib
