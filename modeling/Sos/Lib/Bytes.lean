import Mathlib.Algebra.Order.Ring.Nat
import Mathlib.Tactic.Common

/-! Little-endian 32-bit words and fixed-size byte buffers. A buffer is read
outside its bounds as zero, so that offsets are ordinary natural numbers. -/

namespace Sos.Lib.Bytes

theorem toNat_succ {x : UInt32} (room : x.toNat + 1 < 4294967296) : (x + 1).toNat = x.toNat + 1 := by
  have one : (1 : UInt32).toNat = 1 := rfl
  rw [UInt32.toNat_add, one, Nat.mod_eq_of_lt room]

/-- The byte of weight 256 ^ k. -/
def byteOf (v : UInt32) (k : Nat) : UInt8 := UInt8.ofNat (v.toNat / 256 ^ k)

def wordOf (b0 b1 b2 b3 : UInt8) : UInt32 :=
  UInt32.ofNat (b0.toNat + 256 * b1.toNat + 65536 * b2.toNat + 16777216 * b3.toNat)

theorem wordOf_toNat (b0 b1 b2 b3 : UInt8) : (wordOf b0 b1 b2 b3).toNat =
    b0.toNat + 256 * b1.toNat + 65536 * b2.toNat + 16777216 * b3.toNat := by
  have h0 := b0.toNat_lt
  have h1 := b1.toNat_lt
  have h2 := b2.toNat_lt
  have h3 := b3.toNat_lt
  simp only [wordOf, UInt32.toNat_ofNat']
  omega

theorem byteOf_toNat (v : UInt32) (k : Nat) : (byteOf v k).toNat = v.toNat / 256 ^ k % 256 := by
  simp [byteOf]

theorem wordOf_byteOf (v : UInt32) :
    wordOf (byteOf v 0) (byteOf v 1) (byteOf v 2) (byteOf v 3) = v := by
  apply UInt32.toNat_inj.mp
  have bound := v.toNat_lt
  simp only [wordOf_toNat, byteOf_toNat]
  omega

/-- A byte array of fixed length. -/
abbrev Buf (n : Nat) := Fin n → UInt8

namespace Buf
variable {n m : Nat}

def byte (b : Buf n) (i : Nat) : UInt8 := if h : i < n then b ⟨i, h⟩ else 0

def tabulate (f : Nat → UInt8) : Buf n := fun i => f i.val

theorem byte_tabulate (f : Nat → UInt8) {i : Nat} (h : i < n) :
    (tabulate f : Buf n).byte i = f i := by
  simp [byte, tabulate, h]

theorem ext {a b : Buf n} (same : ∀ i, i < n → a.byte i = b.byte i) : a = b := by
  funext i
  have h := same i.val i.isLt
  simpa only [byte, i.isLt, ↓reduceDIte, Fin.eta] using h

/-- `bzero`. -/
def zero : Buf n := tabulate fun _ => 0

@[simp] theorem byte_zero (i : Nat) : (zero : Buf n).byte i = 0 := by
  simp [byte, zero, tabulate]

/-- `memcpy` of `len` bytes to offset `off`. -/
def blit (b : Buf n) (off len : Nat) (src : Nat → UInt8) : Buf n :=
  tabulate fun i => if off ≤ i ∧ i < off + len then src (i - off) else b.byte i

theorem byte_blit (b : Buf n) (off len : Nat) (src : Nat → UInt8) {i : Nat} (h : i < n) :
    (b.blit off len src).byte i =
      if off ≤ i ∧ i < off + len then src (i - off) else b.byte i :=
  byte_tabulate _ h

theorem byte_blit_outside (b : Buf n) (off len : Nat) (src : Nat → UInt8) {i : Nat}
    (outside : i < off ∨ off + len ≤ i) : (b.blit off len src).byte i = b.byte i := by
  by_cases h : i < n
  · rw [byte_blit b off len src h, if_neg (by omega)]
  · simp [byte, h]

theorem byte_blit_inside (b : Buf n) (off len : Nat) (src : Nat → UInt8) {i : Nat}
    (lower : off ≤ i) (upper : i < off + len) (room : off + len ≤ n) :
    (b.blit off len src).byte i = src (i - off) := by
  rw [byte_blit b off len src (by omega), if_pos ⟨lower, upper⟩]

/-- The `m` bytes from offset `off` on. -/
def slice (b : Buf n) (off : Nat) : Buf m := tabulate fun i => b.byte (off + i)

theorem byte_slice (b : Buf n) (off : Nat) {i : Nat} (h : i < m) :
    (b.slice off : Buf m).byte i = b.byte (off + i) :=
  byte_tabulate _ h

theorem slice_congr {a b : Buf n} {off : Nat}
    (same : ∀ i, i < m → a.byte (off + i) = b.byte (off + i)) :
    (a.slice off : Buf m) = b.slice off := by
  apply ext
  intro i h
  rw [byte_slice _ _ h, byte_slice _ _ h, same i h]

theorem slice_blit_same (b : Buf n) (off : Nat) (src : Buf m) (room : off + m ≤ n) :
    (b.blit off m src.byte).slice off = src := by
  apply ext
  intro i h
  rw [byte_slice _ _ h, byte_blit_inside _ _ _ _ (by omega) (by omega) room]
  congr 1
  omega

theorem slice_blit_other (b : Buf n) (off len : Nat) (src : Nat → UInt8) (at_ : Nat)
    (apart : at_ + m ≤ off ∨ off + len ≤ at_) :
    ((b.blit off len src).slice at_ : Buf m) = b.slice at_ := by
  apply slice_congr
  intro i h
  exact byte_blit_outside _ _ _ _ (by omega)

/-- The little-endian word at offset `off`. -/
def word (b : Buf n) (off : Nat) : UInt32 :=
  wordOf (b.byte off) (b.byte (off + 1)) (b.byte (off + 2)) (b.byte (off + 3))

def putWord (b : Buf n) (off : Nat) (v : UInt32) : Buf n := b.blit off 4 (byteOf v)

@[simp] theorem word_zero (off : Nat) : (zero : Buf n).word off = 0 := by
  simp [word, wordOf]

theorem word_congr {a : Buf n} {b : Buf m} {off at_ : Nat}
    (same : ∀ i, i < 4 → a.byte (off + i) = b.byte (at_ + i)) : a.word off = b.word at_ := by
  have s0 := same 0 (by omega)
  simp only [Nat.add_zero] at s0
  simp only [word, s0, same 1 (by omega), same 2 (by omega), same 3 (by omega)]

theorem word_slice (b : Buf n) (off at_ : Nat) (room : at_ + 4 ≤ m) :
    (b.slice off : Buf m).word at_ = b.word (off + at_) := by
  apply word_congr
  intro i h
  rw [byte_slice _ _ (by omega), Nat.add_assoc]

theorem word_blit_outside (b : Buf n) (off len : Nat) (src : Nat → UInt8) (at_ : Nat)
    (apart : at_ + 4 ≤ off ∨ off + len ≤ at_) : (b.blit off len src).word at_ = b.word at_ := by
  apply word_congr
  intro i h
  exact byte_blit_outside _ _ _ _ (by omega)

theorem word_putWord (b : Buf n) (off : Nat) (v : UInt32) (room : off + 4 ≤ n) :
    (b.putWord off v).word off = v := by
  have inside : ∀ i, i < 4 → (b.putWord off v).byte (off + i) = byteOf v i := by
    intro i h
    rw [putWord, byte_blit_inside _ _ _ _ (by omega) (by omega) room, Nat.add_sub_cancel_left]
  have i0 := inside 0 (by omega)
  simp only [Nat.add_zero] at i0
  rw [word, i0, inside 1 (by omega), inside 2 (by omega), inside 3 (by omega), wordOf_byteOf]

theorem word_putWord_other (b : Buf n) (off : Nat) (v : UInt32) (at_ : Nat)
    (apart : at_ + 4 ≤ off ∨ off + 4 ≤ at_) : (b.putWord off v).word at_ = b.word at_ :=
  word_blit_outside b off 4 _ at_ apart

end Buf

end Sos.Lib.Bytes
