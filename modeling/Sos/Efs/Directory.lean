import Mathlib.Data.Fintype.EquivFin
import Sos.Efs.Spec

/-! The root directory as a finite map from C strings to inode numbers. -/

namespace Sos.Efs
open Sos.Lib Sos.Lib.Bytes

/-- The C string in the first `n` bytes. -/
def cstr (n : Nat) (a : Nat → UInt8) : List UInt8 := ((List.range n).map a).takeWhile (· ≠ 0)

theorem cstr_succ (n : Nat) (a : Nat → UInt8) :
    cstr (n + 1) a = if a 0 = 0 then [] else a 0 :: cstr n (fun i => a (i + 1)) := by
  simp only [cstr, List.range_succ_eq_map, List.map_cons, List.map_map, List.takeWhile_cons]
  by_cases h : a 0 = 0
  · simp [h]
  · simp [h, Function.comp_def]

theorem strncmp_zero_iff (n : Nat) (a b : Nat → UInt8) :
    strncmp n a b = 0 ↔ cstr n a = cstr n b := by
  induction n generalizing a b with
  | zero => simp [strncmp, cstr]
  | succ n ih =>
    rw [strncmp, cstr_succ, cstr_succ]
    by_cases same : a 0 = b 0
    · rw [if_neg (not_not.mpr same), same]
      by_cases ended : b 0 = 0
      · simp [ended]
      · rw [if_neg ended, if_neg ended, if_neg ended, ih]
        simp
    · have differ : ((a 0).toNat : Int) - (b 0).toNat ≠ 0 := by
        intro h
        exact same (UInt8.toNat_inj.mp (by omega))
      rw [if_pos same]
      refine iff_of_false differ ?_
      by_cases ha : a 0 = 0 <;> by_cases hb : b 0 = 0 <;> simp_all

theorem strncpy_succ (a : Nat → UInt8) (i : Nat) :
    strncpy a (i + 1) = if a 0 = 0 then 0 else strncpy (fun j => a (j + 1)) i := by
  simp only [strncpy, List.range_succ_eq_map, List.all_cons, List.all_map]
  by_cases h : a 0 = 0
  · simp [h]
  · simp [h, Function.comp_def]

/-- A `strncpy` of `k` bytes, zeros behind it, holds the string cut to `k` bytes. -/
theorem cstr_strncpy (n k : Nat) (a : Nat → UInt8) (short : k ≤ n) :
    cstr n (fun i => if i < k then strncpy a i else 0) = (cstr n a).take k := by
  induction n generalizing k a with
  | zero => simp [cstr]
  | succ n ih =>
    cases k with
    | zero => simp [cstr_succ]
    | succ k =>
      rw [cstr_succ, cstr_succ]
      have head : strncpy a 0 = a 0 := by simp [strncpy]
      simp only [Nat.zero_lt_succ, ↓reduceIte, head]
      by_cases ended : a 0 = 0
      · simp [ended]
      · rw [if_neg ended, if_neg ended, List.take_succ_cons,
          ← ih k (fun j => a (j + 1)) (by omega)]
        congr 2
        funext i
        simp [strncpy_succ, ended]

theorem cstr_congr (n : Nat) (a b : Nat → UInt8) (same : ∀ i, i < n → a i = b i) :
    cstr n a = cstr n b := by
  unfold cstr
  congr 1
  apply List.map_congr_left
  intro i h
  exact same i (List.mem_range.mp h)

theorem cstr_zero (n : Nat) (a : Nat → UInt8) (h : a 0 = 0) : cstr n a = [] := by
  cases n with
  | zero => rfl
  | succ n => rw [cstr_succ, if_pos h]

/-- The string a name stands for. -/
def Name.str (filename : Name) : List UInt8 := cstr 12 filename.byte

namespace Device

def entryStr (d : Device) (e : Nat) : List UInt8 := cstr 12 fun i => (d.data 0).byte (16 * e + i)

def entryInode (d : Device) (e : Nat) : UInt32 := (d.data 0).word (16 * e + 12)

/-- The inode number listed first for a string. -/
def lookup (d : Device) (s : List UInt8) : Option UInt32 :=
  ((List.range 64).find? fun e => d.entryStr e = s).map d.entryInode

theorem searchBlock_data (d : Device) (filename : Name) :
    searchBlock (d.data 0) filename = d.lookup filename.str := by
  unfold searchBlock lookup
  congr 2
  funext e
  rw [Bool.eq_iff_iff, decide_eq_true_iff, entryMatches, decide_eq_true_iff]
  exact strncmp_zero_iff 12 _ _

theorem lookup_congr {d d' : Device} (same : d'.data 0 = d.data 0) (s : List UInt8) :
    d'.lookup s = d.lookup s := by
  have strs : d'.entryStr = d.entryStr := by funext e; simp only [entryStr, same]
  have inodes : d'.entryInode = d.entryInode := by funext e; simp only [entryInode, same]
  rw [lookup, lookup, strs, inodes]

theorem lookup_some {d : Device} {s : List UInt8} {i : UInt32} (found : d.lookup s = some i) :
    ∃ e, e < 64 ∧ d.entryStr e = s ∧ d.entryInode e = i := by
  obtain ⟨e, first, value⟩ := Option.map_eq_some_iff.mp found
  exact ⟨e, List.mem_range.mp (List.mem_of_find?_eq_some first),
    by simpa using List.find?_some first, value⟩

theorem lookup_none {d : Device} {s : List UInt8} (missing : d.lookup s = none) (e : Nat)
    (h : e < 64) : d.entryStr e ≠ s := by
  have none := List.find?_eq_none.mp (Option.map_eq_none_iff.mp missing) e (List.mem_range.mpr h)
  simpa using none

end Device

/-- The root directory lists `cnt` entries, itself first, and every referenced inode once. -/
structure Directory (d : Device) (cnt : Nat) : Prop where
  size : (d.inode 0).size.toNat = 16 * cnt
  first : 1 ≤ cnt
  last : cnt ≤ 64
  data0 : (d.inode 0).direct 0 = 0
  data1 : (d.inode 0).direct 1 = 0
  refs : (d.inode 0).refs ≠ 0
  indirect : (d.inode 0).indirectData = 0
  selfStr : d.entryStr 0 = [0x2E]
  selfInode : d.entryInode 0 = 0
  named : ∀ e, 1 ≤ e → e < cnt → d.entryStr e ≠ [] ∧ d.entryStr e ≠ [0x2E]
  blank : ∀ i, 16 * cnt ≤ i → i < 1024 → (d.data 0).byte i = 0
  inodes : ∀ e, 1 ≤ e → e < cnt → 1 ≤ (d.entryInode e).toNat ∧ (d.entryInode e).toNat < 64
  distinct : ∀ e e', e < cnt → e' < cnt → d.entryInode e = d.entryInode e' → e = e'
  used : ∀ i, 1 ≤ i → i < 64 →
    ((d.inode i).refs ≠ 0 ↔ ∃ e, 1 ≤ e ∧ e < cnt ∧ (d.entryInode e).toNat = i)
  fresh : ∀ i, i < 64 → (d.inode i).refs = 0 → (d.inode i).size = 0 ∧ (d.inode i).indirectData = 0

/-- A name the two tools can be asked for: not empty and not the root directory's own. -/
def Name.Proper (filename : Name) : Prop := filename.str ≠ [] ∧ filename.str ≠ [0x2E]

namespace Directory
variable {d : Device} {cnt : Nat}

theorem blank_str (dir : Directory d cnt) (e : Nat) (lower : cnt ≤ e) (upper : e < 64) :
    d.entryStr e = [] :=
  cstr_zero _ _ (dir.blank _ (by omega) (by omega))

/-- A proper name is only ever found behind the first entry. -/
theorem entry_of_lookup (dir : Directory d cnt) {filename : Name} (proper : filename.Proper)
    {i : UInt32} (found : d.lookup filename.str = some i) :
    ∃ e, 1 ≤ e ∧ e < cnt ∧ d.entryStr e = filename.str ∧ d.entryInode e = i := by
  obtain ⟨e, upper, str, value⟩ := Device.lookup_some found
  refine ⟨e, ?_, ?_, str, value⟩
  · by_contra zero
    have same : e = 0 := by omega
    subst same
    exact proper.2 (str ▸ dir.selfStr)
  · by_contra past
    exact proper.1 (str ▸ dir.blank_str e (by omega) upper)

theorem lookup_inode (dir : Directory d cnt) {filename : Name} (proper : filename.Proper)
    {i : UInt32} (found : d.lookup filename.str = some i) :
    1 ≤ i.toNat ∧ i.toNat < 64 ∧ (d.inode i.toNat).refs ≠ 0 := by
  obtain ⟨e, lower, upper, _, value⟩ := dir.entry_of_lookup proper found
  have bounds := dir.inodes e lower upper
  rw [value] at bounds
  exact ⟨bounds.1, bounds.2, (dir.used _ bounds.1 bounds.2).mpr ⟨e, lower, upper, by rw [value]⟩⟩

/-- Nothing is found behind the last entry. -/
theorem lookup_range (dir : Directory d cnt) (s : List UInt8) (h : s ≠ []) :
    d.lookup s = ((List.range cnt).find? fun e => d.entryStr e = s).map d.entryInode := by
  have last := dir.last
  have split : 64 = cnt + (64 - cnt) := by omega
  have blank : ((List.range (64 - cnt)).map (cnt + ·)).find? (fun e => d.entryStr e = s) = none := by
    rw [List.find?_eq_none]
    intro e member
    obtain ⟨k, inside, rfl⟩ := List.mem_map.mp member
    have bound := List.mem_range.mp inside
    simp [dir.blank_str (cnt + k) (by omega) (by omega), h.symm]
  rw [Device.lookup, split, List.range_add, List.find?_append, blank, Option.or_none]

/-- The directory finds itself first. -/
theorem lookup_self (dir : Directory d cnt) : d.lookup [0x2E] = some 0 := by
  have first : (List.range 64).find? (fun e => d.entryStr e = [0x2E]) = some 0 := by
    rw [List.find?_range_eq_some]
    refine ⟨decide_eq_true dir.selfStr, List.mem_range.mpr (by decide), fun j before => ?_⟩
    omega
  rw [Device.lookup, first, Option.map_some, dir.selfInode]

/-- The empty name is found in the first slot that is not in use, with the number 0. -/
theorem lookup_empty (dir : Directory d cnt) : d.lookup [] = if cnt < 64 then some 0 else none := by
  have listed : ∀ e, e < cnt → d.entryStr e ≠ [] := by
    intro e inside
    by_cases zero : e = 0
    · rw [zero, dir.selfStr]
      decide
    · exact (dir.named e (by omega) inside).1
  by_cases room : cnt < 64
  · have first : (List.range 64).find? (fun e => d.entryStr e = []) = some cnt := by
      rw [List.find?_range_eq_some]
      refine ⟨decide_eq_true (dir.blank_str cnt le_rfl room), List.mem_range.mpr room, fun j before => ?_⟩
      rw [decide_eq_false (listed j before)]
      rfl
    have blank : ∀ k, k < 4 → (d.data 0).byte (16 * cnt + 12 + k) = 0 := fun k small =>
      dir.blank _ (by omega) (by omega)
    have number : d.entryInode cnt = 0 := by
      rw [Device.entryInode, Buf.word, blank 1 (by omega), blank 2 (by omega), blank 3 (by omega),
        dir.blank _ (by omega) (by omega)]
      rfl
    rw [Device.lookup, first, Option.map_some, number, if_pos room]
  · rw [if_neg room, Device.lookup, Option.map_eq_none_iff, List.find?_range_eq_none]
    intro e inside
    have last := dir.last
    rw [decide_eq_false (listed e (by omega))]
    rfl

/-- A directory that lists only itself. -/
theorem lookup_only (dir : Directory d 1) {s : List UInt8} (nonempty : s ≠ []) (other : s ≠ [0x2E]) :
    d.lookup s = none := by
  rw [dir.lookup_range s nonempty, Option.map_eq_none_iff, List.find?_range_eq_none]
  intro e first
  have zero : e = 0 := by omega
  rw [zero, dir.selfStr]
  simpa using other.symm

/-- Different strings are listed with different inodes. -/
theorem lookup_injective (dir : Directory d cnt) {a b : Name} (pa : a.Proper) (pb : b.Proper)
    {i j : UInt32} (foundA : d.lookup a.str = some i) (foundB : d.lookup b.str = some j)
    (differ : a.str ≠ b.str) : i.toNat ≠ j.toNat := by
  obtain ⟨e, _, upper, str, value⟩ := dir.entry_of_lookup pa foundA
  obtain ⟨e', _, upper', str', value'⟩ := dir.entry_of_lookup pb foundB
  intro same
  have eq : e = e' := dir.distinct e e' upper upper' (by
    rw [value, value']; exact UInt32.toNat_inj.mp same)
  exact differ (by rw [← str, ← str', eq])

/-- The invariant reads the root block, the root inode and the reference counts. -/
theorem frame (dir : Directory d cnt) {d' : Device} (data : d'.data 0 = d.data 0)
    (root : d'.inode 0 = d.inode 0) (refs : ∀ j, j < 64 → (d'.inode j).refs = (d.inode j).refs)
    (fresh : ∀ j, j < 64 → (d.inode j).refs = 0 → d'.inode j = d.inode j) : Directory d' cnt := by
  have strs : ∀ e, d'.entryStr e = d.entryStr e := by intro e; simp only [Device.entryStr, data]
  have inodes : ∀ e, d'.entryInode e = d.entryInode e := by
    intro e
    simp only [Device.entryInode, data]
  refine
    { size := by rw [root, dir.size], first := dir.first, last := dir.last,
      data0 := by rw [root, dir.data0], data1 := by rw [root, dir.data1],
      refs := by rw [root]; exact dir.refs, indirect := by rw [root, dir.indirect],
      selfStr := by rw [strs, dir.selfStr], selfInode := by rw [inodes, dir.selfInode],
      named := fun e => by rw [strs]; exact dir.named e,
      blank := fun i => by rw [data]; exact dir.blank i,
      inodes := fun e => by rw [inodes]; exact dir.inodes e,
      distinct := fun e e' => by rw [inodes, inodes]; exact dir.distinct e e',
      used := ?_, fresh := ?_ }
  · intro i lower upper
    rw [refs i upper, dir.used i lower upper]
    simp only [inodes]
  · intro i upper free
    rw [refs i upper] at free
    rw [fresh i upper free]
    exact dir.fresh i upper free

/-- With a free inode left the directory is not full either. -/
theorem not_full (dir : Directory d cnt) (i : Nat) (h : i < 64) (free : (d.inode i).refs = 0) :
    cnt < 64 := by
  by_contra full
  have last := dir.last
  have eq : cnt = 64 := by omega
  subst eq
  have bound : ∀ e : Fin 64, (d.entryInode e.val).toNat < 64 := by
    intro e
    by_cases zero : e.val = 0
    · simp [zero, dir.selfInode]
    · exact (dir.inodes e.val (by omega) e.isLt).2
  let number : Fin 64 → Fin 64 := fun e => ⟨(d.entryInode e.val).toNat, bound e⟩
  have injective : Function.Injective number := by
    intro e e' same
    have values : (d.entryInode e.val).toNat = (d.entryInode e'.val).toNat := by
      simpa only [number, Fin.mk.injEq] using same
    exact Fin.ext (dir.distinct _ _ e.isLt e'.isLt (UInt32.toNat_inj.mp values))
  obtain ⟨e, hit⟩ := Finite.surjective_of_injective injective ⟨i, h⟩
  have value : (d.entryInode e.val).toNat = i := by
    simpa only [number, Fin.mk.injEq] using hit
  by_cases zero : e.val = 0
  · have root : i = 0 := by rw [← value, zero, dir.selfInode]; rfl
    subst root
    exact dir.refs free
  · have bounds := dir.inodes e.val (by omega) e.isLt
    rw [value] at bounds
    exact (dir.used i bounds.1 h).mpr ⟨e.val, by omega, e.isLt, value⟩ free

end Directory

end Sos.Efs
