import Mathlib.Data.List.TakeWhile
import Sos.Boot.Getstr
import Sos.Boot.Scan

/-! The boot prompt: what the user types becomes the kernel's name and its parameters, in two
buffers that stand before the word of the memory's size and the code. -/

namespace Sos.Boot
open Sos.Lib.Bytes

def fileNameLen : UInt16 := 0xC
def paramLen : UInt16 := 12

namespace SearchLayout
variable (L : SearchLayout)

def inbuff : UInt16 := L.kernelFile - 50
def kernelParam : UInt16 := L.kernelFile + fileNameLen
def defaultKernelParam : UInt16 := L.inbuff - 10
def defaultKernelFile : UInt16 := L.defaultKernelParam - 7

end SearchLayout

/-- Memory with the addresses that the copying loops have stored to. -/
structure Stores where
  mem : Mem
  stored : List UInt16

def Stores.stosb (c : Stores) (di : UInt16) (al : UInt8) : Stores := ⟨c.mem.set di al, di :: c.stored⟩

def ldParamLoop : Nat → UInt16 → UInt16 → Stores → Option Stores
  | 0, _, _, _ => none
  | fuel + 1, si, di, c =>
    let al := c.mem si
    let c := c.stosb di al
    if al = 0 then some c else ldParamLoop fuel (si + 1) (di + 1) c

def copyKernLoop (L : SearchLayout) : Nat → UInt16 → UInt16 → Stores → Option Stores
  | 0, _, _, _ => none
  | fuel + 1, si, di, c =>
    let al := c.mem si
    if al = 0x20 then ldParamLoop fuel (si + 1) L.kernelParam c
    else
      let c := c.stosb di al
      if al = 0 then some c else copyKernLoop L fuel (si + 1) (di + 1) c

def defaultKernName (L : SearchLayout) (m : Mem) : Mem :=
  let m := movsb 7 L.defaultKernelFile L.kernelFile m
  movsb 10 L.defaultKernelParam L.kernelParam m

/-- From `prompt` to `got_kernel_name`, with the keys that are left. -/
def prompt (L : SearchLayout) (fuel : Nat) (keys : List UInt8) (m : Mem) : Option (List UInt8 × Stores) :=
  match getstr keys L.inbuff (fileNameLen + paramLen) m with
  | none => none
  | some (keys, m) =>
    if m L.inbuff = 0 then some (keys, ⟨defaultKernName L m, []⟩)
    else (copyKernLoop L fuel L.inbuff L.kernelFile ⟨m, []⟩).map fun c => (keys, c)

/-- What the line says as a string: some keys give a zero. -/
def textOf (line : List UInt8) : List UInt8 := line.takeWhile (· ≠ 0)

def nameOf (text : List UInt8) : List UInt8 := text.takeWhile (· ≠ 0x20)

def paramOf (text : List UInt8) : List UInt8 := (text.dropWhile (· ≠ 0x20)).tail

@[simp]
theorem Stores.stosb_mem (c : Stores) (di : UInt16) (al : UInt8) : (c.stosb di al).mem = c.mem.set di al := rfl

@[simp]
theorem Stores.stosb_stored (c : Stores) (di : UInt16) (al : UInt8) :
    (c.stosb di al).stored = di :: c.stored := rfl

/-- A string stored upwards. -/
def Stores.write (c : Stores) (di : UInt16) : List UInt8 → Stores
  | [] => c
  | x :: s => (c.stosb di x).write (di + 1) s

section
variable (c : Stores) (a : UInt16)

theorem Stores.write_mem {q : Nat} (s : List UInt8) (room : q + s.length ≤ 65536) {k : Nat}
    (inside : k < 65536) :
    (c.write (a + UInt16.ofNat q) s).mem (a + UInt16.ofNat k) =
      if q ≤ k ∧ k < q + s.length then s.getD (k - q) 0 else c.mem (a + UInt16.ofNat k) := by
  induction s generalizing q c with
  | nil => rw [if_neg (by rw [List.length_nil]; omega), Stores.write]
  | cons x s ih =>
    rw [List.length_cons] at room ⊢
    rw [Stores.write, offset_succ, ih _ (by omega), Stores.stosb_mem, Mem.set_offset _ _ _ (by omega) inside]
    by_cases rest : q + 1 ≤ k ∧ k < q + 1 + s.length
    · rw [if_pos rest, if_pos (by omega), show k - q = k - (q + 1) + 1 by omega, List.getD_cons_succ]
    · rw [if_neg rest]
      by_cases first : k = q
      · rw [if_pos first, if_pos (by omega), first, Nat.sub_self, List.getD_cons_zero]
      · rw [if_neg first, if_neg (by omega)]

theorem Stores.write_stored {q : Nat} (s : List UInt8) (b : UInt16) :
    b ∈ (c.write (a + UInt16.ofNat q) s).stored ↔
      b ∈ c.stored ∨ ∃ k, q ≤ k ∧ k < q + s.length ∧ b = a + UInt16.ofNat k := by
  induction s generalizing q c with
  | nil =>
    constructor
    · exact Or.inl
    · rintro (before | ⟨k, above, below, -⟩)
      · exact before
      · rw [List.length_nil] at below
        omega
  | cons x s ih =>
    rw [Stores.write, offset_succ, ih, Stores.stosb_stored, List.mem_cons, List.length_cons]
    constructor
    · rintro ((rfl | before) | ⟨k, above, below, at_⟩)
      · exact Or.inr ⟨q, le_rfl, by omega, rfl⟩
      · exact Or.inl before
      · exact Or.inr ⟨k, by omega, by omega, at_⟩
    · rintro (before | ⟨k, above, below, at_⟩)
      · exact Or.inl (Or.inr before)
      · by_cases first : k = q
        · exact Or.inl (Or.inl (by rw [at_, first]))
        · exact Or.inr ⟨k, by omega, by omega, at_⟩

end

/-- What is still to be copied stands below the place that is stored to. -/
theorem Mem.Bytes.stosb {c : Stores} {a : UInt16} {p q : Nat} {s : List UInt8}
    (bytes : c.mem.Bytes (a + UInt16.ofNat p) s) (below : p + s.length ≤ q) (room : q < 65536) (b : UInt8) :
    (c.stosb (a + UInt16.ofNat q) b).mem.Bytes (a + UInt16.ofNat p) s := by
  intro j inside
  have same := bytes j inside
  rw [UInt16.add_assoc, ← UInt16.ofNat_add] at same ⊢
  rw [Stores.stosb_mem, Mem.set_offset _ _ _ room (by omega), if_neg (by omega)]
  exact same

section
variable {a : UInt16} {s : List UInt8} (text : 0 ∉ s)
include text

theorem ldParamLoop_write {c : Stores} {p q : Nat} (bytes : c.mem.Bytes (a + UInt16.ofNat p) (s ++ [0]))
    (below : p + s.length < q) (room : q + s.length < 65536) (fuel : Nat) :
    ldParamLoop fuel (a + UInt16.ofNat p) (a + UInt16.ofNat q) c =
      if s.length < fuel then some (c.write (a + UInt16.ofNat q) (s ++ [0])) else none := by
  induction s generalizing c p q fuel with
  | nil =>
    have al : c.mem (a + UInt16.ofNat p) = 0 := bytes.first
    cases fuel with
    | zero => rfl
    | succ fuel => simp [ldParamLoop, al, Stores.write]
  | cons x s ih =>
    rw [List.length_cons] at below room ⊢
    have al : c.mem (a + UInt16.ofNat p) = x := bytes.first
    have going : x ≠ 0 := fun zero => text (by rw [zero]; exact List.mem_cons_self)
    have rest := bytes.tail.stosb (q := q) (by simp; omega) (by omega) x
    cases fuel with
    | zero => rw [ldParamLoop, if_neg (Nat.not_lt_zero _)]
    | succ fuel =>
      rw [ldParamLoop, al, if_neg going, offset_succ, offset_succ,
        ih (fun member => text (List.mem_cons_of_mem x member)) rest (by omega) (by omega)]
      simp only [Nat.succ_lt_succ_iff, List.cons_append, Stores.write, offset_succ]

end

/-- The stores of the two loops: there is no zero behind a name that a space follows. -/
def copied (L : SearchLayout) (s : List UInt8) (di : UInt16) (c : Stores) : Stores :=
  if 0x20 ∈ s then (c.write di (nameOf s)).write L.kernelParam (paramOf s ++ [0])
  else c.write di (nameOf s ++ [0])

theorem copied_cons {L : SearchLayout} {x : UInt8} (s : List UInt8) (di : UInt16) (c : Stores)
    (character : x ≠ 0x20) : copied L (x :: s) di c = copied L s (di + 1) (c.stosb di x) := by
  have later : 0x20 ∈ x :: s ↔ 0x20 ∈ s := by simp [Ne.symm character]
  have name : nameOf (x :: s) = x :: nameOf s := by simp [nameOf, character]
  have param : paramOf (x :: s) = paramOf s := by simp [paramOf, character]
  simp only [copied, later, name, param, List.cons_append, Stores.write]

theorem copyKernLoop_copied {L : SearchLayout} {a : UInt16} {s : List UInt8} (text : 0 ∉ s) {c : Stores}
    {p q r : Nat} (bytes : c.mem.Bytes (a + UInt16.ofNat p) (s ++ [0]))
    (param : L.kernelParam = a + UInt16.ofNat r) (below : p + s.length < q) (room : q + s.length < 65536)
    (belowParam : p + s.length < r) (roomParam : r + s.length < 65536) (fuel : Nat) :
    copyKernLoop L fuel (a + UInt16.ofNat p) (a + UInt16.ofNat q) c =
      if s.length < fuel then some (copied L s (a + UInt16.ofNat q) c) else none := by
  induction s generalizing c p q fuel with
  | nil =>
    have al : c.mem (a + UInt16.ofNat p) = 0 := bytes.first
    cases fuel with
    | zero => rfl
    | succ fuel => simp [copyKernLoop, al, copied, Stores.write, nameOf]
  | cons x s ih =>
    rw [List.length_cons] at below room belowParam roomParam ⊢
    have al : c.mem (a + UInt16.ofNat p) = x := bytes.first
    have text' : 0 ∉ s := fun member => text (List.mem_cons_of_mem x member)
    cases fuel with
    | zero => rw [copyKernLoop, if_neg (Nat.not_lt_zero _)]
    | succ fuel =>
      rw [copyKernLoop, al]
      simp only [Nat.succ_lt_succ_iff]
      by_cases space : x = 0x20
      · rw [if_pos space, offset_succ, param,
          ldParamLoop_write text' bytes.tail (by omega) (by omega), ← param, space]
        simp [copied, nameOf, paramOf, Stores.write]
      · have going : x ≠ 0 := fun zero => text (by rw [zero]; exact List.mem_cons_self)
        have rest := bytes.tail.stosb (q := q) (by simp; omega) (by omega) x
        rw [if_neg space, if_neg going, copied_cons _ _ _ space, offset_succ, offset_succ]
        exact ih text' rest (by omega) (by omega) (by omega) (by omega) fuel

theorem textOf_starts (line : List UInt8) : textOf line ++ [0] <+: line ++ [0] := by
  induction line with
  | nil => exact List.prefix_refl _
  | cons x line ih =>
    by_cases zero : x = 0
    · rw [zero, textOf, List.takeWhile_cons_of_neg (by simp)]
      simp
    · rw [textOf, List.takeWhile_cons_of_pos (by simpa using zero)]
      exact (List.prefix_cons_inj x).mpr ih

theorem zero_notMem_textOf (line : List UInt8) : 0 ∉ textOf line := by
  intro member
  have nonzero := List.mem_takeWhile_imp member
  simp at nonzero

theorem length_textOf_le (line : List UInt8) : (textOf line).length ≤ line.length :=
  (List.takeWhile_prefix _).length_le

section
variable (L : SearchLayout)

theorem SearchLayout.kernelFile_inbuff : L.kernelFile = L.inbuff + UInt16.ofNat 50 :=
  (UInt16.sub_add_cancel L.kernelFile 50).symm

theorem SearchLayout.kernelParam_inbuff : L.kernelParam = L.inbuff + UInt16.ofNat 62 := by
  rw [kernelParam, kernelFile_inbuff, UInt16.add_assoc]
  rfl

theorem getstr_reads (keys : List UInt8) (m : Mem) :
    Reads L.inbuff 24 m (lineOf 24 keys []) (getstr keys L.inbuff (fileNameLen + paramLen) m) := by
  have empty : m.Bytes L.inbuff [] := fun j inside => absurd inside (Nat.not_lt_zero j)
  have reads := getstrLoop_reads 24 (by decide) L.inbuff keys empty (by decide)
  rw [List.length_nil, show UInt16.ofNat 0 = 0 from rfl, UInt16.add_zero] at reads
  exact reads

/-- What a complete line comes to, whatever the fuel. -/
theorem prompt_line {keys line : List UInt8} (m : Mem) (complete : lineOf 24 keys [] = some line) :
    line.length ≤ 24 ∧ ∃ rest m', (∀ k, 24 < k → k < 65536 →
      m' (L.inbuff + UInt16.ofNat k) = m (L.inbuff + UInt16.ofNat k)) ∧ ∀ fuel, prompt L fuel keys m =
        if textOf line = [] then some (rest, ⟨defaultKernName L m', []⟩)
        else if (textOf line).length < fuel then some (rest, copied L (textOf line) L.kernelFile ⟨m', []⟩)
        else none := by
  have reads := getstr_reads L keys m
  rw [complete] at reads
  cases got : getstr keys L.inbuff (fileNameLen + paramLen) m with
  | none =>
    rw [got] at reads
    exact False.elim reads
  | some answer =>
    rw [got] at reads
    obtain ⟨rest, m'⟩ := answer
    obtain ⟨short, bytes, behind⟩ := reads
    refine ⟨short, rest, m', behind, fun fuel => ?_⟩
    have held := bytes.start (textOf_starts line)
    have length := length_textOf_le line
    rw [prompt, got]
    cases text : textOf line with
    | nil =>
      rw [text] at held
      simp [held.first]
    | cons x s =>
      rw [text] at held length
      have going : x ≠ 0 := by
        rintro rfl
        exact zero_notMem_textOf line (by rw [text]; exact List.mem_cons_self)
      have first : m' L.inbuff = x := held.first
      have from_ : L.inbuff + UInt16.ofNat 0 = L.inbuff := UInt16.add_zero _
      have loop := copyKernLoop_copied (text ▸ zero_notMem_textOf line) (c := ⟨m', []⟩) (a := L.inbuff)
        (p := 0) (q := 50) (by rw [from_]; exact held) L.kernelParam_inbuff (by omega) (by omega) (by omega)
        (by omega) fuel
      rw [from_, ← L.kernelFile_inbuff] at loop
      simp only [first, if_neg going, List.cons_ne_nil, if_false, loop]
      split <;> rfl

theorem SearchLayout.offset_kernelFile {k : Nat} (above : 50 ≤ k) (room : k < 65536) :
    (L.inbuff + UInt16.ofNat k - L.kernelFile).toNat = k - 50 := by
  have split_ : UInt16.ofNat k = UInt16.ofNat 50 + UInt16.ofNat (k - 50) := by
    rw [← UInt16.ofNat_add, Nat.add_sub_cancel' above]
  rw [split_, ← UInt16.add_assoc, ← kernelFile_inbuff, UInt16.add_comm, UInt16.add_sub_cancel,
    UInt16.toNat_ofNat']
  omega

theorem nameOf_text {s : List UInt8} (text : 0 ∉ s) : 0 ∉ nameOf s :=
  fun member => text ((List.takeWhile_prefix _).subset member)

theorem paramOf_text {s : List UInt8} (text : 0 ∉ s) : 0 ∉ paramOf s :=
  fun member => text ((List.dropWhile_suffix _).subset (List.mem_of_mem_tail member))

theorem nameOf_unspaced {s : List UInt8} (unspaced : 0x20 ∉ s) : nameOf s = s ∧ paramOf s = [] := by
  have all : ∀ x ∈ s, decide (x ≠ 0x20) = true := by
    intro x member
    rw [decide_eq_true_iff]
    rintro rfl
    exact unspaced member
  exact ⟨List.takeWhile_eq_self_iff.mpr all, by rw [paramOf, List.dropWhile_eq_nil_iff.mpr all]; rfl⟩

theorem length_spaced {s : List UInt8} (spaced : 0x20 ∈ s) :
    (nameOf s).length + 1 + (paramOf s).length = s.length := by
  have rest : s.dropWhile (· ≠ 0x20) ≠ [] := by
    intro empty
    have none_ := List.dropWhile_eq_nil_iff.mp empty _ spaced
    simp at none_
  have parts := congrArg List.length (List.takeWhile_append_dropWhile (p := (· ≠ 0x20)) (l := s))
  have positive := List.length_pos_iff.mpr rest
  rw [List.length_append] at parts
  rw [nameOf, paramOf, List.length_tail]
  omega

theorem getD_concat_zero (s : List UInt8) (j : Nat) : (s ++ [0]).getD j 0 = s.getD j 0 := by
  induction s generalizing j with
  | nil => cases j <;> rfl
  | cons x s ih => cases j with
    | zero => rfl
    | succ j => exact ih j

end

section
variable {L : SearchLayout} {s : List UInt8} (short : s.length ≤ 24) (c : Stores)
include short

theorem copied_unspaced_mem (unspaced : 0x20 ∉ s) {k : Nat} (above : 50 ≤ k) (inside : k < 65536) :
    (copied L s L.kernelFile c).mem (L.inbuff + UInt16.ofNat k) =
      if k ≤ 50 + s.length then s.getD (k - 50) 0 else c.mem (L.inbuff + UInt16.ofNat k) := by
  rw [copied, if_neg unspaced, (nameOf_unspaced unspaced).1, L.kernelFile_inbuff,
    Stores.write_mem _ _ _ (by simp; omega) inside, getD_concat_zero, List.length_append, List.length_singleton]
  by_cases stored : k ≤ 50 + s.length
  · rw [if_pos stored, if_pos (by omega)]
  · rw [if_neg stored, if_neg (by omega)]

theorem copied_spaced_mem (spaced : 0x20 ∈ s) {k : Nat} (above : 50 ≤ k) (inside : k < 65536) :
    (copied L s L.kernelFile c).mem (L.inbuff + UInt16.ofNat k) =
      if 62 ≤ k ∧ k ≤ 62 + (paramOf s).length then (paramOf s).getD (k - 62) 0
      else if k < 50 + (nameOf s).length then (nameOf s).getD (k - 50) 0
      else c.mem (L.inbuff + UInt16.ofNat k) := by
  have parts := length_spaced spaced
  rw [copied, if_pos spaced, L.kernelFile_inbuff, L.kernelParam_inbuff,
    Stores.write_mem _ _ _ (by simp; omega) inside, Stores.write_mem _ _ _ (by omega) inside,
    getD_concat_zero, List.length_append, List.length_singleton]
  by_cases param : 62 ≤ k ∧ k ≤ 62 + (paramOf s).length
  · rw [if_pos param, if_pos (by omega)]
  · rw [if_neg param, if_neg (by omega)]
    by_cases name : k < 50 + (nameOf s).length
    · rw [if_pos name, if_pos (by omega)]
    · rw [if_neg name, if_neg (by omega)]

omit short in
/-- What fits is stored to the two buffers only. -/
theorem copied_inside (fresh : c.stored = []) (name : (nameOf s).length < 12) (param : (paramOf s).length < 12)
    {b : UInt16} (stored : b ∈ (copied L s L.kernelFile c).stored) : (b - L.kernelFile).toNat < 24 := by
  rw [copied, L.kernelFile_inbuff, L.kernelParam_inbuff] at stored
  split at stored
  · rw [Stores.write_stored, Stores.write_stored, fresh, List.length_append, List.length_singleton] at stored
    obtain (before | ⟨k, above, below, rfl⟩) | ⟨k, above, below, rfl⟩ := stored
    · exact absurd before List.not_mem_nil
    · rw [L.offset_kernelFile above (by omega)]
      omega
    · rw [L.offset_kernelFile (by omega) (by omega)]
      omega
  · rw [Stores.write_stored, fresh, List.length_append, List.length_singleton] at stored
    obtain before | ⟨k, above, below, rfl⟩ := stored
    · exact absurd before List.not_mem_nil
    · rw [L.offset_kernelFile above (by omega)]
      omega

end

/-- One line at the prompt: the keys from there on, the memory before and what the line left. -/
structure Round where
  keys : List UInt8
  before : Mem
  after : Stores

def Round.text (r : Round) : List UInt8 := textOf ((lineOf 24 r.keys []).getD [])

/-- The lines of a session. A name that is not found comes back to the prompt, and the search has
changed nothing but the file system's data. -/
inductive Session (L : SearchLayout) (g : Geometry) (disk : Disk) :
    List UInt8 → Mem → List Round → Prop where
  | waits (keys : List UInt8) (m : Mem) : Session L g disk keys m []
  | accepts {keys rest : List UInt8} {m : Mem} {c : Stores} {fuel : Nat}
      (line : prompt L fuel keys m = some (rest, c)) : Session L g disk keys m [⟨keys, m, c⟩]
  | again {keys rest : List UInt8} {m next : Mem} {c : Stores} {fuel : Nat} {log : List Round}
      (line : prompt L fuel keys m = some (rest, c)) (missed : search L g disk fuel c.mem = some .notFound)
      (frames : Frames L.toLayout c.mem next) (more : Session L g disk rest next log) :
      Session L g disk keys m (⟨keys, m, c⟩ :: log)

/-- Both buffers hold their part of the text with the zero behind it, and nothing else has been
stored to. -/
structure Round.Parsed (L : SearchLayout) (r : Round) : Prop where
  name : r.after.mem.Text L.kernelFile (nameOf r.text)
  nameFits : (nameOf r.text).length < 12
  param : r.after.mem.Text L.kernelParam (paramOf r.text)
  paramFits : (paramOf r.text).length < 12
  inside : ∀ a ∈ r.after.stored, (a - L.kernelFile).toNat < 24

/-- The parts fit, and the buffers already end where the loops leave no zero: behind a name that a
space follows, and at the parameters of a line without one. -/
def Round.Clean (L : SearchLayout) (r : Round) : Prop :=
  (nameOf r.text).length < 12 ∧
    if 0x20 ∈ r.text then
      (paramOf r.text).length < 12 ∧ r.before (L.kernelFile + UInt16.ofNat (nameOf r.text).length) = 0
    else r.before L.kernelParam = 0

section
variable {L : SearchLayout} {r : Round} {c : Stores} (short : r.text.length ≤ 24) (fresh : c.stored = [])
  (behind : ∀ k, 24 < k → k < 65536 → c.mem (L.inbuff + UInt16.ofNat k) = r.before (L.inbuff + UInt16.ofNat k))
  (after : r.after = copied L r.text L.kernelFile c)
include short fresh behind after

theorem Round.parsed_unspaced (unspaced : 0x20 ∉ r.text) : r.Parsed L ↔ r.Clean L := by
  have text : 0 ∉ r.text := zero_notMem_textOf _
  obtain ⟨name, param⟩ := nameOf_unspaced unspaced
  -- the parameters stand behind what a name that fits is stored to
  have kept (fits : r.text.length < 12) : r.after.mem L.kernelParam = r.before L.kernelParam := by
    rw [after, L.kernelParam_inbuff, copied_unspaced_mem short c unspaced (by decide) (by decide),
      if_neg (by omega), behind 62 (by decide) (by decide)]
  rw [Clean, if_neg unspaced, name]
  constructor
  · intro parsed
    have fits := parsed.nameFits
    have ended : r.after.mem L.kernelParam = 0 := by simpa [param] using parsed.param.ended
    rw [name] at fits
    exact ⟨fits, (kept fits).symm.trans ended⟩
  · rintro ⟨fits, clean⟩
    have paramFits : (paramOf r.text).length < 12 := by
      rw [param]
      decide
    refine ⟨?_, by rwa [name], ?_, paramFits, ?_⟩
    · rw [name, L.kernelFile_inbuff]
      apply Mem.text_at text
      intro j inside
      rw [after, copied_unspaced_mem short c unspaced (by omega) (by omega), if_pos (by omega),
        Nat.add_sub_cancel_left]
    · rw [param]
      exact (kept fits).trans clean
    · intro b stored
      rw [after] at stored
      exact copied_inside c fresh (by rwa [name]) paramFits stored

theorem Round.parsed_spaced (spaced : 0x20 ∈ r.text) : r.Parsed L ↔ r.Clean L := by
  have text : 0 ∉ r.text := zero_notMem_textOf _
  have parts := length_spaced spaced
  have file : L.kernelFile + UInt16.ofNat (nameOf r.text).length =
      L.inbuff + UInt16.ofNat (50 + (nameOf r.text).length) := by
    rw [L.kernelFile_inbuff, UInt16.add_assoc, ← UInt16.ofNat_add]
  -- no zero is stored behind the name
  have kept (fits : (nameOf r.text).length < 12) :
      r.after.mem (L.inbuff + UInt16.ofNat (50 + (nameOf r.text).length)) =
        r.before (L.inbuff + UInt16.ofNat (50 + (nameOf r.text).length)) := by
    rw [after, copied_spaced_mem short c spaced (by omega) (by omega), if_neg (by omega), if_neg (by omega),
      behind _ (by omega) (by omega)]
  rw [Clean, if_pos spaced, file]
  constructor
  · intro parsed
    have fits := parsed.nameFits
    have ended := parsed.name.ended
    rw [file, kept fits] at ended
    exact ⟨fits, parsed.paramFits, ended⟩
  · rintro ⟨fits, paramFits, clean⟩
    refine ⟨?_, fits, ?_, paramFits, ?_⟩
    · rw [L.kernelFile_inbuff]
      apply Mem.text_at (nameOf_text text)
      intro j inside
      by_cases last : j = (nameOf r.text).length
      · rw [last, kept fits, clean, List.getD_eq_default _ _ le_rfl]
      · rw [after, copied_spaced_mem short c spaced (by omega) (by omega), if_neg (by omega),
          if_pos (by omega), Nat.add_sub_cancel_left]
    · rw [L.kernelParam_inbuff]
      apply Mem.text_at (paramOf_text text)
      intro j inside
      rw [after, copied_spaced_mem short c spaced (by omega) (by omega), if_pos (by omega),
        Nat.add_sub_cancel_left]
    · intro b stored
      rw [after] at stored
      exact copied_inside c fresh fits paramFits stored

omit short fresh behind after in
theorem Round.parsed_iff {fuel : Nat} {rest : List UInt8}
    (accepted : prompt L fuel r.keys r.before = some (rest, r.after)) (more : r.text ≠ []) :
    r.Parsed L ↔ r.Clean L := by
  cases complete : lineOf 24 r.keys [] with
  | none =>
    have empty : r.text = [] := by rw [Round.text, complete]; rfl
    exact absurd empty more
  | some line =>
    have text : r.text = textOf line := by rw [Round.text, complete]; rfl
    obtain ⟨short, rest', m', behind, run⟩ := prompt_line L r.before complete
    have length := length_textOf_le line
    rw [run, ← text, if_neg more] at accepted
    split at accepted
    · have after := (Prod.mk.inj (Option.some.inj accepted)).2
      by_cases spaced : 0x20 ∈ r.text
      · exact Round.parsed_spaced (by rw [text]; omega) rfl behind after.symm spaced
      · exact Round.parsed_unspaced (by rw [text]; omega) rfl behind after.symm spaced
    · cases accepted

end

/-- Each line of a session that has text is parsed just when it is clean, and no complete line is
left without an answer. -/
theorem session_parsed_iff {L : SearchLayout} {g : Geometry} {disk : Disk} {keys : List UInt8} {m : Mem}
    {log : List Round} (session : Session L g disk keys m log) :
    (∀ r ∈ log, r.text ≠ [] → (r.Parsed L ↔ r.Clean L)) ∧
      ∀ keys line m, lineOf 24 keys [] = some line →
        ∃ rest c, ∀ fuel, 25 ≤ fuel → prompt L fuel keys m = some (rest, c) := by
  constructor
  · induction session with
    | waits keys m =>
      intro r member
      exact absurd member List.not_mem_nil
    | accepts line =>
      intro r member more
      rw [List.mem_singleton] at member
      subst member
      exact Round.parsed_iff line more
    | again line missed frames rest ih =>
      intro r member more
      obtain rfl | later := List.mem_cons.mp member
      · exact Round.parsed_iff line more
      · exact ih r later more
  · intro keys line m complete
    obtain ⟨short, rest, m', -, run⟩ := prompt_line L m complete
    have length := length_textOf_le line
    by_cases empty : textOf line = []
    · exact ⟨rest, _, fun fuel _ => by rw [run, if_pos empty]⟩
    · exact ⟨rest, _, fun fuel enough => by rw [run, if_neg empty, if_pos (by omega)]⟩

/-- Data that end far below the top of the segment. -/
def promptLayout : SearchLayout := ⟨⟨2000, by decide⟩, 200, by decide⟩

/-- The line `kernel`. -/
def kernelKeys : List UInt8 := [0x6B, 0x65, 0x72, 0x6E, 0x65, 0x6C, 0x0D]

/-- The line `kernel init=/bin/sh`: its parameter fills the twelve bytes. -/
def shellKeys : List UInt8 :=
  [0x6B, 0x65, 0x72, 0x6E, 0x65, 0x6C, 0x20, 0x69, 0x6E, 0x69, 0x74, 0x3D, 0x2F, 0x62, 0x69, 0x6E, 0x2F,
    0x73, 0x68, 0x0D]

/-- A line of its own in memory that is zero. -/
theorem session_line (keys : List UInt8) (accepted : (prompt promptLayout 25 keys fun _ => 0).isSome = true) :
    ∃ rest c, prompt promptLayout 25 keys (fun _ => 0) = some (rest, c) ∧
      Session promptLayout ⟨18, 2⟩ (fun _ _ => 0) keys (fun _ => 0) [⟨keys, fun _ => 0, c⟩] := by
  obtain ⟨answer, run⟩ := Option.isSome_iff_exists.mp accepted
  exact ⟨answer.1, answer.2, run, Session.accepts run⟩

theorem session_parsed_kernel : ∃ r,
    Session promptLayout ⟨18, 2⟩ (fun _ _ => 0) kernelKeys (fun _ => 0) [r] ∧
      r.text = [0x6B, 0x65, 0x72, 0x6E, 0x65, 0x6C] ∧ r.Parsed promptLayout := by
  obtain ⟨rest, c, -, session⟩ := session_line kernelKeys (by decide)
  have text : Round.text ⟨kernelKeys, fun _ => 0, c⟩ = [0x6B, 0x65, 0x72, 0x6E, 0x65, 0x6C] := by
    change textOf ((lineOf 24 kernelKeys []).getD []) = _
    decide
  refine ⟨_, session, text, ((session_parsed_iff session).1 _ List.mem_cons_self ?_).mpr ?_⟩
  · rw [text]
    decide
  · rw [Round.Clean, text, if_neg (by decide)]
    exact ⟨by decide, rfl⟩

/-- The zero behind the parameter goes to the word of the memory's size. -/
theorem not_parsed_shell : ∃ r,
    Session promptLayout ⟨18, 2⟩ (fun _ _ => 0) shellKeys (fun _ => 0) [r] ∧ r.text ≠ [] ∧
      promptLayout.kernelFile + 24 ∈ r.after.stored ∧ ¬r.Parsed promptLayout := by
  obtain ⟨rest, c, run, session⟩ := session_line shellKeys (by decide)
  have stores : (prompt promptLayout 25 shellKeys fun _ => 0).map
      (fun answer => decide (promptLayout.kernelFile + 24 ∈ answer.2.stored)) = some true := by decide
  rw [run] at stores
  have memSize : promptLayout.kernelFile + 24 ∈ c.stored := by simpa using stores
  refine ⟨_, session, ?_, memSize, ?_⟩
  · change textOf ((lineOf 24 shellKeys []).getD []) ≠ []
    decide
  · intro parsed
    exact absurd (parsed.inside _ memSize) (by decide)

end Sos.Boot
