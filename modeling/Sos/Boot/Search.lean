import Sos.Boot.Stage2

/-! The second boot stage's search of the root directory for the kernel. DS and ES are both
the segment of the code. -/

namespace Sos.Boot
open Sos.Lib.Bytes

/-- `rep movsw` upwards. -/
def movsw : Nat → UInt16 → UInt16 → Mem → Mem
  | 0, _, _, m => m
  | cx + 1, si, di, m => movsw cx (si + 2) (di + 2) (m.setWord di (m.word si))

/-- `kernel_file` stands before the code, the file system's data behind it. -/
structure SearchLayout extends Layout where
  kernelFile : UInt16
  before : kernelFile.toNat + 12 ≤ efsSuperblock.toNat

/-- The words `sectors` and `heads`. -/
structure Geometry where
  sectors : UInt16
  heads : UInt16

/-- CX behind `read_sector`: the cylinder and the sector that it asked the BIOS for. -/
def Geometry.cx (g : Geometry) (ax : UInt16) : UInt16 :=
  let dx := ax % g.sectors + 1
  let ax := ax / g.sectors / g.heads
  (256 * ax + ax / 256) ||| dx

/-- AX and SI behind `strcmp`. SI has come as far as the strings are equal. -/
def strcmp (m : Mem) : Nat → UInt16 → UInt16 → Option (UInt16 × UInt16)
  | 0, _, _ => none
  | fuel + 1, si, di =>
    if m di = m si then
      if m si = 0 then some (0, si) else strcmp m fuel (si + 1) (di + 1)
    else some (1, si)

/-- How `search_block` is left. -/
inductive Leave where
  | kernFound (ax : UInt16)
  | notFound
  | searchFail (bp : UInt16)

def searchBlock (L : SearchLayout) (m : Mem) : Nat → UInt16 → UInt16 → Option Leave
  | 0, _, _ => none
  | fuel + 1, si, bp =>
    -- pushed before the comparison, popped by `kern_found`
    let inode := m.word (si + 12)
    match strcmp m fuel si L.kernelFile with
    | none => none
    | some (ax, si) =>
      if ax = 0 then some (.kernFound inode)
      else
        let bp := bp + 0x10
        if bp = m.word L.efsInode then some .notFound
        else
          let si := si + 0x10
          if si = L.efsBuffer + 1024 then some (.searchFail bp) else searchBlock L m fuel si bp

/-- What the search comes to: the inode number, the message that there is no such file, or
the restart behind the message about double indirect blocks. -/
inductive Result where
  | found (inode : UInt16)
  | notFound
  | restart

def findKernel (L : SearchLayout) (g : Geometry) (disk : Disk) :
    Nat → UInt16 → UInt16 → Mem → Option Result
  | 0, _, _, _ => none
  | fuel + 1, cx, bp, m =>
    match getBnum L.toLayout disk cx m with
    | none => some .restart
    | some (ax, m) =>
      let m := readFsBlock disk ax L.efsBuffer m
      -- the block number in CX does not survive the read
      let cx := g.cx (ax * 2 + 1)
      match searchBlock L m fuel L.efsBuffer bp with
      | none => none
      | some (.kernFound ax) => some (.found ax)
      | some .notFound => some .notFound
      | some (.searchFail bp) =>
        let cx := cx + 1
        if cx.toInt16 ≤ (m.word L.lastBlock).toInt16 then findKernel L g disk fuel cx bp m
        else some .notFound

/-- From `got_kernel_name` to `find_kernel`: the superblock and the root directory's inode. -/
def readRoot (L : SearchLayout) (disk : Disk) (m : Mem) : Mem :=
  let m := readSector disk 1 L.efsSuperblock m
  let m := readFsBlock disk (m.word (L.efsSuperblock + 4)) L.efsBuffer m
  let m := movsw 9 L.efsBuffer L.efsInode m
  m.setWord L.lastBlock (m.word L.efsInode / 1024)

def search (L : SearchLayout) (g : Geometry) (disk : Disk) (fuel : Nat) (m : Mem) : Option Result :=
  findKernel L g disk fuel 0 0 (readRoot L disk m)

/-- A string of memory with the zero behind it. -/
def Mem.Text (m : Mem) : UInt16 → List UInt8 → Prop
  | a, [] => m a = 0
  | a, x :: s => m a = x ∧ x ≠ 0 ∧ m.Text (a + 1) s

theorem Mem.text_of_bytes {m : Mem} {a : UInt16} {s : List UInt8} (text : 0 ∉ s)
    (bytes : ∀ j, j ≤ s.length → m (a + UInt16.ofNat j) = s.getD j 0) : m.Text a s := by
  induction s generalizing a with
  | nil =>
    have ended := bytes 0 le_rfl
    rw [show UInt16.ofNat 0 = 0 from rfl, UInt16.add_zero] at ended
    exact ended
  | cons x s ih =>
    have first := bytes 0 (Nat.zero_le _)
    refine ⟨by simpa using first, fun zero => text (by simp [zero]), ?_⟩
    apply ih (fun member => text (by simp [member]))
    intro j inside
    have next := bytes (j + 1) (by simpa using inside)
    rw [UInt16.add_assoc, UInt16.add_comm 1, UInt16.ofNat_add] at *
    simpa using next

theorem Mem.Text.congr {m m' : Mem} {a : UInt16} {s : List UInt8} (text : m.Text a s)
    (same : ∀ j, j ≤ s.length → m' (a + UInt16.ofNat j) = m (a + UInt16.ofNat j)) : m'.Text a s := by
  induction s generalizing a with
  | nil =>
    have ended := same 0 le_rfl
    rw [show UInt16.ofNat 0 = 0 from rfl, UInt16.add_zero] at ended
    exact ended.trans text
  | cons x s ih =>
    obtain ⟨first, nonzero, rest⟩ := text
    have head := same 0 (Nat.zero_le _)
    rw [show UInt16.ofNat 0 = 0 from rfl, UInt16.add_zero] at head
    refine ⟨head.trans first, nonzero, ih rest ?_⟩
    intro j inside
    have next := same (j + 1) (by simpa using inside)
    rw [Nat.add_comm j 1, UInt16.ofNat_add, ← UInt16.add_assoc] at next
    exact next

/-- The length of what two strings begin with. -/
def shared : List UInt8 → List UInt8 → Nat
  | x :: s, y :: t => if x = y then shared s t + 1 else 0
  | _, _ => 0

theorem shared_le (s t : List UInt8) : shared s t ≤ s.length := by
  induction s generalizing t with
  | nil => simp [shared]
  | cons x s ih =>
    cases t with
    | nil => simp [shared]
    | cons y t =>
      have rest := ih t
      simp only [shared, List.length_cons]
      split <;> omega

/-- `strcmp` tells the strings apart, and moves SI by what they share. -/
theorem strcmp_text {m : Mem} {si di : UInt16} {s t : List UInt8} (left : m.Text si s)
    (right : m.Text di t) {fuel : Nat} (enough : t.length < fuel) :
    strcmp m fuel si di = some (if s = t then 0 else 1, si + UInt16.ofNat (shared s t)) := by
  induction t generalizing fuel s si di with
  | nil =>
    obtain ⟨fuel, rfl⟩ : ∃ n, fuel = n + 1 := ⟨fuel - 1, by omega⟩
    have ended : m di = 0 := right
    cases s with
    | nil =>
      have ended' : m si = 0 := left
      simp [strcmp, ended, ended', shared]
    | cons x s =>
      have differ : m di ≠ m si := by
        rw [ended, left.1]
        exact Ne.symm left.2.1
      simp [strcmp, differ, shared]
  | cons y t ih =>
    obtain ⟨fuel, rfl⟩ : ∃ n, fuel = n + 1 := ⟨fuel - 1, by simp at enough; omega⟩
    cases s with
    | nil =>
      have ended : m si = 0 := left
      have differ : m di ≠ m si := by
        rw [ended, right.1]
        exact right.2.1
      simp [strcmp, differ, shared]
    | cons x s =>
      by_cases same : x = y
      · subst same
        have equal : m di = m si := by rw [left.1, right.1]
        have going : m si ≠ 0 := by
          rw [left.1]
          exact left.2.1
        have step : si + 1 + UInt16.ofNat (shared s t) = si + UInt16.ofNat (shared s t + 1) := by
          rw [UInt16.add_assoc, UInt16.add_comm 1, UInt16.ofNat_add]
          rfl
        rw [strcmp, if_pos equal, if_neg going, ih left.2.2 right.2.2 (by simpa using enough), step]
        simp [shared]
      · have differ : m di ≠ m si := by
          rw [left.1, right.1]
          exact Ne.symm same
        simp [strcmp, differ, shared, same]

/-- Words copied upwards are the bytes copied one by one. -/
theorem movsw_movsb (cx : Nat) (si di : UInt16) (m : Mem) (down : di.toNat < si.toNat)
    (room : si.toNat + 2 * cx < 65536) : movsw cx si di m = movsb (2 * cx) si di m := by
  induction cx generalizing si di m with
  | zero => rfl
  | succ cx ih =>
    have nextS : (si + 2).toNat = si.toNat + 2 := by rw [UInt16.toNat_add]; simp; omega
    have nextD : (di + 2).toNat = di.toNat + 2 := by rw [UInt16.toNat_add]; simp; omega
    have apart : si + 1 ≠ di := by
      intro same
      have value := congrArg UInt16.toNat same
      rw [UInt16.toNat_add] at value
      simp only [UInt16.reduceToNat] at value
      omega
    have low : (m.word si).toUInt8 = m si := by
      apply UInt8.toNat_inj.mp
      have b0 := (m si).toNat_lt
      have b1 := (m (si + 1)).toNat_lt
      simp only [Mem.word, UInt16.toNat_toUInt8, UInt16.toNat_add, UInt16.toNat_mul,
        UInt8.toNat_toUInt16]
      simp
    have high : (m.word si / 256).toUInt8 = m (si + 1) := by
      apply UInt8.toNat_inj.mp
      have b0 := (m si).toNat_lt
      have b1 := (m (si + 1)).toNat_lt
      simp only [Mem.word, UInt16.toNat_toUInt8, UInt16.toNat_div, UInt16.toNat_add, UInt16.toNat_mul,
        UInt8.toNat_toUInt16]
      simp
      omega
    have second : (m.set di (m si)) (si + 1) = m (si + 1) := by rw [Mem.set, if_neg apart]
    rw [movsw, ih _ _ _ (by omega) (by omega), show 2 * (cx + 1) = 2 * cx + 1 + 1 by omega, movsb, movsb,
      second, Mem.setWord, low, high, UInt16.add_assoc, UInt16.add_assoc]
    rfl

end Sos.Boot
