import Sos.Lib.Bytes

/-! The second boot stage's access to the file system: 16-bit code on the segment that
holds its own buffers. `read_sector` stands for the BIOS and the disk behind it. -/

namespace Sos.Boot
open Sos.Lib.Bytes

/-- The bytes of one segment. -/
abbrev Mem := UInt16 → UInt8

/-- `movw (a), reg`. -/
def Mem.word (m : Mem) (a : UInt16) : UInt16 := (m a).toUInt16 + 256 * (m (a + 1)).toUInt16

def Mem.set (m : Mem) (a : UInt16) (b : UInt8) : Mem := fun x => if x = a then b else m x

def Mem.setWord (m : Mem) (a v : UInt16) : Mem := (m.set a v.toUInt8).set (a + 1) (v / 256).toUInt8

/-- Where the assembler puts the data behind the code; the buffer is the last of it. -/
structure Layout where
  efsSuperblock : UInt16
  room : efsSuperblock.toNat + 1082 ≤ 65536

namespace Layout
variable (L : Layout)

def efsInode : UInt16 := L.efsSuperblock + 20
def efsInodeDatablks : UInt16 := L.efsInode + 8
def lastBlock : UInt16 := L.efsInode + 36
def efsBuffer : UInt16 := L.efsInode + 38

end Layout

/-- The sectors that the BIOS returns. -/
abbrev Disk := UInt16 → Buf 512

/-- Sector `ax` to the address `bx`. -/
def readSector (disk : Disk) (ax bx : UInt16) (m : Mem) : Mem := fun a =>
  if (a - bx).toNat < 512 then (disk ax).byte (a - bx).toNat else m a

/-- Two sectors make a file system block. -/
def readFsBlock (disk : Disk) (ax bx : UInt16) (m : Mem) : Mem :=
  let ax := ax * 2
  let m := readSector disk ax bx m
  readSector disk (ax + 1) (bx + 0x200) m

/-- `rep movsb` upwards, with the count still to go. -/
def movsb : Nat → UInt16 → UInt16 → Mem → Mem
  | 0, _, _, m => m
  | cx + 1, si, di, m => movsb cx (si + 1) (di + 1) (m.set di (m si))

def readInode (L : Layout) (disk : Disk) (ax : UInt16) (m : Mem) : Mem :=
  let dx := ax % 16
  let ax := ax / 16
  let m := readFsBlock disk (ax + m.word (L.efsSuperblock + 4)) L.efsBuffer m
  movsb 64 (L.efsBuffer + 64 * dx) L.efsInode m

/-- The block number in AX and the memory, or `none` where the message about double
indirect blocks is printed and the machine restarted. Comparisons are signed. -/
def getBnum (L : Layout) (disk : Disk) (ax : UInt16) (m : Mem) : Option (UInt16 × Mem) :=
  if ax.toInt16 < 5 then
    let si := L.efsInodeDatablks + 4 * ax
    some (m.word si + m.word (L.efsSuperblock + 12), m)
  else if ax.toInt16 < 0x105 then
    let bx := m.word (L.efsSuperblock + 0xC)
    let m := readFsBlock disk (m.word (L.efsInode + 0x1C) + bx) L.efsBuffer m
    let si := L.efsBuffer + 4 * (ax - 5)
    some (m.word si + m.word (L.efsSuperblock + 12), m)
  else none

theorem Mem.word_setWord (m : Mem) (a v : UInt16) : (m.setWord a v).word a = v := by
  have apart : a ≠ a + 1 := by
    intro same
    have value := congrArg UInt16.toNat same
    have bound := a.toNat_lt
    rw [UInt16.toNat_add] at value
    simp only [UInt16.reduceToNat] at value
    omega
  have low := v.toNat_lt
  rw [Mem.word, Mem.setWord, Mem.set, Mem.set, if_neg apart, if_pos rfl, Mem.set, if_pos rfl]
  apply UInt16.toNat_inj.mp
  rw [UInt16.toNat_add, UInt16.toNat_mul]
  simp
  omega

theorem Mem.setWord_other (m : Mem) (a v : UInt16) {x : UInt16} (first : x ≠ a) (second : x ≠ a + 1) :
    (m.setWord a v) x = m x := by
  rw [Mem.setWord, Mem.set, if_neg second, Mem.set, if_neg first]

theorem readSector_toNat (disk : Disk) (ax bx : UInt16) (m : Mem) (room : bx.toNat + 512 ≤ 65536)
    (a : UInt16) : readSector disk ax bx m a =
      if bx.toNat ≤ a.toNat ∧ a.toNat < bx.toNat + 512 then (disk ax).byte (a.toNat - bx.toNat)
      else m a := by
  have bound := a.toNat_lt
  have sub : (a - bx).toNat = (65536 - bx.toNat + a.toNat) % 65536 := UInt16.toNat_sub a bx
  unfold readSector
  by_cases inside : bx.toNat ≤ a.toNat ∧ a.toNat < bx.toNat + 512
  · have distance : (a - bx).toNat = a.toNat - bx.toNat := by omega
    rw [if_pos inside, distance, if_pos (by omega)]
  · rw [if_neg inside, if_neg (by omega)]

theorem second_half {bx : UInt16} (room : bx.toNat + 1024 ≤ 65536) :
    (bx + 0x200).toNat = bx.toNat + 512 := by
  rw [UInt16.toNat_add]
  simp
  omega

/-- The bytes of a block as its two sectors give them. -/
theorem readFsBlock_toNat (disk : Disk) (ax bx : UInt16) (m : Mem) (room : bx.toNat + 1024 ≤ 65536)
    (a : UInt16) : readFsBlock disk ax bx m a =
      if bx.toNat ≤ a.toNat ∧ a.toNat < bx.toNat + 512 then (disk (ax * 2)).byte (a.toNat - bx.toNat)
      else if bx.toNat + 512 ≤ a.toNat ∧ a.toNat < bx.toNat + 1024 then
        (disk (ax * 2 + 1)).byte (a.toNat - (bx.toNat + 512))
      else m a := by
  have second := second_half room
  unfold readFsBlock
  rw [readSector_toNat _ _ _ _ (by omega), second, readSector_toNat _ _ _ _ (by omega)]
  by_cases low : bx.toNat ≤ a.toNat ∧ a.toNat < bx.toNat + 512
  · rw [if_neg (by omega), if_pos low, if_pos low]
  · rw [if_neg low, if_neg low]

/-- The first byte of a copy, seen from where the rest does not reach. -/
theorem Mem.set_first (m : Mem) (si di : UInt16) {cx : Nat} {a : UInt16}
    (outside : ¬(di.toNat + 1 ≤ a.toNat ∧ a.toNat < di.toNat + 1 + cx)) : m.set di (m si) a =
      if di.toNat ≤ a.toNat ∧ a.toNat < di.toNat + (cx + 1) then
        m (si + UInt16.ofNat (a.toNat - di.toNat))
      else m a := by
  rw [Mem.set]
  by_cases self : a = di
  · rw [if_pos self, self, if_pos (by omega), Nat.sub_self]
    simp
  · have differ : a.toNat ≠ di.toNat := fun h => self (UInt16.toNat_inj.mp h)
    rw [if_neg self, if_neg (by omega)]

/-- A copy to lower addresses does not run into itself. -/
theorem movsb_toNat (cx : Nat) (si di : UInt16) (m : Mem) (down : di.toNat < si.toNat)
    (room : si.toNat + cx ≤ 65536) (a : UInt16) : movsb cx si di m a =
      if di.toNat ≤ a.toNat ∧ a.toNat < di.toNat + cx then
        m (si + UInt16.ofNat (a.toNat - di.toNat))
      else m a := by
  induction cx generalizing si di m with
  | zero => rw [movsb, if_neg (by omega)]
  | succ cx ih =>
    by_cases wrap : si.toNat + 1 = 65536
    · have last : cx = 0 := by omega
      subst last
      rw [movsb, movsb]
      exact m.set_first si di (by omega)
    · have bound := si.toNat_lt
      have nextS : (si + 1).toNat = si.toNat + 1 := by rw [UInt16.toNat_add]; simp; omega
      have nextD : (di + 1).toNat = di.toNat + 1 := by rw [UInt16.toNat_add]; simp; omega
      rw [movsb, ih _ _ _ (by omega) (by omega), nextD]
      by_cases rest : di.toNat + 1 ≤ a.toNat ∧ a.toNat < di.toNat + 1 + cx
      · have source : si + 1 + UInt16.ofNat (a.toNat - (di.toNat + 1)) =
            si + UInt16.ofNat (a.toNat - di.toNat) := by
          apply UInt16.toNat_inj.mp
          simp only [UInt16.toNat_add, UInt16.toNat_ofNat', nextS]
          omega
        have apart : si + UInt16.ofNat (a.toNat - di.toNat) ≠ di := by
          intro same
          have value := congrArg UInt16.toNat same
          simp only [UInt16.toNat_add, UInt16.toNat_ofNat'] at value
          omega
        rw [if_pos rest, if_pos (by omega), source, Mem.set, if_neg apart]
      · rw [if_neg rest]
        exact m.set_first si di rest

end Sos.Boot
