import Mathlib.Data.Fin.Basic
import Mathlib.Data.Nat.Bitwise
import Sos.Lib.Prog

/-! The registers of the four 8-bit channels of the DMA controller, and the writes to them that set up
a transfer. -/

namespace Sos.Kernel
open Sos.Lib

@[ext]
structure DmaChannel where
  page : UInt8
  offset : UInt16
  count : UInt16
  mode : UInt8
  masked : Bool
deriving DecidableEq

/-- The page register is for the address bits from 16 on. -/
def DmaChannel.address (ch : DmaChannel) : ℕ := 65536 * ch.page.toNat + ch.offset.toNat

structure Dma where
  channel : Fin 4 → DmaChannel
  /-- The flip-flop: the byte of an offset or a count that comes next is the high one. -/
  high : Bool

namespace Dma

def update (k : Fin 4) (f : DmaChannel → DmaChannel) (s : Dma) : Dma :=
  { s with channel := fun j => if j = k then f (s.channel j) else s.channel j }

/-- The lower two bits of a byte select a channel. -/
def select (v : UInt8) : Fin 4 := ⟨v.toNat % 4, Nat.mod_lt _ (by decide)⟩

def loadByte (high : Bool) (v : UInt8) (old : UInt16) : UInt16 :=
  UInt16.ofNat (if high then old.toNat % 256 + 256 * v.toNat else old.toNat / 256 * 256 + v.toNat)

/-- The channel that a page register belongs to. -/
def pageOf (port : UInt32) : Option (Fin 4) :=
  if port = 0x87 then some (select 0)
  else if port = 0x83 then some (select 1)
  else if port = 0x81 then some (select 2)
  else if port = 0x82 then some (select 3)
  else none

/-- The controller takes a byte at one of its ports. -/
def write (port : UInt32) (v : UInt8) (s : Dma) : Dma :=
  if port = 0x0A then s.update (select v) fun ch => { ch with masked := decide (v &&& 4 ≠ 0) }
  else if port = 0x0B then s.update (select v) fun ch => { ch with mode := v &&& 0xFC }
  else if port = 0x0C then { s with high := false }
  else if port < 8 then
    let t := s.update ⟨port.toNat / 2 % 4, Nat.mod_lt _ (by decide)⟩ fun ch =>
      if port % 2 = 0 then { ch with offset := loadByte s.high v ch.offset }
      else { ch with count := loadByte s.high v ch.count }
    { t with high := !s.high }
  else
    match pageOf port with
    | some k => s.update k fun ch => { ch with page := v }
    | none => s

end Dma
open Dma

def ioMode : UInt32 := 0x0B

def ioMask : UInt32 := 0x0A

def ioPage : List UInt32 := [0x87, 0x83, 0x81, 0x82, 0x8F, 0x8B, 0x89, 0x8A]

def ioOffs : List UInt32 := [0x0, 0x2, 0x4, 0x6, 0xC0, 0xC4, 0xC8, 0xCC]

def ioCount : List UInt32 := [0x1, 0x3, 0x5, 0x7, 0xC2, 0xC6, 0xCA, 0xCE]

def ioClear : UInt32 := 0x0C

/-- `bus_space_write_8` with `I386_BUS_IO_T`. -/
def Dma.outb (port : UInt32) (v : UInt8) : Prog Dma Unit := Prog.modify (write port v)

/-- An entry of a table, which is to be inside of it. -/
def portAt (table : List UInt32) (i : UInt32) : Prog Dma UInt32 :=
  match table[i.toNat]? with
  | some port => return port
  | none => Prog.fault

def dmaDisableChannel8 (c : UInt32) : Prog Dma Unit := Dma.outb ioMask ((0x3 &&& c) ||| 0x4).toUInt8

def dmaEnableChannel8 (c : UInt32) : Prog Dma Unit := Dma.outb ioMask ((0x3 &&& c) &&& ~~~0x4).toUInt8

def dmaSetMode8 (c m : UInt32) : Prog Dma Unit := Dma.outb ioMode ((0x3 &&& c) ||| m).toUInt8

def dmaSetPage8 (c p : UInt32) : Prog Dma Unit := do
  Dma.outb (← portAt ioPage (c - 1)) (0xFF &&& p).toUInt8

/-- Two bytes to one port, the low one first. -/
def dmaSetWord8 (table : List UInt32) (c v : UInt32) : Prog Dma Unit := do
  Dma.outb (← portAt table (c - 1)) (0xFF &&& v).toUInt8
  Dma.outb (← portAt table (c - 1)) ((0xFF : UInt32) &&& v >>> 8).toUInt8

def dmaSetOffset8 (c o : UInt32) : Prog Dma Unit := dmaSetWord8 ioOffs c o

def dmaSetCount8 (c n : UInt32) : Prog Dma Unit := dmaSetWord8 ioCount c n

def dmaClearCurChan : Prog Dma Unit := Dma.outb ioClear 0

def dmaProgram8 (channel addr count mode : UInt32) : Prog Dma Unit := do
  let page := addr / 0xFFFF
  let offset := addr % 0xFFFF
  dmaDisableChannel8 channel
  dmaSetMode8 channel mode
  dmaSetPage8 channel page
  dmaClearCurChan
  dmaSetOffset8 channel offset
  dmaClearCurChan
  dmaSetCount8 channel count
  dmaEnableChannel8 channel

/-- The tables are indexed with one less than the channel `k`, and so the ports are those of the one before. -/
def Tabled (c : UInt32) (k d : Fin 4) : Prop :=
  c = 1 ∧ k = select 1 ∧ d = select 0 ∨ c = 2 ∧ k = select 2 ∧ d = select 1 ∨
    c = 3 ∧ k = select 3 ∧ d = select 2

section
variable {c : UInt32} {k d : Fin 4}

theorem low_byte (v : UInt32) : ((0xFF &&& v).toUInt8).toNat = v.toNat % 256 := by
  rw [UInt32.toNat_toUInt8, UInt32.toNat_and]
  change (255 &&& v.toNat) % 2 ^ 8 = v.toNat % 256
  rw [Nat.and_comm, show 255 = 2 ^ 8 - 1 by rfl, Nat.and_two_pow_sub_one_eq_mod, Nat.mod_mod]

theorem high_byte (v : UInt32) : (((0xFF : UInt32) &&& v >>> 8).toUInt8).toNat = v.toNat / 256 % 256 := by
  rw [low_byte, UInt32.toNat_shiftRight, Nat.shiftRight_eq_div_pow]
  rfl

/-- The low byte and the high byte make up the word, whatever there was. -/
theorem loadByte_loadByte (v : UInt32) (old : UInt16) :
    loadByte true ((0xFF : UInt32) &&& v >>> 8).toUInt8 (loadByte false (0xFF &&& v).toUInt8 old) =
      UInt16.ofNat v.toNat := by
  unfold loadByte
  rw [low_byte, high_byte]
  apply UInt16.toNat_inj.mp
  have bound := old.toNat_lt
  simp
  omega

theorem dmaSetPage8_done (tabled : Tabled c k d) (p : UInt32) (s : Dma) : dmaSetPage8 c p s =
    .done () (s.update d fun ch => { ch with page := (0xFF &&& p).toUInt8 }) := by
  rcases tabled with ⟨rfl, rfl, rfl⟩ | ⟨rfl, rfl, rfl⟩ | ⟨rfl, rfl, rfl⟩ <;> rfl

/-- A byte for one of the words of a channel. -/
def loaded (k : Fin 4) (get : DmaChannel → UInt16) (put : UInt16 → DmaChannel → DmaChannel) (v : UInt8)
    (s : Dma) : Dma :=
  { s.update k fun ch => put (loadByte s.high v (get ch)) ch with high := !s.high }

theorem loaded_loaded (k : Fin 4) (get : DmaChannel → UInt16) (put : UInt16 → DmaChannel → DmaChannel)
    (get_put : ∀ v ch, get (put v ch) = v) (put_put : ∀ v w ch, put v (put w ch) = put v ch) (v : UInt32)
    {s : Dma} (low : s.high = false) :
    loaded k get put ((0xFF : UInt32) &&& v >>> 8).toUInt8 (loaded k get put (0xFF &&& v).toUInt8 s) =
      s.update k (put (UInt16.ofNat v.toNat)) := by
  unfold loaded update
  rw [Dma.mk.injEq]
  constructor
  · funext j
    dsimp only
    by_cases here : j = k
    · rw [if_pos here, if_pos here, if_pos here, get_put, put_put, low]
      exact congrArg (fun w => put w (s.channel j)) (loadByte_loadByte v (get (s.channel j)))
    · rw [if_neg here, if_neg here, if_neg here]
  · rw [Bool.not_not]

theorem dmaSetOffset8_done (tabled : Tabled c k d) (o : UInt32) {s : Dma} (low : s.high = false) :
    dmaSetOffset8 c o s = .done () (s.update d fun ch => { ch with offset := UInt16.ofNat o.toNat }) := by
  have twice := loaded_loaded d DmaChannel.offset (fun w ch => { ch with offset := w })
    (fun _ _ => rfl) (fun _ _ _ => rfl) o low
  rw [← twice]
  rcases tabled with ⟨rfl, rfl, rfl⟩ | ⟨rfl, rfl, rfl⟩ | ⟨rfl, rfl, rfl⟩ <;> rfl

theorem dmaSetCount8_done (tabled : Tabled c k d) (n : UInt32) {s : Dma} (low : s.high = false) :
    dmaSetCount8 c n s = .done () (s.update d fun ch => { ch with count := UInt16.ofNat n.toNat }) := by
  have twice := loaded_loaded d DmaChannel.count (fun w ch => { ch with count := w })
    (fun _ _ => rfl) (fun _ _ _ => rfl) n low
  rw [← twice]
  rcases tabled with ⟨rfl, rfl, rfl⟩ | ⟨rfl, rfl, rfl⟩ | ⟨rfl, rfl, rfl⟩ <;> rfl

/-- The mode selects its channel again. -/
def modeByte (c m : UInt32) : UInt8 := ((0x3 &&& c) ||| m).toUInt8

/-- What becomes of the registers of channel `j`, when `k` is programmed and the tables lead to `d`. -/
def programmed (k d : Fin 4) (addr count : UInt32) (mode : UInt8) (j : Fin 4) (ch : DmaChannel) : DmaChannel :=
  { page := if j = d then (0xFF &&& (addr / 0xFFFF)).toUInt8 else ch.page
    offset := if j = d then UInt16.ofNat (addr % 0xFFFF).toNat else ch.offset
    count := if j = d then UInt16.ofNat count.toNat else ch.count
    mode := if j = select mode then mode &&& 0xFC else ch.mode
    masked := if j = k then false else ch.masked }

theorem dmaProgram8_done (tabled : Tabled c k d) (addr count mode : UInt32)
    (s : Dma) : dmaProgram8 c addr count mode s =
      .done () ⟨fun j => programmed k d addr count (modeByte c mode) j (s.channel j), false⟩ := by
  have disable (s : Dma) : dmaDisableChannel8 c s = .done () (s.update k fun ch => { ch with masked := true }) := by
    rcases tabled with ⟨rfl, rfl, rfl⟩ | ⟨rfl, rfl, rfl⟩ | ⟨rfl, rfl, rfl⟩ <;> rfl
  have enable (s : Dma) : dmaEnableChannel8 c s = .done () (s.update k fun ch => { ch with masked := false }) := by
    rcases tabled with ⟨rfl, rfl, rfl⟩ | ⟨rfl, rfl, rfl⟩ | ⟨rfl, rfl, rfl⟩ <;> rfl
  have setMode (s : Dma) : dmaSetMode8 c mode s = .done () (s.update (select (modeByte c mode)) fun ch =>
      { ch with mode := modeByte c mode &&& 0xFC }) := rfl
  have clear (s : Dma) : dmaClearCurChan s = .done () { s with high := false } := rfl
  unfold dmaProgram8
  rw [Prog.bind_done _ (disable s), Prog.bind_done _ (setMode _), Prog.bind_done _ (dmaSetPage8_done tabled _ _),
    Prog.bind_done _ (clear _), Prog.bind_done _ (dmaSetOffset8_done tabled _ rfl), Prog.bind_done _ (clear _),
    Prog.bind_done _ (dmaSetCount8_done tabled _ rfl), enable, Outcome.done.injEq]
  refine ⟨rfl, ?_⟩
  unfold update
  rw [Dma.mk.injEq]
  refine ⟨?_, rfl⟩
  funext j
  dsimp only [programmed]
  split_ifs <;> rfl

/-- A channel keeps its registers when the ones that are written hold the same already. -/
theorem programmed_other (addr count : UInt32) (mode : UInt8) {j : Fin 4} (other : j ≠ k) (ch : DmaChannel) :
    programmed k d addr count mode j ch = ch ↔
      (j = d → ch.page.toNat = addr.toNat / 0xFFFF % 256 ∧ ch.offset.toNat = addr.toNat % 0xFFFF ∧
        ch.count.toNat = count.toNat % 65536) ∧
      (j = select mode → ch.mode = mode &&& 0xFC) := by
  have page : ((0xFF &&& (addr / 0xFFFF)).toUInt8 = ch.page) = (ch.page.toNat = addr.toNat / 0xFFFF % 256) := by
    rw [← UInt8.toNat_inj, low_byte, UInt32.toNat_div]
    exact propext eq_comm
  have offset : (UInt16.ofNat (addr % 0xFFFF).toNat = ch.offset) = (ch.offset.toNat = addr.toNat % 0xFFFF) := by
    have small : addr.toNat % 65535 < 65536 := by omega
    rw [← UInt16.toNat_inj, UInt16.toNat_ofNat', UInt32.toNat_mod]
    change (addr.toNat % 65535 % 65536 = _) = _
    rw [Nat.mod_eq_of_lt small]
    exact propext eq_comm
  have words : (UInt16.ofNat count.toNat = ch.count) = (ch.count.toNat = count.toNat % 65536) := by
    rw [← UInt16.toNat_inj, UInt16.toNat_ofNat']
    exact propext eq_comm
  have mode_iff : (mode &&& 0xFC = ch.mode) = (ch.mode = mode &&& 0xFC) := propext eq_comm
  rw [← page, ← offset, ← words, ← mode_iff, programmed, DmaChannel.ext_iff, if_neg other]
  simp only [ite_eq_right_iff, imp_and, and_assoc, and_true]

end

/-- The transfer is set up on channel `k` and nothing else is changed. -/
structure Programs (k : Fin 4) (addr count : UInt32) (s t : Dma) : Prop where
  unmasked : (t.channel k).masked = false
  address : (t.channel k).address = addr.toNat
  counts : (t.channel k).count.toNat = count.toNat
  others : ∀ j, j ≠ k → t.channel j = s.channel j

/-- What is to be written is there already, and what is written besides as well. -/
structure Preset (k : Fin 4) (addr count mode : UInt32) (s : Dma) : Prop where
  tabled : k ≠ 0
  address : (s.channel k).address = addr.toNat
  counts : (s.channel k).count.toNat = count.toNat
  page : (s.channel (k - 1)).page.toNat = addr.toNat / 0xFFFF % 256
  offset : (s.channel (k - 1)).offset.toNat = addr.toNat % 0xFFFF
  words : (s.channel (k - 1)).count.toNat = count.toNat
  mode : select (modeByte (UInt32.ofNat k.val) mode) ≠ k →
    (s.channel (select (modeByte (UInt32.ofNat k.val) mode))).mode = modeByte (UInt32.ofNat k.val) mode &&& 0xFC

theorem tabled_of_ne : ∀ k : Fin 4, k ≠ 0 → Tabled (UInt32.ofNat k.val) k (k - 1) := by
  unfold Tabled
  decide

theorem before_ne : ∀ k : Fin 4, k ≠ k - 1 := by decide

/-- Channel 0 has no entries in the tables. -/
theorem dmaProgram8_zero (addr count mode : UInt32) (s : Dma) : dmaProgram8 0 addr count mode s = .fault := rfl

theorem dmaProgram8_iff (k : Fin 4) (addr count mode : UInt32) (s : Dma) :
    (∃ t, dmaProgram8 (UInt32.ofNat k.val) addr count mode s = .done () t ∧ Programs k addr count s t) ↔
      Preset k addr count mode s := by
  by_cases zero : k = 0
  · subst zero
    constructor
    · rintro ⟨t, run, -⟩
      cases (dmaProgram8_zero addr count mode s).symm.trans run
    · intro preset
      exact absurd rfl preset.tabled
  · have run := dmaProgram8_done (tabled_of_ne k zero) addr count mode s
    have own := before_ne k
    rw [run]
    constructor
    · rintro ⟨t, done, programs⟩
      rw [Outcome.done.injEq] at done
      obtain ⟨-, rfl⟩ := done
      have table := (programmed_other addr count _ own.symm _).mp (programs.others (k - 1) own.symm)
      obtain ⟨page, offset, words⟩ := table.1 rfl
      have address := programs.address
      have counts := programs.counts
      simp only [programmed, DmaChannel.address, if_neg own] at address counts
      have small := (s.channel k).count.toNat_lt
      refine ⟨zero, address, counts, page, offset, ?_, ?_⟩
      · rw [words, ← counts, Nat.mod_eq_of_lt small]
      · intro other
        exact ((programmed_other addr count _ other _).mp (programs.others _ other)).2 rfl
    · intro preset
      refine ⟨_, rfl, ?_, ?_, ?_, ?_⟩
      · exact if_pos rfl
      · simp only [programmed, DmaChannel.address, if_neg own]
        exact preset.address
      · simp only [programmed, if_neg own]
        exact preset.counts
      · intro j other
        refine (programmed_other addr count _ other _).mpr ⟨?_, ?_⟩
        · rintro rfl
          have small := (s.channel k).count.toNat_lt
          refine ⟨preset.page, preset.offset, ?_⟩
          rw [preset.words, ← preset.counts, Nat.mod_eq_of_lt small]
        · rintro rfl
          exact preset.mode other

/-- Nothing is set. -/
def idleDma : Dma := ⟨fun _ => ⟨0, 0, 0, 0, false⟩, false⟩

/-- Channel 2 is set up for the floppy disk, and channel 1 gets its address and its count. -/
theorem dmaProgram8_floppy : ¬∃ t, dmaProgram8 2 0x1000 511 0x46 idleDma = .done () t ∧
    Programs 2 0x1000 511 idleDma t := by
  intro programmed
  have preset := (dmaProgram8_iff 2 0x1000 511 0x46 idleDma).mp programmed
  exact absurd preset.address (by decide)

end Sos.Kernel
