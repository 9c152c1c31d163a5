import Sos.Boot.Agreement
import Sos.Efs.Integrity

/-! Which names the boot loader looks up as the library does. -/

namespace Sos.Boot
open Sos.Lib Sos.Lib.Bytes Sos.Efs

theorem KernelFile.text {L : SearchLayout} {filename : Name} {m : Mem} (kernel : KernelFile L filename m)
    (terminated : filename.str.length ≤ 11) : m.Text L.kernelFile filename.str := by
  have whole : (cstr 12 filename.byte).length ≤ 11 := terminated
  apply Mem.text_of_bytes (cstr_text 12 _)
  intro j inside
  change j ≤ (cstr 12 filename.byte).length at inside
  rw [kernel j (by omega)]
  exact (cstr_getD 12 _ j (by omega) inside).symm

theorem stop_iff (d : Device) (w : List UInt8) (p : Nat) :
    Stop d w p ↔ (List.range d.entries).find? (fun e => Hit d w e) = some p := by
  rw [List.find?_range_eq_some, List.mem_range]
  constructor
  · rintro ⟨inside, hit, before⟩
    exact ⟨by simpa using hit, inside, fun e below => by simpa using before e below⟩
  · rintro ⟨hit, inside, before⟩
    exact ⟨inside, by simpa using hit, fun e below => by simpa using before e below⟩

section
variable {d : Device} {cnt : Nat}

theorem Scanned.word {L : SearchLayout} {w : List UInt8} {m : Mem} (scanned : Scanned L d cnt w m) {p : Nat}
    (inside : 16 * p + drift d w p + 14 ≤ 1024) : m.word (L.entry d w p + 12) =
      ((d.data 0).word (16 * p + drift d w p + 12)).toUInt16 := by
  have address : ∀ k : Nat, L.entry d w p + UInt16.ofNat k =
      L.efsSuperblock + UInt16.ofNat (58 + (16 * p + drift d w p + k)) := by
    intro k
    rw [SearchLayout.entry, UInt16.add_assoc, ← UInt16.ofNat_add, Nat.add_assoc]
  have first := address 12
  have second := address 13
  refine Mem.word_eq ?_ ?_
  · change m (L.entry d w p + UInt16.ofNat 12) = _
    rw [first, scanned.entries _ (by omega)]
  · rw [UInt16.add_assoc]
    change m (L.entry d w p + UInt16.ofNat 13) = _
    rw [second, scanned.entries _ (by omega)]

variable (f : Formatted d) (dir : Directory d cnt) (padded : Padded d) {filename : Name}
  (terminated : filename.str.length ≤ 11)
include f dir padded terminated

theorem Right.agrees (right : Right d filename.str) : Agrees d filename := by
  intro L g m kernel
  obtain ⟨m', scanned, _, run⟩ := search_scan f dir padded terminated (kernel.text terminated)
  refine ⟨_, 77, _, findFile_done f.rooted dir filename, fun more enough => run g more enough, ?_⟩
  rw [← entries_eq dir]
  unfold Right at right
  cases found : d.lookup filename.str with
  | none =>
    rw [found] at right
    cases stopped : (List.range d.entries).find? fun e => Hit d filename.str e with
    | none => trivial
    | some p => exact absurd ((stop_iff _ _ _).mpr stopped) (right p)
  | some i =>
    rw [found] at right
    obtain ⟨p, stop, inside, number⟩ := right
    rw [(stop_iff _ _ _).mp stop]
    change (m'.word (L.entry d filename.str p + 12)).toNat = i.toNat
    rw [scanned.word inside, number]

/-- What memory may hold: the wanted name, and ones everywhere else. -/
def probe (filename : Name) : Mem := fun a =>
  if 100 ≤ a.toNat ∧ a.toNat < 112 then filename.byte (a.toNat - 100) else 0xFF

/-- A layout whose data end far below the top of the segment. -/
def lowLayout : SearchLayout := ⟨⟨1000, by decide⟩, 100, by decide⟩

omit f dir padded terminated in
theorem kernelFile_probe : KernelFile lowLayout filename (probe filename) := by
  intro j inside
  have address : (lowLayout.kernelFile + UInt16.ofNat j).toNat = 100 + j := by
    rw [UInt16.toNat_add, UInt16.toNat_ofNat']
    change (100 + j % 2 ^ 16) % 2 ^ 16 = 100 + j
    omega
  rw [probe, address, if_pos (by omega)]
  congr 1
  omega

omit f dir terminated in
/-- Bytes behind the buffer are no inode number. -/
theorem word_probe {m : Mem} (frames : Frames lowLayout.toLayout (probe filename) m) {p : Nat} (below : p < 64)
    (outside : 1024 < 16 * p + drift d filename.str p + 14) :
    64 ≤ (m.word (lowLayout.entry d filename.str p + 12)).toNat := by
  have ahead := drift_le padded filename.str (show p ≤ 64 by omega)
  have address : (lowLayout.entry d filename.str p + 12 + 1).toNat =
      1000 + (58 + (16 * p + drift d filename.str p) + 13) := by
    rw [SearchLayout.entry, UInt16.add_assoc, UInt16.add_assoc, UInt16.toNat_add,
      UInt16.toNat_add, UInt16.toNat_ofNat']
    change (1000 + ((58 + (16 * p + drift d filename.str p)) % 2 ^ 16 + 13) % 2 ^ 16) % 2 ^ 16 = _
    omega
  have ones : m (lowLayout.entry d filename.str p + 12 + 1) = 0xFF := by
    rw [frames _ (Or.inr (by rw [address]; change 1000 + 1082 ≤ _; omega)), probe, address,
      if_neg (by omega)]
  have byte := (m (lowLayout.entry d filename.str p + 12)).toNat_lt
  rw [Mem.word, ones, UInt16.toNat_add, UInt16.toNat_mul]
  simp
  omega

omit f padded terminated in
/-- The empty name moves the pointer nowhere, and nothing is listed under it. -/
theorem not_hit_nil {p : Nat} (inside : p < cnt) : ¬Hit d [] p := by
  have still : drift d [] p = 0 := by
    rw [drift_zero_iff]
    intro e _
    cases d.entryStr e <;> rfl
  intro hit
  rw [Hit, still] at hit
  exact entryStr_ne_nil dir inside hit

theorem Agrees.right (agrees : Agrees d filename) :
    (filename.str = [] → d.entries = 64) ∧ Right d filename.str := by
  have count := entries_eq dir
  have last := dir.last
  obtain ⟨m', scanned, frames, run⟩ := search_scan f dir padded terminated
    (kernelFile_probe.text terminated)
  obtain ⟨answer, fuel, result, search, ends, same⟩ := agrees lowLayout ⟨18, 2⟩ (probe filename)
    kernelFile_probe
  rw [findFile_done f.rooted dir filename] at search
  cases search
  have value := run ⟨18, 2⟩ (fuel + 77) (by omega)
  rw [ends _ (by omega), ← count] at value
  cases value
  constructor
  · intro empty
    by_contra more
    have blank : d.entryStr cnt = [] := dir.blank_str cnt le_rfl (by omega)
    cases found : d.lookup filename.str with
    | none => exact Device.lookup_none found cnt (by omega) (by rw [blank, empty])
    | some i =>
      rw [found] at same
      cases stopped : (List.range d.entries).find? fun e => Hit d filename.str e with
      | none =>
        rw [stopped] at same
        exact same
      | some p =>
        have stop := (stop_iff _ _ _).mpr stopped
        exact not_hit_nil dir (count ▸ stop.inside) (empty ▸ stop.hit)
  · unfold Right
    cases found : d.lookup filename.str with
    | none =>
      intro p stop
      rw [found, (stop_iff _ _ _).mp stop] at same
      exact same
    | some i =>
      rw [found] at same
      cases stopped : (List.range d.entries).find? fun e => Hit d filename.str e with
      | none =>
        rw [stopped] at same
        exact False.elim same
      | some p =>
        rw [stopped] at same
        have stop := (stop_iff _ _ _).mpr stopped
        have number : (m'.word (lowLayout.entry d filename.str p + 12)).toNat = i.toNat := same
        have small := lookup_small dir found
        have below := stop.inside
        have inside : 16 * p + drift d filename.str p + 14 ≤ 1024 := by
          by_contra outside
          have large := word_probe padded frames (p := p) (by omega) (by omega)
          omega
        exact ⟨p, stop, inside, by rw [← scanned.word inside, number]⟩

theorem agrees_iff : Agrees d filename ↔ Searchable d filename.str := by
  constructor
  · intro agrees
    obtain ⟨full, right⟩ := agrees.right f dir padded terminated
    exact ⟨full, (right_iff dir full).mp right⟩
  · rintro ⟨full, inStep⟩
    exact ((right_iff dir full).mpr inStep).agrees f dir padded terminated

end

/-- After `mkefs` and any commands the boot loader and `find_file` agree on just these names. -/
theorem search_agrees_iff {blockCount : UInt32} {disk image : Device} (lower : 6 ≤ blockCount.toNat)
    (upper : blockCount.toNat ≤ 3941) (fits : blockCount.toNat ≤ disk.count)
    (made : mkefs blockCount disk = .done 0 image) {log : List (Command × CopyResult)} {d : Device}
    (runs : Commands image log d) {filename : Name} (terminated : filename.str.length ≤ 11) :
    Agrees d filename ↔ Searchable d filename.str := by
  rw [mkefs_done (by omega)] at made
  cases made
  have listed := (listed_freshImage lower upper fits).of_commands runs
  obtain ⟨cnt, steady⟩ := listed.steady
  exact agrees_iff steady.formatted steady.directory listed.padded terminated

/-- `ka`, which begins as the kernel's name does. -/
def otherPath : List UInt8 := [0x6B, 0x61]

theorem shortName_otherPath : ShortName (baseName otherPath) :=
  ⟨by decide, by decide, by decide, by decide⟩

/-- With the kernel as the only file. -/
theorem search_agrees_iff_touched : ∃ image d, mkefs 1440 floppy = .done 0 image ∧
    Commands image [(touch defaultKernelFile, ⟨0, []⟩)] d ∧ Agrees d defaultKernel := by
  have made : mkefs 1440 floppy = .done 0 (freshImage 1440 floppy) :=
    mkefs_done (by decide)
  have filled : Filled (freshImage 1440 floppy) 1 :=
    filled_freshImage (by decide) (by decide) (by decide)
  have self := filled.directory.selfStr
  obtain ⟨d, run, filled', strs⟩ := filled.touch shortName_defaultKernelFile (by omega) (by
    intro e inside
    obtain rfl : e = 0 := by omega
    rw [self]
    decide)
  have runs : Commands (freshImage 1440 floppy) [(touch defaultKernelFile, ⟨0, []⟩)] d :=
    Runs.nil.call shortName_defaultKernelFile run
  refine ⟨_, d, made, runs, (search_agrees_iff (by decide) (by decide) (by decide) made runs (by decide)).mpr
    ⟨fun empty => absurd empty (by decide), Or.inl ?_⟩⟩
  intro e inside same
  rw [entries_eq filled'.directory] at inside
  refine ⟨1, ?_, by rw [strs]; decide⟩
  by_contra before
  obtain rfl : e = 0 := by omega
  rw [strs, if_neg (by decide), self] at same
  exact absurd same (by decide)

/-- `ka` is listed before `kernel`: their first byte is the same, so the boot loader compares
`ernel` and reports that there is no such file. -/
theorem search_loses_kernel : ∃ image d, mkefs 1440 floppy = .done 0 image ∧
    Commands image [(touch defaultKernelFile, ⟨0, []⟩), (touch otherPath, ⟨0, []⟩)] d ∧
    defaultKernel.str.length ≤ 11 ∧ ¬Agrees d defaultKernel := by
  have made : mkefs 1440 floppy = .done 0 (freshImage 1440 floppy) :=
    mkefs_done (by decide)
  have filled : Filled (freshImage 1440 floppy) 1 :=
    filled_freshImage (by decide) (by decide) (by decide)
  have self := filled.directory.selfStr
  obtain ⟨d₁, run₁, filled₁, strs₁⟩ := filled.touch shortName_otherPath (by omega) (by
    intro e inside
    obtain rfl : e = 0 := by omega
    rw [self]
    decide)
  have first₁ : d₁.entryStr 0 = [0x2E] := by rw [strs₁, if_neg (by decide), self]
  have second₁ : d₁.entryStr 1 = otherPath := by rw [strs₁]; decide
  obtain ⟨d, run, filled', strs⟩ := filled₁.touch shortName_defaultKernelFile (by omega) (by
    intro e inside
    obtain rfl | rfl : e = 0 ∨ e = 1 := by omega
    · rw [first₁]
      decide
    · rw [second₁]
      decide)
  have first : d.entryStr 0 = [0x2E] := by rw [strs, if_neg (by decide), first₁]
  have second : d.entryStr 1 = otherPath := by rw [strs, if_neg (by decide), second₁]
  have third : d.entryStr 2 = defaultKernelFile := by rw [strs, if_pos rfl]; decide
  have runs : Commands (freshImage 1440 floppy) [(touch defaultKernelFile, ⟨0, []⟩), (touch otherPath, ⟨0, []⟩)] d :=
    (Runs.nil.call shortName_otherPath run₁).call shortName_defaultKernelFile run
  refine ⟨_, d, made, runs, by decide, ?_⟩
  have listed := (listed_freshImage (by decide) (by decide) (by decide)).of_commands runs
  have str : defaultKernel.str = defaultKernelFile := by decide
  have count := entries_eq filled'.directory
  rw [agrees_iff filled'.formatted filled'.directory listed.padded (by decide), str]
  rintro ⟨_, inStep | luck⟩
  · obtain ⟨p, below, same⟩ := inStep 1 (by omega) (by rw [second]; decide)
    obtain rfl | rfl : p = 0 ∨ p = 1 := by omega
    · rw [first] at same
      exact absurd same (by decide)
    · rw [second] at same
      exact absurd same (by decide)
  · have ahead₁ : drift d defaultKernelFile 1 = 0 := by
      rw [drift, drift, first]
      decide
    have ahead₂ : drift d defaultKernelFile 2 = 1 := by
      rw [drift, ahead₁, second]
      decide
    have nowhere : ∀ p, ¬Stop d defaultKernelFile p := by
      rintro p ⟨inside, hit, _⟩
      obtain rfl | rfl | rfl : p = 0 ∨ p = 1 ∨ p = 2 := by omega
      · rw [Hit, drift, first] at hit
        exact absurd hit (by decide)
      · rw [Hit, ahead₁, second] at hit
        exact absurd hit (by decide)
      · rw [Hit, ahead₂, third] at hit
        exact absurd hit (by decide)
    have found : d.lookup defaultKernelFile ≠ none := fun missing => Device.lookup_none missing 2 (by omega) third
    unfold ByLuck at luck
    cases value : d.lookup defaultKernelFile with
    | none => exact found value
    | some i =>
      rw [value] at luck
      obtain ⟨p, stop, _⟩ := luck
      exact nowhere p stop

end Sos.Boot
