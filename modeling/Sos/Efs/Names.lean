import Sos.Efs.Job
import Sos.Efs.Guarded

/-! The names in the root directory after any `writeefs` runs: each is stored in full with
zeros behind it. -/

namespace Sos.Efs
open Sos.Lib Sos.Lib.Bytes

/-- Every name is at most ten bytes long, and its field is zero behind it. -/
structure Padded (d : Device) : Prop where
  short : ∀ e, e < 64 → (d.entryStr e).length ≤ 10
  byte : ∀ e j, e < 64 → j < 12 → (d.data 0).byte (16 * e + j) = (d.entryStr e).getD j 0

theorem Padded.congr {d d' : Device} (padded : Padded d) (same : d'.data 0 = d.data 0) : Padded d' := by
  have strs : d'.entryStr = d.entryStr := by
    funext e
    simp only [Device.entryStr, same]
  constructor
  · intro e inside
    rw [strs]
    exact padded.short e inside
  · intro e j inside field
    rw [strs, same]
    exact padded.byte e j inside field

theorem strncpy_cstr (n : Nat) (a : Nat → UInt8) (i : Nat) (inside : i < n) :
    strncpy a i = (cstr n a).getD i 0 := by
  induction n generalizing a i with
  | zero => omega
  | succ n ih =>
    rw [cstr_succ]
    by_cases ended : a 0 = 0
    · rw [if_pos ended]
      cases i with
      | zero => simp [strncpy, ended]
      | succ i => simp [strncpy_succ, ended]
    · rw [if_neg ended]
      cases i with
      | zero => simp [strncpy]
      | succ i =>
        rw [strncpy_succ, if_neg ended, ih _ i (by omega)]
        simp

theorem cstr_text (n : Nat) (a : Nat → UInt8) : 0 ∉ cstr n a := by
  induction n generalizing a with
  | zero => simp [cstr]
  | succ n ih =>
    rw [cstr_succ]
    split
    next => simp
    next going => simp [ih, Ne.symm going]

/-- A string that ends before the field does, byte by byte and with its zero. -/
theorem cstr_getD (n : Nat) (a : Nat → UInt8) (j : Nat) (ended : (cstr n a).length < n)
    (inside : j ≤ (cstr n a).length) : (cstr n a).getD j 0 = a j := by
  induction n generalizing a j with
  | zero => omega
  | succ n ih =>
    rw [cstr_succ] at *
    by_cases zero : a 0 = 0
    · rw [if_pos zero] at *
      have first : j = 0 := by simpa using inside
      simp [first, zero]
    · rw [if_neg zero] at *
      cases j with
      | zero => rfl
      | succ j => exact ih _ j (by simpa using ended) (by simpa using inside)

/-- A new entry for a short name. -/
theorem Padded.addEntry {d : Device} {cnt : Nat} (padded : Padded d) (dir : Directory d cnt)
    {filename : Name} (short : filename.str.length ≤ 10) (number : UInt32) (room : cnt < 64) :
    Padded (d.addEntry cnt filename number) := by
  have blank : (d.data 0).byte (16 * cnt + 11) = 0 := dir.blank _ (by omega) (by omega)
  have self : (d.addEntry cnt filename number).entryStr cnt = filename.str := by
    rw [Device.entryStr_addEntry_self d cnt filename number room blank]
    exact List.take_of_length_le (by omega)
  constructor
  · intro e inside
    by_cases same : e = cnt
    · rwa [same, self]
    · rw [Device.entryStr_addEntry_other _ _ _ _ e same]
      exact padded.short e inside
  · intro e j inside field
    rw [Device.data_addEntry, if_pos rfl, Buf.putWord, Buf.byte_blit_outside _ _ _ _ (by omega)]
    by_cases same : e = cnt
    · subst same
      rw [self]
      by_cases stored : j < 11
      · rw [Buf.byte_blit_inside _ _ _ _ (by omega) (by omega) (by omega), Nat.add_sub_cancel_left]
        exact strncpy_cstr 12 _ j field
      · have last : j = 11 := by omega
        rw [Buf.byte_blit_outside _ _ _ _ (by omega), last, blank, List.getD_eq_default _ _ (by omega)]
    · rw [Device.entryStr_addEntry_other _ _ _ _ e same, Buf.byte_blit_outside _ _ _ _ (by omega)]
      exact padded.byte e j inside field

theorem padded_freshImage (blockCount : UInt32) (disk : Device) : Padded (freshImage blockCount disk) := by
  have dir := directory_freshImage blockCount disk
  have blank : ∀ e, 1 ≤ e → e < 64 → (freshImage blockCount disk).entryStr e = [] :=
    fun e lower upper => dir.blank_str e lower upper
  constructor
  · intro e inside
    by_cases zero : e = 0
    · rw [zero, dir.selfStr]
      decide
    · rw [blank e (by omega) inside]
      decide
  · intro e j inside field
    rw [data_freshImage, byte_rootEntry]
    by_cases zero : e = 0
    · rw [zero, dir.selfStr]
      cases j with
      | zero => rfl
      | succ j => simp
    · rw [blank e (by omega) inside, if_neg (by omega)]
      simp

/-- The directory with its names, as any run leaves it. -/
structure Listed (d : Device) : Prop where
  steady : ∃ cnt, Steady (d.data 0) cnt d
  padded : Padded d

theorem Created.low {d d' : Device} {filename : Name} {i : UInt32} (c : Created d d' filename i)
    {cnt : Nat} (dir : Directory d' cnt) {l : Nat} (some_ : 0 < l)
    (low : ∀ j, j < 64 → (d.inode j).indirectData.toNat < l) (j : Nat) (upper : j < 64) :
    (d'.inode j).indirectData.toNat < l := by
  by_cases zero : j = 0
  · rw [zero, dir.indirect]
    exact some_
  · by_cases same : j = i.toNat
    · rw [same, c.indirect]
      exact low _ c.file.2
    · rw [c.others j (by omega) upper same]
      exact low j upper

theorem Created.steady {d d' : Device} {filename : Name} {i : UInt32} (c : Created d d' filename i)
    {cnt cnt' : Nat} {entries : Block} (dir' : Directory d' cnt') (steady : Steady entries cnt d) :
    Steady (d'.data 0) cnt' d' where
  formatted := c.formatted
  directory := dir'
  entries := rfl
  root := by rw [c.bits, steady.root]
  indirect := by
    rw [c.dataCount]
    exact c.low dir' steady.formatted.root steady.indirect

/-- The inode that `new_file` works on: the one found under the name, or the first free one. -/
def Takes (filename : Name) (d : Device) (i : UInt32) : Prop :=
  findFile filename d = .done (some i) d ∨
    findFile filename d = .done none d ∧ ∃ x, scanInodes d.sb.inodeCount.toNat 0 d = .done (some (i, x)) d

/-- `new_file` creates the file, in its old entry or in a new last one, unless no inode is left. -/
theorem Steady.newFile {entries : Block} {cnt : Nat} {d : Device} (steady : Steady entries cnt d)
    {filename : Name} (proper : filename.Proper) : newFile filename d = .done (-1) d ∨
    ∃ d' i cnt', newFile filename d = .done 0 d' ∧ Takes filename d i ∧ Created d d' filename i ∧
      Steady (d'.data 0) cnt' d' ∧ (d'.data 0 = d.data 0 ∨ cnt < 64 ∧ d'.data 0 = (d.addEntry cnt filename i).data 0) := by
  have f := steady.formatted
  have dir := steady.directory
  rcases newFile_outcomes f.rooted dir proper with
    ⟨i, found, made⟩ | ⟨missing, ⟨-, refused⟩ | ⟨i, bound, unused, least, made⟩⟩
  · have c := created_found dir proper f found
    have takes : Takes filename d i := Or.inl (by rw [findFile_done f.rooted dir, found])
    exact Or.inr ⟨_, i, cnt, made, takes, c, c.steady (directory_found dir proper found) steady,
      Or.inl (Device.data_putInode _ _ _ _ c.file.2)⟩
  · exact Or.inl refused
  · have c := dir.created_fresh unused bound f proper missing
    have takes : Takes filename d i := by
      refine Or.inr ⟨by rw [findFile_done f.rooted dir, missing], d.inode i.toNat, ?_⟩
      rw [f.inodeCount]
      exact scanInodes_some f.rooted 64 0 i (by simp) (by simp) (by simpa using bound) unused
        fun m _ below => least m below
    exact Or.inr ⟨_, i, cnt + 1, made, takes, c, c.steady (dir.directory_fresh unused bound proper) steady,
      Or.inr ⟨dir.not_full i.toNat bound unused, Device.data_fresh _ _ _ _ bound 0⟩⟩

/-- `new_file` lists a short name, unless no inode is left. -/
theorem Listed.newFile {d : Device} (listed : Listed d) {filename : Name} (proper : filename.Proper)
    (short : filename.str.length ≤ 10) : newFile filename d = .done (-1) d ∨
    ∃ d' i, newFile filename d = .done 0 d' ∧ Listed d' ∧ d'.lookup filename.str = some i := by
  obtain ⟨cnt, steady⟩ := listed.steady
  rcases steady.newFile proper with refused | ⟨d', i, cnt', made, -, c, steady', entries⟩
  · exact Or.inl refused
  · right
    refine ⟨d', i, made, ⟨⟨cnt', steady'⟩, ?_⟩, c.listed (by omega)⟩
    rcases entries with same | ⟨room, added⟩
    · exact listed.padded.congr same
    · exact (listed.padded.addEntry steady.directory short i room).congr added

/-- One command: what the stack held, the path, and what opening and reading the source
gives. -/
structure Command where
  stack : Name
  file : List UInt8
  reads : Option (List ReadResult)

namespace Command

def name (c : Command) : Name := fileName c.stack (baseName c.file)

def run (c : Command) : Prog Device CopyResult := writeefs c.stack c.file c.reads

end Command

/-- A run under a name that is neither empty nor the directory's own lists the file, or it is
refused. -/
theorem Steady.run {entries : Block} {cnt : Nat} {d : Device} (steady : Steady entries cnt d) {c : Command}
    (proper : c.name.Proper) : (Efs.newFile c.name d = .done (-1) d ∧ c.run d = .done ⟨-1, []⟩ d) ∨
    ∃ d₁ i cnt' r d', Efs.newFile c.name d = .done 0 d₁ ∧ Takes c.name d i ∧ Created d d₁ c.name i ∧
      c.run d = .done r d' ∧ Steady (d₁.data 0) cnt' d' := by
  rw [Command.run, writeefs_formatted steady.formatted]
  rcases steady.newFile proper with refused | ⟨d₁, i, cnt', made, takes, created, later, -⟩
  · exact Or.inl ⟨refused, readWrite_refused refused _⟩
  · right
    cases opened : c.reads with
    | none => exact ⟨d₁, i, cnt', _, d₁, made, takes, created, readWrite_unopened made, later⟩
    | some results =>
      obtain ⟨r, d', run, last⟩ := later.copyLoop proper results
      exact ⟨d₁, i, cnt', r, d', made, takes, created, (readWrite_created made results).trans run, last⟩

/-- Commands for names that the directory can hold. -/
abbrev Commands : Device → List (Command × CopyResult) → Device → Prop :=
  Runs Command.run fun c _ => ShortName (baseName c.file)

theorem Command.run_listed {c : Command} (short : ShortName (baseName c.file)) {d : Device}
    (listed : Listed d) : ∃ r d', c.run d = .done r d' ∧ Listed d' := by
  obtain ⟨cnt, steady⟩ := listed.steady
  have str := short.str c.stack
  rcases listed.newFile (short.proper c.stack) (by rw [str]; exact short.upper) with refused | ⟨d1, i, made, listed1, -⟩
  · exact ⟨_, d, by rw [Command.run, writeefs_formatted steady.formatted, readWrite_refused refused], listed⟩
  · rcases steady.run (short.proper c.stack) with ⟨refused, -⟩ | ⟨d₁, i, cnt', r, d', made', -, -, run, later⟩
    · rw [Command.name, made] at refused
      cases refused
    · rw [Command.name, made, Outcome.done.injEq] at made'
      obtain ⟨-, rfl⟩ := made'
      refine ⟨r, d', run, ⟨⟨cnt', ?_⟩, listed1.padded.congr later.entries⟩⟩
      rw [later.entries]
      exact later

theorem listed_freshImage {blockCount : UInt32} {disk : Device} (lower : 6 ≤ blockCount.toNat)
    (upper : blockCount.toNat ≤ 3941) (fits : blockCount.toNat ≤ disk.count) :
    Listed (freshImage blockCount disk) where
  steady := by
    have sound := sound_freshImage lower upper fits
    refine ⟨1, sound.formatted, directory_freshImage blockCount disk, rfl, sound.owned.root_bit, ?_⟩
    intro i inside
    have bound := sound.formatted.root
    have absent : ((freshImage blockCount disk).inode i).indirectData = 0 := by
      rw [inode_freshImage _ _ _ inside]
      split <;> rfl
    rw [absent]
    exact bound
  padded := padded_freshImage blockCount disk

/-- The first file of a new image gets inode 1. -/
theorem newFile_freshImage {blockCount : UInt32} {disk : Device} (lower : 6 ≤ blockCount.toNat)
    (upper : blockCount.toNat ≤ 3941) (fits : blockCount.toNat ≤ disk.count) {filename : Name}
    (proper : filename.Proper) : ∃ d, newFile filename (freshImage blockCount disk) = .done 0 d ∧
      Created (freshImage blockCount disk) d filename 1 := by
  have f := (sound_freshImage lower upper fits).formatted
  have dir := directory_freshImage blockCount disk
  have missing := dir.lookup_only proper.1 proper.2
  have bound : (1 : UInt32).toNat < 64 := by decide
  have unused : ((freshImage blockCount disk).inode (1 : UInt32).toNat).refs = 0 := by
    rw [inode_freshImage _ _ _ bound, if_neg (by decide)]
    rfl
  refine ⟨_, newFile_fresh f.rooted dir filename missing bound unused ?_,
    dir.created_fresh unused bound f proper missing⟩
  intro m below
  have zero : m = 0 := Nat.lt_one_iff.mp below
  rw [zero, inode_freshImage _ _ _ (by decide), if_pos rfl]
  exact (by decide : (1 : UInt8) ≠ 0)

theorem Listed.of_commands {image : Device} (init : Listed image) {log : List (Command × CopyResult)}
    {d : Device} (runs : Commands image log d) : Listed d :=
  runs.invariant (fun _ d => Listed d) init (by
    intro log s c r t listed short run
    obtain ⟨r', t', run', later⟩ := Command.run_listed short listed
    rw [run'] at run
    cases run
    exact later)

/-- `writeefs` on an empty source. -/
def touch (file : List UInt8) : Command := ⟨Buf.zero, file, some []⟩

/-- A directory with the inodes that its entries use up, in their order. -/
structure Filled (d : Device) (cnt : Nat) : Prop where
  formatted : Formatted d
  directory : Directory d cnt
  used : ∀ m, m < cnt → (d.inode m).refs ≠ 0
  free : ∀ m, cnt ≤ m → m < 64 → (d.inode m).refs = 0

theorem filled_freshImage {blockCount : UInt32} {disk : Device} (lower : 6 ≤ blockCount.toNat)
    (upper : blockCount.toNat ≤ 3941) (fits : blockCount.toNat ≤ disk.count) :
    Filled (freshImage blockCount disk) 1 where
  formatted := (sound_freshImage lower upper fits).formatted
  directory := directory_freshImage blockCount disk
  used := by
    intro m inside
    rw [inode_freshImage _ _ _ (by omega), if_pos (by omega)]
    decide
  free := by
    intro m outside inside
    rw [inode_freshImage _ _ _ inside, if_neg (by omega)]
    decide

/-- A new file becomes the last entry. -/
theorem Filled.touch {d : Device} {cnt : Nat} (filled : Filled d cnt) {file : List UInt8}
    (short : ShortName (baseName file)) (room : cnt < 64)
    (missing : ∀ e, e < cnt → d.entryStr e ≠ baseName file) :
    ∃ d', (touch file).run d = .done ⟨0, []⟩ d' ∧ Filled d' (cnt + 1) ∧
      ∀ e, d'.entryStr e = if e = cnt then baseName file else d.entryStr e := by
  obtain ⟨f, dir, used, free⟩ := filled
  have number : (UInt32.ofNat cnt).toNat = cnt := by
    rw [UInt32.toNat_ofNat']
    omega
  have str := short.str Buf.zero
  have proper := short.proper Buf.zero
  have bound : (UInt32.ofNat cnt).toNat < 64 := by omega
  have unused : (d.inode (UInt32.ofNat cnt).toNat).refs = 0 := by
    rw [number]
    exact free cnt le_rfl room
  have unlisted : d.lookup (fileName Buf.zero (baseName file)).str = none := by
    rw [str, dir.lookup_range _ short.nonempty, Option.map_eq_none_iff, List.find?_range_eq_none]
    intro e inside
    simpa using missing e inside
  have made := newFile_fresh f.rooted dir (fileName Buf.zero (baseName file)) unlisted bound unused
    (by rw [number]; exact used)
  refine ⟨d.fresh cnt (fileName Buf.zero (baseName file)) (UInt32.ofNat cnt), ?_, ⟨?_, ?_, ?_, ?_⟩, ?_⟩
  · rw [Efs.touch, Command.run, writeefs_formatted f, readWrite_created made]
    rfl
  · exact (dir.created_fresh unused bound f proper unlisted).formatted
  · exact dir.directory_fresh unused bound proper
  · intro m inside
    rw [Device.inode_fresh _ _ _ _ _ (by omega), number]
    split
    · exact (by decide : (1 : UInt8) ≠ 0)
    · split
      · exact dir.refs
      · exact used m (by omega)
  · intro m outside inside
    have first := dir.first
    rw [Device.inode_fresh _ _ _ _ _ inside, number, if_neg (by omega), if_neg (by omega)]
    exact free m (by omega) inside
  · intro e
    rw [dir.entryStr_fresh unused bound, str]
    split
    · exact List.take_of_length_le (by have := short.upper; omega)
    · rfl

end Sos.Efs
