import Sos.Boot.Enter
import Sos.Boot.Sectors
import Sos.Boot.Stage1

/-! From the files that were installed to the kernel that runs: the whole way of the boot chain. -/

namespace Sos.Boot
open Sos.Lib Sos.Lib.Bytes Sos.Efs

/-- `movsb` upwards to where the source does not reach. -/
theorem movsb_apart (cx : Nat) (si di : UInt16) (m : Mem) (apart : si.toNat + cx ≤ di.toNat)
    (room : di.toNat + cx ≤ 65535) (a : UInt16) : movsb cx si di m a =
      if di.toNat ≤ a.toNat ∧ a.toNat < di.toNat + cx then m (si + UInt16.ofNat (a.toNat - di.toNat)) else m a := by
  induction cx generalizing si di m with
  | zero => rw [movsb, if_neg (by omega)]
  | succ cx ih =>
    have nextS : (si + 1).toNat = si.toNat + 1 := by rw [UInt16.toNat_add]; simp; omega
    have nextD : (di + 1).toNat = di.toNat + 1 := by rw [UInt16.toNat_add]; simp; omega
    rw [movsb, ih _ _ _ (by omega) (by omega), nextD]
    by_cases rest : di.toNat + 1 ≤ a.toNat ∧ a.toNat < di.toNat + 1 + cx
    · have source : si + 1 + UInt16.ofNat (a.toNat - (di.toNat + 1)) = si + UInt16.ofNat (a.toNat - di.toNat) := by
        apply UInt16.toNat_inj.mp
        simp only [UInt16.toNat_add, UInt16.toNat_ofNat', nextS]
        omega
      have differ : si + UInt16.ofNat (a.toNat - di.toNat) ≠ di := by
        intro same
        have value := congrArg UInt16.toNat same
        simp only [UInt16.toNat_add, UInt16.toNat_ofNat'] at value
        omega
      rw [if_pos rest, if_pos (by omega), source, Mem.set, if_neg differ]
    · rw [if_neg rest]
      exact m.set_first si di rest

theorem Mem.Text.byte {m : Mem} {a : UInt16} {s : List UInt8} (text : m.Text a s) {j : Nat}
    (inside : j ≤ s.length) :
    m (a + UInt16.ofNat j) = s.getD j 0 := by
  induction s generalizing a j with
  | nil =>
    obtain rfl : j = 0 := Nat.le_zero.mp inside
    rw [show UInt16.ofNat 0 = 0 from rfl, UInt16.add_zero]
    exact text
  | cons x s ih =>
    cases j with
    | zero =>
      rw [show UInt16.ofNat 0 = 0 from rfl, UInt16.add_zero]
      exact text.1
    | succ j =>
      have next := ih text.2.2 (Nat.le_of_succ_le_succ inside)
      have one : (1 : UInt16) = UInt16.ofNat 1 := rfl
      rwa [UInt16.add_assoc, UInt16.add_comm 1, one, ← UInt16.ofNat_add] at next

end Sos.Boot

namespace Sos.Efs

/-- Every name in the directory is its own or that of a file that was installed. -/
def Titled (log : Log) (d : Device) : Prop :=
  ∀ s i, s ≠ [] → d.lookup s = some i → s = [0x2E] ∨ ∃ q, q ∈ log ∧ q.1.base = s

theorem Titled.step {log : Log} {d d' : Device} (titled : Titled log d) (sound : Sound d) {job : Job}
    (regular : job.Regular) {r : CopyResult} (run : job.run d = .done r d') : Titled ((job, r) :: log) d' := by
  intro s i some_ found
  rcases Job.run_cases regular sound with ⟨-, refused⟩ | ⟨r', t, j, run', w⟩
  · rw [refused] at run
    cases run
    rcases titled s i some_ found with self | ⟨q, member, same⟩
    · exact Or.inl self
    · exact Or.inr ⟨q, List.mem_cons_of_mem _ member, same⟩
  · rw [run'] at run
    cases run
    by_cases own : s = job.base
    · exact Or.inr ⟨(job, r), List.mem_cons_self, own.symm⟩
    · rw [w.kept s some_ own] at found
      rcases titled s i some_ found with self | ⟨q, member, same⟩
      · exact Or.inl self
      · exact Or.inr ⟨q, List.mem_cons_of_mem _ member, same⟩

/-- The run of a job as a command. -/
def Job.command (job : Job) : Command := ⟨job.stack, job.file, some (readsOf job.contents)⟩

end Sos.Efs

namespace Sos.Boot
open Sos.Lib Sos.Lib.Bytes Sos.Efs

/-- What the boot loader finds on the disk: the files of the log under their names. -/
structure Installed (log : Log) (d : Device) : Prop where
  stored : Stored log d
  listed : Listed d
  titled : Titled log d

theorem Installed.step {log : Log} {d d' : Device} (installed : Installed log d) {job : Job} (regular : job.Regular)
    {r : CopyResult} (run : job.run d = .done r d') : Installed ((job, r) :: log) d' := by
  refine ⟨installed.stored.step regular run, ?_, installed.titled.step installed.stored.sound regular run⟩
  obtain ⟨r', t, run', listed⟩ := Command.run_listed (c := job.command) regular.name installed.listed
  have same := run.symm.trans run'
  rw [Outcome.done.injEq] at same
  rw [same.2]
  exact listed

theorem installed_freshImage {blockCount : UInt32} {disk : Device} (lower : 6 ≤ blockCount.toNat)
    (upper : blockCount.toNat ≤ 3941) (fits : blockCount.toNat ≤ disk.count) :
    Installed [] (freshImage blockCount disk) where
  stored := stored_freshImage lower upper fits
  listed := listed_freshImage lower upper fits
  titled := by
    intro s i some_ found
    by_contra other
    have missing := (directory_freshImage blockCount disk).lookup_only some_ fun self => other (Or.inl self)
    rw [missing] at found
    cases found

theorem Installed.of_history {image : Device} (init : Installed [] image) {log : Log} {d : Device}
    (runs : Histories image log d) : Installed log d :=
  runs.invariant Installed init fun _ _ _ _ _ installed regular run => installed.step regular run

/-- Where no other installed file begins with the same letter, the boot loader finds the right one. -/
theorem Installed.inStep {log : Log} {d : Device} (installed : Installed log d) {w : List UInt8} {x : UInt8}
    (first : w.head? = some x) (dot : x ≠ 0x2E)
    (only : ∀ q, q ∈ log → q.1.base.head? = some x → q.1.base = w) : InStep d w := by
  intro e inside same
  obtain ⟨cnt, steady⟩ := installed.listed.steady
  have dir := steady.directory
  rw [entries_eq dir] at inside
  have last := dir.last
  have some_ := entryStr_ne_nil dir inside
  cases found : d.lookup (d.entryStr e) with
  | none => exact absurd rfl (Device.lookup_none found e (by omega))
  | some i =>
    rcases installed.titled _ i some_ found with self | ⟨q, member, base⟩
    · rw [self, first, List.head?_cons, Option.some.injEq] at same
      exact absurd same.symm dot
    · refine ⟨e, le_rfl, ?_⟩
      rw [← base]
      refine only q member ?_
      rw [base, same, first]

/-- The last version of a file that was installed without an error is started under its name. -/
theorem Installed.starts {log : Log} {d : Device} (installed : Installed log d) {L : SearchLayout}
    (behind : L.kernelFile.toNat + 26 ≤ L.efsSuperblock.toNat) {w param : List UInt8} {job : Job} {r : CopyResult}
    (last : latest log w = some (job, r)) (success : r.ret = 0) (searchable : Searchable d w)
    (small : job.contents.length < 34 * 1024) {p : Phys} (name : p.segment.Text L.kernelFile w)
    (text : ∀ j, j ≤ param.length → p.segment (L.kernelParam + UInt16.ofNat j) = param.getD j 0)
    (fits : param.length < 12) (g : Geometry) (memsize : UInt16) :
    ∃ e, gotKernelName L g (sectors d) memsize 77 p = some (.entered e) ∧
      e.Starts job.contents param memsize := by
  have sound := installed.stored.sound
  have short := installed.stored.short last
  obtain ⟨cnt, dir⟩ := sound.directory
  have upper := short.upper
  rcases installed.stored.current w job r last with ⟨failed, -⟩ | ⟨i, found, -, -, content⟩
  · rw [failed] at success
    cases success
  · have file := found
    rw [← short.str job.stack] at file
    obtain ⟨positive, bound, -⟩ := dir.lookup_inode (short.proper job.stack) file
    exact gotKernelName_starts behind sound.formatted dir sound.owned installed.listed.padded (by omega)
      ((right_iff dir searchable.1).mpr searchable.2) found ⟨positive, bound⟩ (content success) small name text fits g
      memsize

/-- A kernel of a single `hlt`. -/
theorem Installed.halt {image : Device} (installed : Installed [] image) (unused : (image.inode 1).refs = 0)
    (enough : 2 ≤ image.freeCount) : ∃ r d, (kernelJob [0xF4]).run image = .done r d ∧ r.ret = 0 ∧
      Installed [(kernelJob [0xF4], r)] d ∧ Searchable d defaultKernelFile := by
  have regular : (kernelJob [0xF4]).Regular := regular_kernelJob (by decide)
  obtain ⟨r, d, i, run, -, success⟩ := Job.run_succeeds regular installed.stored.sound ⟨1, by decide, unused⟩ enough
  have later := installed.step regular run
  refine ⟨r, d, run, success, later, fun none => absurd none (by decide), Or.inl ?_⟩
  apply later.inStep (x := 0x6B) rfl (by decide)
  intro q member first
  obtain rfl := List.mem_singleton.mp member
  rfl

/-- Whatever is installed by any history of runs can be booted from the prompt: a line that is parsed cleanly starts
the file that it names with the parameters that it gives. -/
theorem prompt_starts {blockCount : UInt32} {disk image : Device} (lower : 6 ≤ blockCount.toNat)
    (upper : blockCount.toNat ≤ 3941) (fits : blockCount.toNat ≤ disk.count)
    (made : mkefs blockCount disk = .done 0 image) {log : Log} {d : Device} (runs : Histories image log d)
    {L : SearchLayout} (behind : L.kernelFile.toNat + 26 ≤ L.efsSuperblock.toNat) {keys rest : List UInt8}
    {p : Phys} {c : Stores} {fuel : Nat} (line : prompt L fuel keys p.segment = some (rest, c))
    (some_ : Round.text ⟨keys, p.segment, c⟩ ≠ []) (clean : Round.Clean L ⟨keys, p.segment, c⟩) {job : Job}
    {r : CopyResult} (last : latest log (nameOf (Round.text ⟨keys, p.segment, c⟩)) = some (job, r))
    (success : r.ret = 0) (searchable : Searchable d (nameOf (Round.text ⟨keys, p.segment, c⟩)))
    (small : job.contents.length < 34 * 1024) (g : Geometry) (memsize : UInt16) :
    ∃ e, gotKernelName L g (sectors d) memsize 77 (p.withSegment c.mem) = some (.entered e) ∧
      e.Starts job.contents (paramOf (Round.text ⟨keys, p.segment, c⟩)) memsize := by
  rw [mkefs_done (by omega)] at made
  cases made
  have installed := (installed_freshImage lower upper fits).of_history runs
  have parsed := (Round.parsed_iff (r := ⟨keys, p.segment, c⟩) line some_).mpr clean
  refine installed.starts behind last success searchable small ?_ (fun j inside => ?_) parsed.paramFits g memsize
  · rw [Phys.segment_withSegment]
    exact parsed.name
  · rw [Phys.segment_withSegment]
    exact parsed.param.byte inside

/-- `kernel` is typed, and it is on the disk. -/
theorem prompt_starts_halt : ∃ d p e, gotKernelName promptLayout ⟨18, 2⟩ (sectors d) 640 77 p = some (.entered e) ∧
    e.Starts [0xF4] [] 640 := by
  have free : (freshImage 1440 floppy).freeCount = 1434 := freeCount_freshImage (by decide)
  have fresh : Installed [] (freshImage 1440 floppy) := installed_freshImage (by decide) (by decide) (by decide)
  obtain ⟨r, d, run, success, -, searchable⟩ := fresh.halt
    (by rw [inode_freshImage _ _ _ (by decide)]; rfl) (by rw [free]; decide)
  obtain ⟨rest, c, line, -⟩ := session_line kernelKeys (by decide)
  have zero : Phys.segment (fun _ => 0) = fun _ => 0 := rfl
  rw [← zero] at line
  have text : Round.text ⟨kernelKeys, Phys.segment fun _ => 0, c⟩ = [0x6B, 0x65, 0x72, 0x6E, 0x65, 0x6C] := by
    change textOf ((lineOf 24 kernelKeys []).getD []) = _
    decide
  have clean : Round.Clean promptLayout ⟨kernelKeys, Phys.segment fun _ => 0, c⟩ := by
    rw [Round.Clean, text, if_neg (by decide)]
    exact ⟨by decide, rfl⟩
  have name : nameOf (Round.text ⟨kernelKeys, Phys.segment fun _ => 0, c⟩) = defaultKernelFile := by
    rw [text]
    decide
  have param : paramOf (Round.text ⟨kernelKeys, Phys.segment fun _ => 0, c⟩) = [] := by
    rw [text]
    decide
  have last : latest [(kernelJob [0xF4], r)] defaultKernelFile = some (kernelJob [0xF4], r) := latest_self [] _ r
  rw [← name] at last searchable
  have nonempty : Round.text ⟨kernelKeys, Phys.segment fun _ => 0, c⟩ ≠ [] := by
    rw [text]
    decide
  obtain ⟨e, entered, starts⟩ := prompt_starts (by decide) (by decide) (by decide) (mkefs_done (by decide))
    (Runs.nil.call (regular_kernelJob (by decide)) run) (p := fun _ => 0) (by decide) line nonempty clean last success
    searchable (by decide) ⟨18, 2⟩ 640
  rw [param] at starts
  exact ⟨d, _, e, entered, starts⟩

/-- `default_kernel_param`. -/
def initParam : List UInt8 := [0x69, 0x6E, 0x69, 0x74, 0x3D, 0x69, 0x6E, 0x69, 0x74]

/-- Where the assembler has put the strings of the second stage, and the buffers that they are copied to. -/
structure Assembled {n : Nat} (L : SearchLayout) (boot2 : Buf n) : Prop where
  strings : 67 ≤ L.kernelFile.toNat ∧ L.kernelFile.toNat ≤ n
  behind : L.kernelFile.toNat + 26 ≤ L.efsSuperblock.toNat
  name : ∀ j, j < 7 → boot2.byte (L.kernelFile.toNat - 67 + j) = defaultKernelFile.getD j 0
  param : ∀ j, j < 10 → boot2.byte (L.kernelFile.toNat - 60 + j) = initParam.getD j 0

section
variable {boot1 : Buf 512} {n : Nat} {boot2 : Buf n}

/-- What was copied to a sector is read back from it, sector by sector. -/
theorem Device.sector_dd (d : Device) (s : Nat) (source : Buf n) {x : Nat} (inside : x < n) :
    ((d.dd s source).sector (s + x / 512)).byte (x % 512) = source.byte x := by
  have rest := Nat.mod_lt x (show 0 < 512 by decide)
  have sum := Nat.div_add_mod x 512
  have whole : 1024 * ((s + x / 512) / 2) + (512 * ((s + x / 512) % 2) + x % 512) - 512 * s = x := by omega
  rw [Device.sector, Buf.byte_slice _ _ rest, Device.dd, Buf.byte_tabulate _ (by omega), if_pos (by omega), whole]

/-- What the Makefile's image starts with. -/
theorem installed_bootImage {disk : Device} (room : 1440 ≤ disk.count) :
    Installed [] (bootImage (freshImage 1440 disk) boot1 boot2) := by
  have guarded : Guarded stage2Block _ _ 1 (bootImage (freshImage 1440 disk) boot1 boot2) := guarded_bootImage room
  have dir := guarded.steady.directory
  have empty : ∀ i, 1 ≤ i → i < 64 → (bootImage (freshImage 1440 disk) boot1 boot2).inode i = Inode.zero := by
    intro i low high
    rw [inode_bootImage high, inode_freshImage _ _ _ high, if_neg (by omega)]
  have f := guarded.steady.formatted
  refine ⟨⟨⟨f, ⟨1, dir⟩, owned_empty f.root guarded.steady.root ?_ empty⟩, ?_, ?_, ?_⟩, ⟨⟨1, guarded.steady⟩, ?_⟩, ?_⟩
  · rw [inode_bootImage (by decide), inode_freshImage _ _ _ (by decide)]
    rfl
  · exact fun q member => absurd member List.not_mem_nil
  · intro base job r last
    cases last
  · intro i low high nonzero
    rw [empty i low high] at nonzero
    exact absurd rfl nonzero
  · exact (padded_freshImage 1440 disk).congr (data_bootImage (by decide))
  · intro s i some_ found
    by_contra other
    rw [dir.lookup_only some_ fun self => other (Or.inl self)] at found
    cases found

end

/-- The name and the parameters when none are typed. -/
theorem defaultKernName_text {n : Nat} {boot2 : Buf n} {L : SearchLayout} (assembled : Assembled L boot2) {m : Mem}
    (image : ∀ a : UInt16, a.toNat < n → m a = boot2.byte a.toNat) :
    (defaultKernName L m).Text L.kernelFile Sos.Boot.defaultKernelFile ∧
    ∀ j, j < 10 → defaultKernName L m (L.kernelParam + UInt16.ofNat j) = initParam.getD j 0 := by
  obtain ⟨low, high⟩ := assembled.strings
  have behind := assembled.behind
  have room := L.room
  have param : L.kernelParam.toNat = L.kernelFile.toNat + 12 := by
    rw [SearchLayout.kernelParam, UInt16.toNat_add]
    change (L.kernelFile.toNat + 12) % 65536 = _
    omega
  have inbuff : L.inbuff.toNat = L.kernelFile.toNat - 50 := by
    rw [SearchLayout.inbuff, UInt16.toNat_sub]
    change (65536 - 50 + L.kernelFile.toNat) % 65536 = _
    omega
  have source : L.defaultKernelParam.toNat = L.kernelFile.toNat - 60 := by
    rw [SearchLayout.defaultKernelParam, UInt16.toNat_sub, inbuff]
    change (65536 - 10 + (L.kernelFile.toNat - 50)) % 65536 = _
    omega
  have source' : L.defaultKernelFile.toNat = L.kernelFile.toNat - 67 := by
    rw [SearchLayout.defaultKernelFile, UInt16.toNat_sub, source]
    change (65536 - 7 + (L.kernelFile.toNat - 60)) % 65536 = _
    omega
  have at_ : ∀ (a : UInt16) (j : Nat), a.toNat + j < 65536 → (a + UInt16.ofNat j).toNat = a.toNat + j := by
    intro a j small
    rw [UInt16.toNat_add, UInt16.toNat_ofNat']
    omega
  unfold defaultKernName
  dsimp only
  constructor
  · apply Mem.text_of_bytes (by decide)
    intro j inside
    have short : j < 7 := Nat.lt_succ_of_le inside
    have inside' : (L.defaultKernelFile + UInt16.ofNat j).toNat < n := by
      rw [at_ _ _ (by omega)]
      omega
    rw [movsb_apart _ _ _ _ (by omega) (by omega), at_ _ _ (by omega), if_neg (by omega),
      movsb_apart _ _ _ _ (by omega) (by omega), at_ _ _ (by omega), if_pos (by omega), Nat.add_sub_cancel_left,
      image _ inside', at_ _ _ (by omega), source', assembled.name j short]
  · intro j inside
    have inside' : (L.defaultKernelParam + UInt16.ofNat j).toNat < n := by
      rw [at_ _ _ (by omega)]
      omega
    rw [movsb_apart _ _ _ _ (by omega) (by omega), at_ _ _ (by omega), if_pos (by omega), Nat.add_sub_cancel_left,
      movsb_apart _ _ _ _ (by omega) (by omega), at_ _ _ (by omega), if_neg (by omega), image _ inside',
      at_ _ _ (by omega), source, assembled.param j inside]

/-- A second stage that has nothing but its strings. -/
def strings : Buf 200 := Buf.tabulate fun x =>
  if x < 140 then defaultKernelFile.getD (x - 133) 0 else initParam.getD (x - 140) 0

theorem assembled_strings : Assembled promptLayout strings where
  strings := by decide
  behind := by decide
  name := by
    intro j inside
    change (Buf.tabulate _ : Buf 200).byte (133 + j) = _
    rw [Buf.byte_tabulate _ (by omega), if_pos (by omega), Nat.add_sub_cancel_left]
  param := by
    intro j inside
    change (Buf.tabulate _ : Buf 200).byte (140 + j) = _
    rw [Buf.byte_tabulate _ (by omega), if_neg (by omega), Nat.add_sub_cancel_left]

/-- Jobs that leave the second stage alone. -/
def SparesStage2 (job : Job) (d : Device) : Prop := job.Regular ∧ job.command.Spares stage2Block d

/-- From the Makefile's image, with any files installed before and behind the kernel that leave room for the
second stage: the first stage finds out about the disk and loads the second one, which loads the kernel, byte for
byte what was installed last, and starts it with its arguments. -/
theorem disks_start {disk formatted : Device} {res : Int} (room : 1440 ≤ disk.count)
    (made : mkefs 1440 disk = .done res formatted) {boot1 : Buf 512} {n : Nat} {boot2 : Buf n} (fits : n ≤ 2048)
    {L : SearchLayout} (assembled : Assembled L boot2) {log : Log} {d : Device}
    (runs : Runs Job.run SparesStage2 (bootImage formatted boot1 boot2) log d) {job : Job} {r : CopyResult}
    (last : latest log defaultKernelFile = some (job, r)) (success : r.ret = 0)
    (searchable : Searchable d defaultKernelFile) (small : job.contents.length < 34 * 1024) {v : Drive}
    (holds : v.sector = d.sector) (proper : v.geometry.Proper) (track : 0 < v.geometry.cylinders.toNat)
    (named : 2878 ≤ 256 * v.geometry.cylinderSize) (valid : 2878 ≤ v.geometry.size) {bios : Chs}
    (heads : (DiskGeometry.ofBios bios).heads = v.geometry.heads) {dl : UInt8}
    (sectors_ : dl &&& 0x80 ≠ 0 → (DiskGeometry.ofBios bios).sectors = v.geometry.sectors) (memsize : UInt16)
    (p : Phys) :
    ∃ g p' e, stage1 v bios dl 64 p = some (g, p') ∧ (∀ x, x < n → p' (stage2LoadAddr + x) = boot2.byte x) ∧
      gotKernelName L g.toGeometry (sectors d) memsize 77 (p'.withSegment (defaultKernName L p'.segment)) =
        some (.entered e) ∧ e.Starts job.contents initParam memsize := by
  rw [mkefs_done (by omega)] at made
  cases made
  have kept : Installed log d ∧
      ∃ cnt, Guarded stage2Block (bootImage (freshImage 1440 disk) boot1 boot2) (d.data 0) cnt d := by
    refine runs.invariant (fun log d => Installed log d ∧ ∃ cnt, Guarded stage2Block _ (d.data 0) cnt d)
      ⟨installed_bootImage room, 1, guarded_bootImage room⟩ ?_
    rintro log s job o t ⟨installed, cnt, guarded⟩ ⟨regular, spares⟩ run
    obtain ⟨o', t', cnt', run', later⟩ := guarded.run spares
    have same := run.symm.trans run'
    rw [Outcome.done.injEq] at same
    obtain ⟨-, rfl⟩ := same
    exact ⟨installed.step regular run, cnt', later⟩
  obtain ⟨installed, cnt, guarded⟩ := kept
  obtain ⟨g, p', loaded, -, -, bytes⟩ := stage1_done proper track named valid heads sectors_ le_rfl p
  have image : ∀ x, x < n → p' (stage2LoadAddr + x) = boot2.byte x := by
    intro x inside
    have kept := guarded.spared.bootable.stage2 (stage2Sector + x / 512) (Nat.le_add_right _ _)
    rw [bytes x (by omega), holds]
    exact (congrArg (Buf.byte · (x % 512)) kept).trans (Device.sector_dd _ stage2Sector boot2 inside)
  obtain ⟨name, text⟩ := defaultKernName_text assembled (m := p'.segment) fun a inside => image a.toNat inside
  have text' : ∀ j, j ≤ initParam.length → defaultKernName L p'.segment (L.kernelParam + UInt16.ofNat j) =
      initParam.getD j 0 := fun j inside => text j (Nat.lt_succ_of_le inside)
  rw [← p'.segment_withSegment (defaultKernName L p'.segment)] at name text'
  obtain ⟨e, run, starts⟩ := installed.starts assembled.behind last success searchable small name text' (by decide)
    g.toGeometry memsize
  exact ⟨g, p', e, loaded, image, run, starts⟩

/-- A floppy disk of 80 cylinders with that kernel. -/
theorem disks_start_halt : ∃ d g p e, stage1 ⟨⟨⟨18, 2⟩, 80⟩, d.sector⟩ ⟨79, 18, 1⟩ 0 64 (fun _ => 0) = some (g, p) ∧
    gotKernelName promptLayout g.toGeometry (sectors d) 640 77
      (p.withSegment (defaultKernName promptLayout p.segment)) = some (.entered e) ∧
    e.Starts [0xF4] initParam 640 := by
  have room : 1440 ≤ floppy.count := by decide
  have installed : Installed [] (bootImage (freshImage 1440 floppy) Buf.zero strings) := installed_bootImage room
  have dir := (guarded_bootImage room : Guarded stage2Block _ _ 1
    (bootImage (freshImage 1440 floppy) Buf.zero strings)).steady.directory
  have free : ∀ m, 1 ≤ m → m < 3936 → (bootImage (freshImage 1440 floppy) Buf.zero strings).bit m = false := by
    intro m low high
    rw [bit_bootImage high, bit_freshImage]
    exact decide_eq_false (by omega)
  have enough : 2 ≤ (bootImage (freshImage 1440 floppy) Buf.zero strings).freeCount := by
    have two : ({1, 2} : Finset ℕ).card = 2 := rfl
    rw [Device.freeCount, dataCount_bootImage, ← two]
    apply Finset.card_le_card
    intro m member
    rw [Finset.mem_insert, Finset.mem_singleton] at member
    exact Finset.mem_filter.mpr ⟨Finset.mem_range.mpr (by omega), free m (by omega) (by omega)⟩
  have below : 1 ≤ (bootImage (freshImage 1440 floppy) Buf.zero strings).freeBelow stage2Block :=
    Finset.card_pos.mpr ⟨1, Finset.mem_filter.mpr ⟨Finset.mem_range.mpr (by decide), free 1 le_rfl (by decide)⟩⟩
  have unused : ((bootImage (freshImage 1440 floppy) Buf.zero strings).inode 1).refs = 0 := by
    rw [inode_bootImage (by decide), inode_freshImage _ _ _ (by decide)]
    rfl
  obtain ⟨r, d, run, success, -, searchable⟩ := installed.halt unused enough
  have regular : (kernelJob [0xF4]).Regular := regular_kernelJob (by decide)
  have spares : SparesStage2 (kernelJob [0xF4]) (bootImage (freshImage 1440 floppy) Buf.zero strings) := by
    have proper : (kernelJob [0xF4]).command.name.Proper := regular.name.proper _
    refine ⟨regular, proper, fun results opened => ?_⟩
    cases opened
    rw [dir.lookup_only proper.1 proper.2]
    exact Or.inr (Or.inr below)
  have heads : (DiskGeometry.ofBios ⟨79, 18, 1⟩).heads = 2 := by decide
  have fixed : (0 : UInt8) &&& 0x80 ≠ 0 → (DiskGeometry.ofBios ⟨79, 18, 1⟩).sectors = 18 :=
    fun other => absurd rfl other
  have proper : (⟨⟨18, 2⟩, 80⟩ : DiskGeometry).Proper := ⟨by decide, by decide, by decide⟩
  have track : 0 < (⟨⟨18, 2⟩, 80⟩ : DiskGeometry).cylinders.toNat := by decide
  have named : 2878 ≤ 256 * (⟨⟨18, 2⟩, 80⟩ : DiskGeometry).cylinderSize := by decide
  have valid : 2878 ≤ (⟨⟨18, 2⟩, 80⟩ : DiskGeometry).size := by decide
  obtain ⟨g, p, e, loaded, -, entered, starts⟩ := disks_start room (mkefs_done (by decide)) (by decide)
    assembled_strings
    (Runs.nil.call spares run) (latest_self [] (kernelJob [0xF4]) r) success searchable (by decide)
    (v := ⟨⟨⟨18, 2⟩, 80⟩, d.sector⟩) rfl proper track named valid heads fixed 640 (fun _ => 0)
  exact ⟨d, g, p, e, loaded, entered, starts⟩

end Sos.Boot
