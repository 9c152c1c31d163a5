import Sos.Efs.Format
import Sos.Lib.Runs

/-! `writeefs` on a regular source file: its name, its reads and what the run does. -/

namespace Sos.Efs
open Sos.Lib Sos.Lib.Bytes

/-- The first `n` blocks of a source. -/
def chunks : Nat → List UInt8 → List Chunk
  | 0, _ => []
  | n + 1, rest => ⟨rest.take 1024, List.length_take_le 1024 rest⟩ :: chunks n (rest.drop 1024)

/-- The blocks a source of this length takes. -/
def blockTotal (contents : List UInt8) : Nat := (contents.length + 1023) / 1024

theorem length_chunks (n : Nat) (rest : List UInt8) : (chunks n rest).length = n := by
  induction n generalizing rest with
  | zero => rfl
  | succ n ih => rw [chunks, List.length_cons, ih]

theorem flatten_chunks (n : Nat) (rest : List UInt8) (short : rest.length ≤ 1024 * n) :
    ((chunks n rest).map (·.val)).flatten = rest := by
  induction n generalizing rest with
  | zero =>
    have empty : rest = [] := List.length_eq_zero_iff.mp (by omega)
    rw [empty]
    rfl
  | succ n ih =>
    rw [chunks, List.map_cons, List.flatten_cons, ih _ (by rw [List.length_drop]; omega)]
    exact List.take_append_drop 1024 rest

theorem whole_chunks (n : Nat) (rest : List UInt8) (exactly : n = blockTotal rest) :
    Whole (chunks n rest) := by
  induction n generalizing rest with
  | zero => trivial
  | succ n ih =>
    unfold blockTotal at exactly
    refine ⟨?_, ?_, ih _ ?_⟩
    · simp only [List.length_take]
      omega
    · intro more
      cases n with
      | zero => exact absurd rfl more
      | succ n =>
        simp only [List.length_take]
        omega
    · rw [blockTotal, List.length_drop]
      omega

/-- The reads on a regular file: whole blocks and then the rest. -/
def readsOf (contents : List UInt8) : List ReadResult :=
  (chunks (blockTotal contents) contents).map .bytes

theorem cstr_eq (n : Nat) (a : Nat → UInt8) (l : List UInt8) (short : l.length < n)
    (same : ∀ i, i < l.length → a i = l.getD i 0) (text : 0 ∉ l) (ended : a l.length = 0) :
    cstr n a = l := by
  induction l generalizing n a with
  | nil =>
    exact cstr_zero n a ended
  | cons x l ih =>
    cases n with
    | zero => simp at short
    | succ n =>
      have head : a 0 = x := same 0 (by simp)
      have nonzero : x ≠ 0 := fun zero => text (by simp [zero])
      rw [cstr_succ, head, if_neg nonzero, ih n _ (by simpa using short) ?_ ?_ (by simpa using ended)]
      · intro i inside
        simpa using same (i + 1) (by simpa using inside)
      · exact fun member => text (by simp [member])

theorem strncpy_text (base : List UInt8) (text : 0 ∉ base) (i : Nat) :
    strncpy (fun j => base.getD j 0) i = base.getD i 0 := by
  unfold strncpy
  by_cases inside : i ≤ base.length
  · rw [if_pos]
    simp only [List.all_eq_true, List.mem_range, decide_eq_true_eq]
    intro j before zero
    rw [List.getD_eq_getElem _ _ (by omega)] at zero
    exact text (zero ▸ List.getElem_mem _)
  · split
    · rfl
    · rw [List.getD_eq_default _ _ (by omega)]

/-- A short base name arrives in full, whatever the stack held. -/
theorem fileName_str (stack : Name) (base : List UInt8) (short : base.length ≤ 10) (text : 0 ∉ base) :
    (fileName stack base).str = base := by
  have byte : ∀ i, i < 11 → (fileName stack base).byte i = base.getD i 0 := by
    intro i inside
    rw [fileName, Buf.byte_blit_inside _ _ _ _ (by omega) (by omega) (by omega)]
    exact strncpy_text base text _
  apply cstr_eq 12 _ base (by omega) (fun i inside => byte i (by omega)) text
  rw [byte _ (by omega), List.getD_eq_default _ _ le_rfl]

/-- A base name that the directory can hold and that is not the directory's own. -/
structure ShortName (base : List UInt8) : Prop where
  lower : 1 ≤ base.length
  upper : base.length ≤ 10
  text : 0 ∉ base
  root : base ≠ [0x2E]

namespace ShortName
variable {base : List UInt8} (short : ShortName base) (stack : Name)
include short

theorem str : (fileName stack base).str = base := fileName_str stack base short.upper short.text

theorem nonempty : base ≠ [] := by
  rintro rfl
  exact absurd short.lower (by simp)

theorem proper : (fileName stack base).Proper := by
  rw [Name.Proper, short.str stack]
  exact ⟨short.nonempty, short.root⟩

end ShortName

theorem writeefs_valid {d : Device} (some_ : 0 < d.count) (ident : d.sb.ident = newSuperblock.ident)
    (stack : Name) (file : List UInt8) (reads : Option (List ReadResult)) :
    writeefs stack file reads d = readWrite stack file reads d := by
  have valid : validateEfs d = .done 0 d := by
    rw [validateEfs, Prog.bind_done _ (getSuperblock_some some_)]
    simp only [ident]
    rfl
  rw [writeefs, Prog.bind_done _ valid, if_neg (by decide)]

theorem writeefs_formatted {d : Device} (f : Formatted d) (stack : Name) (file : List UInt8)
    (reads : Option (List ReadResult)) : writeefs stack file reads d = readWrite stack file reads d :=
  writeefs_valid (Nat.lt_of_lt_of_le (by decide) f.rooted.room) f.ident stack file reads

/-- A run after a successful `new_file`. -/
theorem readWrite_created {d d' : Device} {stack : Name} {file : List UInt8}
    (made : newFile (fileName stack (baseName file)) d = .done 0 d') (results : List ReadResult) :
    readWrite stack file (some results) d = copyLoop (fileName stack (baseName file)) results d' := by
  unfold readWrite
  rw [Prog.bind_done _ made, if_neg (by decide)]

theorem readWrite_unopened {d d' : Device} {stack : Name} {file : List UInt8}
    (made : newFile (fileName stack (baseName file)) d = .done 0 d') :
    readWrite stack file none d = .done ⟨-1, []⟩ d' := by
  unfold readWrite
  rw [Prog.bind_done _ made, if_neg (by decide)]
  rfl

theorem readWrite_refused {d d' : Device} {stack : Name} {file : List UInt8}
    (refused : newFile (fileName stack (baseName file)) d = .done (-1) d')
    (reads : Option (List ReadResult)) : readWrite stack file reads d = .done ⟨-1, []⟩ d' := by
  unfold readWrite
  rw [Prog.bind_done _ refused, if_pos rfl]
  rfl

theorem Created.budget {d d' : Device} {filename : Name} {i : UInt32} (c : Created d d' filename i)
    {n : Nat} (budget : d.Budget i.toNat 0 n) : d'.Budget i.toNat 0 n := by
  unfold Device.Budget
  rw [c.freeCount, c.indirect]
  exact budget

theorem cut_ne {s : List UInt8} (long : 11 < s.length) : s ≠ s.take 11 := by
  intro same
  have length := congrArg List.length same
  rw [List.length_take] at length
  omega

/-- Afterwards the file is found, unless its name is too long to be listed in full. -/
theorem Created.found {d d' : Device} {filename : Name} {i : UInt32} (c : Created d d' filename i)
    (proper : filename.Proper)
    (findable : filename.str.length ≤ 11 ∨ ∃ j, d.lookup filename.str = some j) :
    d'.lookup filename.str = some i := by
  by_cases short : filename.str.length ≤ 11
  · exact c.listed short
  · rcases findable with short' | ⟨j, found⟩
    · exact absurd short' short
    · rw [c.kept _ proper.1 (cut_ne (by omega))]
      rcases c.origin with old | ⟨missing, _⟩
      · exact old
      · rw [missing] at found
        cases found

/-- A run on a name that can be found again: refused for want of an inode, or a file
created and the source copied as far as the space goes. -/
theorem readWrite_cases {d : Device} (sound : Sound d) {stack : Name} {file : List UInt8}
    (proper : (fileName stack (baseName file)).Proper)
    (findable : (fileName stack (baseName file)).str.length ≤ 11 ∨
      ∃ j, d.lookup (fileName stack (baseName file)).str = some j)
    {cs : List Chunk} (whole : Whole cs)
    (budget : ∀ i d', Created d d' (fileName stack (baseName file)) i → d.Budget i.toNat 0 cs.length) :
    (d.lookup (fileName stack (baseName file)).str = none ∧
      readWrite stack file (some (cs.map .bytes)) d = .done ⟨-1, []⟩ d) ∨
    ∃ i d1 r d', Created d d1 (fileName stack (baseName file)) i ∧ Sound d1 ∧
      (d1.inode i.toNat).refs ≠ 0 ∧ Copying i.toNat 0 d1 cs r d' ∧
      readWrite stack file (some (cs.map .bytes)) d = .done r d' := by
  obtain ⟨cnt, dir⟩ := sound.directory
  rcases newFile_cases sound.formatted dir proper with ⟨missing, refused⟩ | ⟨d1, i, cnt', made, c, dir'⟩
  · exact Or.inl ⟨missing, readWrite_refused refused _⟩
  · right
    have sound1 := c.sound dir' sound
    have listed := c.found proper findable
    have referenced := (dir'.lookup_inode proper listed).2.2
    have empty : cs ≠ [] → (d1.inode i.toNat).size.toNat = 1024 * 0 := by
      intro _
      rw [c.size]
      rfl
    obtain ⟨r, d', run, copying⟩ := copyLoop_copying proper cs whole sound1 listed (Nat.zero_le _)
      empty (c.budget (budget i d1 c))
    exact ⟨i, d1, r, d', c, sound1, referenced, copying, by rw [readWrite_created made, run]⟩

/-- One `writeefs` run: what the stack held, the path and the bytes of the source. -/
structure Job where
  stack : Name
  file : List UInt8
  contents : List UInt8

namespace Job

def base (job : Job) : List UInt8 := baseName job.file

def run (job : Job) : Prog Device CopyResult :=
  writeefs job.stack job.file (some (readsOf job.contents))

/-- At most 257 blocks under a short name. -/
structure Regular (job : Job) : Prop where
  name : ShortName job.base
  size : job.contents.length ≤ 257 * 1024

end Job

/-- What a run leaves that was not refused: inode `i` is the file's and has what was
copied, and nothing else changed. -/
structure Written (d d' : Device) (job : Job) (r : CopyResult) (i : UInt32) : Prop where
  sound : Sound d'
  dataCount : d'.dataCount = d.dataCount
  file : 1 ≤ i.toNat ∧ i.toNat < 64
  origin : ∀ j, d.lookup job.base = some j → j = i
  listed : d'.lookup job.base = some i
  kept : ∀ s, s ≠ [] → s ≠ job.base → d'.lookup s = d.lookup s
  others : ∀ j, 1 ≤ j → j < 64 → j ≠ i.toNat → d'.inode j = d.inode j
  ptrs : ∀ j s, 1 ≤ j → j < 64 → j ≠ i.toNat → s < d.blocks j → d'.ptr j s = d.ptr j s
  contents : ∀ j, 1 ≤ j → j < 64 → j ≠ i.toNat → d'.content j = d.content j
  blocks : d'.blocks i.toNat = r.blocks.length
  placed : ∀ k v, r.blocks[k]? = some v → v = d'.ptr i.toNat k + 5
  ended : r.ret = 0 ∧ d'.content i.toNat = job.contents ∨ r.ret = -1

theorem Job.run_cases {job : Job} (regular : job.Regular) {d : Device} (sound : Sound d) :
    (d.lookup job.base = none ∧ job.run d = .done ⟨-1, []⟩ d) ∨
    ∃ r d' i, job.run d = .done r d' ∧ Written d d' job r i := by
  have str := regular.name.str job.stack
  have total : (chunks (blockTotal job.contents) job.contents).length = blockTotal job.contents :=
    length_chunks _ _
  have size := regular.size
  rw [Job.run, writeefs_formatted sound.formatted, readsOf]
  rcases readWrite_cases sound (regular.name.proper job.stack)
    (Or.inl (by
      change (fileName job.stack job.base).str.length ≤ 11
      rw [str]
      have := regular.name.upper
      omega))
    (whole_chunks _ job.contents rfl)
    (fun _ _ _ => Or.inl (by rw [total, blockTotal]; omega)) with
    ⟨missing, run⟩ | ⟨i, d1, r, d', c, sound1, referenced, copying, run⟩
  · left
    change d.lookup (fileName job.stack job.base).str = none at missing
    rw [str] at missing
    exact ⟨missing, run⟩
  · right
    have kept := copying.kept sound1 referenced
    obtain ⟨blocks, placed⟩ := copying.placed c.file sound1 referenced c.blocks_self
    change Created d d1 (fileName job.stack job.base) i at c
    have origin := c.origin
    have listed := c.listed
    have lookups := c.kept
    rw [str] at origin listed lookups
    have short : job.base.take 11 = job.base :=
      List.take_of_length_le (by have := regular.name.upper; omega)
    refine ⟨r, d', i, run,
      { sound := kept.sound, dataCount := by rw [kept.dataCount, c.dataCount], file := c.file,
        origin := ?_, listed := ?_, kept := ?_, others := ?_, ptrs := ?_, contents := ?_,
        blocks := by rw [blocks, Nat.zero_add],
        placed := fun k v at_ => by rw [placed k v at_, Nat.zero_add], ended := ?_ }⟩
    · intro j found
      rcases origin with old | ⟨missing, _⟩
      · rw [old] at found
        exact (Option.some.inj found).symm
      · rw [missing] at found
        cases found
    · rw [kept.lookup, listed (by have := regular.name.upper; omega)]
    · intro s nonempty differ
      rw [kept.lookup, lookups s nonempty (by rwa [short])]
    · intro j lower upper differ
      rw [kept.others j upper differ, c.others j lower upper differ]
    · intro j s lower upper differ inside
      have blocks1 : d1.blocks j = d.blocks j := by
        unfold Device.blocks
        rw [c.others j lower upper differ]
      rw [kept.ptrs j s lower upper (by rwa [blocks1]),
        c.ptr_other sound.owned j s lower upper differ inside]
    · intro j lower upper differ
      rw [kept.contents j lower upper differ, c.content_other sound.owned j lower upper differ]
    · rcases copying.ret with success | failure
      · left
        refine ⟨success, ?_⟩
        rw [copying.content sound1 referenced success, c.content_self, List.nil_append]
        exact flatten_chunks _ _ (by unfold blockTotal; omega)
      · exact Or.inr failure

end Sos.Efs
