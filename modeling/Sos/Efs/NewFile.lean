import Mathlib.Data.List.Find
import Sos.Efs.Directory

/-! `find_file`, `add_file` and `new_file` on a directory that satisfies its invariant. -/

namespace Sos.Efs
open Sos.Lib Sos.Lib.Bytes

section
variable {d : Device} {cnt : Nat} (r : Rooted d) (dir : Directory d cnt)
include r

theorem logicalToReal_done (n : UInt32) (nonzero : n + 5 ≠ 0) :
    logicalToReal n d = .done (n + 5) d := by
  rw [logicalToReal, Prog.bind_done _ (getSuperblock_done r)]
  simp only
  rw [Prog.bind_done _ (dataToReal_done r n), if_neg nonzero, dataToReal_done r n]

theorem rootData_done : readBlock 5 d = .done (some (d.data 0)) d :=
  readBlock_inside d 5 (by decide) (by have := r.room; change 5 < d.count; omega)

theorem rootWrite_done (b : Block) : writeBlock 5 b d = .done 0 (d.putData 0 b) :=
  writeBlock_inside d 5 b (by decide) (by have := r.room; change 5 < d.count; omega)

include dir

/-- The second block of a full directory is its first one once more. -/
theorem rootBlock_done (i : UInt32) (h : i.toNat ≤ 1) : getLogicalBlock (d.inode 0) i d = .done 5 d := by
  have direct : (d.inode 0).direct i.toNat = 0 := by
    rcases (by omega : i.toNat = 0 ∨ i.toNat = 1) with zero | one
    · rw [zero, dir.data0]
    · rw [one, dir.data1]
  have small : i ≤ 4 := UInt32.le_iff_toNat_le.mpr (by simp; omega)
  rw [getLogicalBlock, if_pos small, direct]
  exact logicalToReal_done r 0 (by decide)

theorem searchBlocks_done (filename : Name) (left : Nat) (i : UInt32) (some_ : 0 < left)
    (bound : i.toNat + left ≤ 2) :
    searchBlocks (d.inode 0) filename left i d = .done (d.lookup filename.str) d := by
  induction left generalizing i with
  | zero => omega
  | succ left ih =>
    rw [searchBlocks, Prog.bind_done _ (rootBlock_done r dir i (by omega)), if_neg (by decide),
      Prog.bind_done _ (rootData_done r)]
    simp only [Device.searchBlock_data]
    cases found : d.lookup filename.str with
    | some number => rfl
    | none =>
      by_cases last : left = 0
      · subst last
        rfl
      · have next : (i + 1).toNat = i.toNat + 1 := toNat_succ (by omega)
        have rest := ih (i + 1) (by omega) (by omega)
        rwa [found] at rest

theorem findFile_done (filename : Name) : findFile filename d = .done (d.lookup filename.str) d := by
  have last := dir.last
  have blocks : ((d.inode 0).size / 1024).toNat = 16 * cnt / 1024 := by
    rw [UInt32.toNat_div, dir.size]
    rfl
  rw [findFile, Prog.bind_done _ (getInode_done r 0 (by simp))]
  exact searchBlocks_done r dir filename _ 0 (by omega) (by
    change 0 + _ ≤ 2
    change 0 + (((d.inode 0).size / 1024).toNat + 1) ≤ 2
    omega)

end

namespace Device

/-- Entry `cnt` written behind the others, the directory 16 bytes longer. -/
def addEntry (d : Device) (cnt : Nat) (filename : Name) (number : UInt32) : Device :=
  (d.putData 0 (((d.data 0).blit (16 * cnt) 11 (strncpy filename.byte)).putWord (16 * cnt + 12)
    number)).putInode 0 { d.inode 0 with size := (d.inode 0).size + 16 }

variable (d : Device) (cnt : Nat) (filename : Name) (number : UInt32)

theorem data_addEntry (n : Nat) : (d.addEntry cnt filename number).data n = if n = 0 then
    ((d.data 0).blit (16 * cnt) 11 (strncpy filename.byte)).putWord (16 * cnt + 12) number
    else d.data n := by
  rw [addEntry, data_putInode _ _ _ _ (by omega), data_putData]

theorem inode_addEntry (i : Nat) (h : i < 64) : (d.addEntry cnt filename number).inode i =
    if i = 0 then { d.inode 0 with size := (d.inode 0).size + 16 } else d.inode i := by
  rw [addEntry, inode_putInode, inode_putData _ _ _ _ h]

theorem entryStr_addEntry_other (e : Nat) (differ : e ≠ cnt) :
    (d.addEntry cnt filename number).entryStr e = d.entryStr e := by
  unfold entryStr
  rw [data_addEntry, if_pos rfl]
  apply cstr_congr
  intro i h
  rw [Buf.putWord, Buf.byte_blit_outside _ _ _ _ (by omega), Buf.byte_blit_outside _ _ _ _ (by omega)]

theorem entryStr_addEntry_self (h : cnt < 64) (blank : (d.data 0).byte (16 * cnt + 11) = 0) :
    (d.addEntry cnt filename number).entryStr cnt = filename.str.take 11 := by
  rw [Name.str, ← cstr_strncpy 12 11 _ (by omega), entryStr, data_addEntry, if_pos rfl]
  apply cstr_congr
  intro i bound
  rw [Buf.putWord, Buf.byte_blit_outside _ _ _ _ (by omega)]
  by_cases stored : i < 11
  · rw [if_pos stored, Buf.byte_blit_inside _ _ _ _ (by omega) (by omega) (by omega),
      Nat.add_sub_cancel_left]
  · have last : i = 11 := by omega
    rw [if_neg stored, Buf.byte_blit_outside _ _ _ _ (by omega), last, blank]

theorem entryInode_addEntry (e : Nat) (h : cnt < 64) : (d.addEntry cnt filename number).entryInode e =
    if e = cnt then number else d.entryInode e := by
  rw [entryInode, data_addEntry, if_pos rfl]
  by_cases same : e = cnt
  · rw [if_pos same, same, Buf.word_putWord _ _ _ (by omega)]
  · rw [if_neg same, Buf.word_putWord_other _ _ _ _ (by omega),
      Buf.word_blit_outside _ _ _ _ _ (by omega)]
    rfl

end Device

section
variable {d : Device} {cnt : Nat} (r : Rooted d) (dir : Directory d cnt)
include r dir

theorem addFile_done (filename : Name) (number : UInt32) (h : cnt < 64) :
    addFile filename number d = .done 0 (d.addEntry cnt filename number) := by
  have last : (d.inode 0).size / 1024 = 0 := by
    rw [← UInt32.toNat_inj, UInt32.toNat_div, dir.size]
    simp
    omega
  have off : ((d.inode 0).size % 1024).toNat = 16 * cnt := by
    rw [UInt32.toNat_mod, dir.size]
    simp
    omega
  have entry : writeEntry (d.data 0) (16 * cnt) filename number d = .done
      (((d.data 0).blit (16 * cnt) 11 (strncpy filename.byte)).putWord (16 * cnt + 12) number) d := by
    rw [writeEntry, if_pos (by omega)]
    rfl
  rw [addFile, Prog.bind_done _ (getInode_done r 0 (by simp))]
  simp only [UInt32.toNat_zero, last, off]
  rw [Prog.bind_done _ (rootBlock_done r dir 0 (by simp)), if_neg (by decide),
    Prog.bind_done _ (rootData_done r)]
  simp only
  rw [Prog.bind_done _ entry, Prog.bind_done _ (rootWrite_done r _),
    if_neg (by decide), Prog.bind_done _ (setInode_done (r.putData 0 _) 0 _ (by simp))]
  rfl

end

theorem scanInodes_none {d : Device} (r : Rooted d) (left : Nat) (i : UInt32)
    (bound : i.toNat + left ≤ 64)
    (taken : ∀ m, i.toNat ≤ m → m < i.toNat + left → (d.inode m).refs ≠ 0) :
    scanInodes left i d = .done none d := by
  induction left generalizing i with
  | zero => rfl
  | succ left ih =>
    have next : (i + 1).toNat = i.toNat + 1 := toNat_succ (by omega)
    rw [scanInodes, Prog.bind_done _ (getInode_done r i (by omega))]
    simp only
    rw [if_neg (taken _ le_rfl (by omega))]
    exact ih (i + 1) (by omega) (fun m lower upper => taken m (by omega) (by omega))

theorem scanInodes_some {d : Device} (r : Rooted d) (left : Nat) (i b : UInt32)
    (bound : i.toNat + left ≤ 64) (lower : i.toNat ≤ b.toNat) (upper : b.toNat < i.toNat + left)
    (free : (d.inode b.toNat).refs = 0)
    (taken : ∀ m, i.toNat ≤ m → m < b.toNat → (d.inode m).refs ≠ 0) :
    scanInodes left i d = .done (some (b, d.inode b.toNat)) d := by
  induction left generalizing i with
  | zero => omega
  | succ left ih =>
    have next : (i + 1).toNat = i.toNat + 1 := toNat_succ (by omega)
    rw [scanInodes, Prog.bind_done _ (getInode_done r i (by omega))]
    simp only
    by_cases same : i = b
    · subst same
      rw [if_pos free]
      rfl
    · have differ : i.toNat ≠ b.toNat := fun h => same (UInt32.toNat_inj.mp h)
      rw [if_neg (taken _ le_rfl (by omega))]
      exact ih (i + 1) (by omega) (by omega) (by omega) (fun m lo hi => taken m (by omega) hi)

section
variable {d : Device} {cnt : Nat} (r : Rooted d) (dir : Directory d cnt) (filename : Name)
include r dir

/-- What is found is cut to size zero, be it a file or the directory. -/
theorem newFile_cut {i : UInt32} (bound : i.toNat < 64) (found : d.lookup filename.str = some i) :
    newFile filename d = .done 0 (d.putInode i.toNat { d.inode i.toNat with size := 0 }) := by
  rw [newFile, Prog.bind_done _ (getSuperblock_done r)]
  simp only
  rw [Prog.bind_done _ (findFile_done r dir filename), found]
  simp only
  rw [Prog.bind_done _ (getInode_done r i bound.le)]
  simp only
  rw [Prog.bind_done _ (setInode_done r i _ bound.le)]
  rfl

/-- An existing file is cut to size zero; that is all that happens to it. -/
theorem newFile_found (proper : filename.Proper) {i : UInt32}
    (found : d.lookup filename.str = some i) :
    newFile filename d = .done 0 (d.putInode i.toNat { d.inode i.toNat with size := 0 }) :=
  newFile_cut r dir filename (dir.lookup_inode proper found).2.1 found

theorem newFile_full (missing : d.lookup filename.str = none)
    (full : ∀ m, m < 64 → (d.inode m).refs ≠ 0) : newFile filename d = .done (-1) d := by
  rw [newFile, Prog.bind_done _ (getSuperblock_done r)]
  simp only
  rw [Prog.bind_done _ (findFile_done r dir filename), missing]
  simp only [r.inodeCount, show (64 : UInt32).toNat = 64 from rfl]
  rw [Prog.bind_done _ (scanInodes_none r 64 0 (by simp) (fun m _ upper => full m (by simpa using upper)))]
  rfl

/-- A new file takes the first free inode and the next directory entry. -/
theorem newFile_fresh (missing : d.lookup filename.str = none) {i : UInt32} (bound : i.toNat < 64)
    (free : (d.inode i.toNat).refs = 0) (taken : ∀ m, m < i.toNat → (d.inode m).refs ≠ 0) :
    newFile filename d = .done 0
      ((d.addEntry cnt filename i).putInode i.toNat { d.inode i.toNat with refs := 1 }) := by
  have room := dir.not_full i.toNat bound free
  have rooted : Rooted (d.addEntry cnt filename i) := (r.putData _ _).putInode _ _
  rw [newFile, Prog.bind_done _ (getSuperblock_done r)]
  simp only
  rw [Prog.bind_done _ (findFile_done r dir filename), missing]
  simp only [r.inodeCount, show (64 : UInt32).toNat = 64 from rfl]
  rw [Prog.bind_done _ (scanInodes_some r 64 0 i (by simp) (by simp) (by simpa using bound) free
    (fun m _ upper => taken m upper))]
  simp only
  rw [Prog.bind_done _ (addFile_done r dir filename i room), if_neg (by decide),
    Prog.bind_done _ (setInode_done rooted i _ bound.le)]
  rfl

end

/-- What a successful `new_file` leaves: inode `i` empty and listed under the name, every
other file and every data block but the directory's untouched. -/
structure Created (d d' : Device) (filename : Name) (i : UInt32) : Prop where
  formatted : Formatted d'
  dataCount : d'.dataCount = d.dataCount
  file : 1 ≤ i.toNat ∧ i.toNat < 64
  data : ∀ m, m ≠ 0 → d'.data m = d.data m
  bits : ∀ m, d'.bit m = d.bit m
  others : ∀ j, 1 ≤ j → j < 64 → j ≠ i.toNat → d'.inode j = d.inode j
  size : (d'.inode i.toNat).size = 0
  indirect : (d'.inode i.toNat).indirectData = (d.inode i.toNat).indirectData
  origin : d.lookup filename.str = some i ∨
    d.lookup filename.str = none ∧ (d.inode i.toNat).size = 0 ∧ (d.inode i.toNat).indirectData = 0
  listed : filename.str.length ≤ 11 → d'.lookup filename.str = some i
  kept : ∀ s, s ≠ [] → s ≠ filename.str.take 11 → d'.lookup s = d.lookup s

section
variable {d : Device} {cnt : Nat} (dir : Directory d cnt) {filename : Name}
  (proper : filename.Proper) {i : UInt32}
include dir proper

theorem directory_found (found : d.lookup filename.str = some i) :
    Directory (d.putInode i.toNat { d.inode i.toNat with size := 0 }) cnt := by
  obtain ⟨lower, upper, refs⟩ := dir.lookup_inode proper found
  apply dir.frame
  · exact Device.data_putInode _ _ _ _ upper
  · rw [Device.inode_putInode, if_neg (by omega)]
  · intro j _
    rw [Device.inode_putInode]
    split
    next same => rw [same]
    next => rfl
  · intro j _ free
    rw [Device.inode_putInode, if_neg]
    rintro rfl
    exact refs free

theorem created_found (f : Formatted d) (found : d.lookup filename.str = some i) :
    Created d (d.putInode i.toNat { d.inode i.toNat with size := 0 }) filename i := by
  obtain ⟨lower, upper, _⟩ := dir.lookup_inode proper found
  have lookup : ∀ s, (d.putInode i.toNat { d.inode i.toNat with size := 0 }).lookup s = d.lookup s :=
    fun s => Device.lookup_congr (Device.data_putInode _ _ _ _ upper) s
  exact
    { formatted := f.putInode _ _
      dataCount := by simp [Device.dataCount]
      file := ⟨lower, upper⟩
      data := fun m _ => Device.data_putInode _ _ _ _ upper
      bits := fun m => Device.bit_putInode _ _ _ _
      others := fun j _ _ differ => by rw [Device.inode_putInode, if_neg differ]
      size := by rw [Device.inode_putInode, if_pos rfl]
      indirect := by rw [Device.inode_putInode, if_pos rfl]
      origin := Or.inl found
      listed := fun _ => by rw [lookup, found]
      kept := fun s _ _ => lookup s }

end

/-- The eleven bytes stored for a proper name are one as well. -/
theorem Name.Proper.take {filename : Name} (proper : filename.Proper) :
    filename.str.take 11 ≠ [] ∧ filename.str.take 11 ≠ [0x2E] := by
  obtain ⟨nonempty, root⟩ := proper
  cases value : filename.str with
  | nil => exact absurd value nonempty
  | cons x rest =>
    cases rest with
    | nil => exact ⟨by simp, by simpa [value] using root⟩
    | cons y rest => simp

/-- A fresh file: a directory entry and the one reference to inode `i`. -/
def Device.fresh (d : Device) (cnt : Nat) (filename : Name) (i : UInt32) : Device :=
  (d.addEntry cnt filename i).putInode i.toNat { d.inode i.toNat with refs := 1 }

namespace Device
variable (d : Device) (cnt : Nat) (filename : Name) (i : UInt32)

theorem inode_fresh (j : Nat) (h : j < 64) : (d.fresh cnt filename i).inode j =
    if j = i.toNat then { d.inode i.toNat with refs := 1 }
    else if j = 0 then { d.inode 0 with size := (d.inode 0).size + 16 } else d.inode j := by
  rw [fresh, inode_putInode, inode_addEntry _ _ _ _ _ h]

theorem data_fresh (bound : i.toNat < 64) (m : Nat) :
    (d.fresh cnt filename i).data m = (d.addEntry cnt filename i).data m :=
  data_putInode _ _ _ _ bound

end Device

namespace Directory
variable {d : Device} {cnt : Nat} (dir : Directory d cnt) {filename : Name} {i : UInt32}
  (free : (d.inode i.toNat).refs = 0)
include dir free

theorem free_ne_zero : i.toNat ≠ 0 := by
  intro zero
  rw [zero] at free
  exact dir.refs free

variable (bound : i.toNat < 64)
include bound

theorem free_unlisted (e : Nat) (h : e < cnt) : d.entryInode e ≠ i := by
  have nonzero := dir.free_ne_zero free
  intro same
  by_cases zero : e = 0
  · rw [zero, dir.selfInode] at same
    exact nonzero (by rw [← same]; rfl)
  · exact (dir.used i.toNat (by omega) bound).mpr ⟨e, by omega, h, by rw [same]⟩ free

theorem entryStr_fresh (e : Nat) : (d.fresh cnt filename i).entryStr e =
    if e = cnt then filename.str.take 11 else d.entryStr e := by
  have same : (d.fresh cnt filename i).entryStr e = (d.addEntry cnt filename i).entryStr e := by
    simp only [Device.entryStr, Device.data_fresh _ _ _ _ bound]
  have room := dir.not_full i.toNat bound free
  rw [same]
  by_cases self : e = cnt
  · rw [if_pos self, self]
    exact Device.entryStr_addEntry_self d cnt filename i room (dir.blank _ (by omega) (by omega))
  · rw [if_neg self, Device.entryStr_addEntry_other _ _ _ _ e self]

theorem entryInode_fresh (e : Nat) : (d.fresh cnt filename i).entryInode e =
    if e = cnt then i else d.entryInode e := by
  rw [← Device.entryInode_addEntry d cnt filename i e (dir.not_full i.toNat bound free)]
  simp only [Device.entryInode, Device.data_fresh _ _ _ _ bound]

theorem lookup_fresh (s : List UInt8) (nonempty : s ≠ []) : (d.fresh cnt filename i).lookup s =
    (d.lookup s).or (if filename.str.take 11 = s then some i else none) := by
  have room := dir.not_full i.toNat bound free
  have split : 64 = cnt + (1 + (63 - cnt)) := by omega
  have before : ((List.range cnt).find? fun e => (d.fresh cnt filename i).entryStr e = s) =
      (List.range cnt).find? fun e => d.entryStr e = s := by
    apply List.find?_congr
    intro e member
    have below := List.mem_range.mp member
    rw [dir.entryStr_fresh free bound, if_neg (by omega)]
  have behind : (((List.range (63 - cnt)).map (1 + ·)).map (cnt + ·)).find?
      (fun e => (d.fresh cnt filename i).entryStr e = s) = none := by
    rw [List.find?_eq_none]
    intro e member
    simp only [List.map_map, List.mem_map, List.mem_range, Function.comp_apply] at member
    obtain ⟨k, inside, rfl⟩ := member
    rw [dir.entryStr_fresh free bound, if_neg (by omega), dir.blank_str _ (by omega) (by omega)]
    simpa using nonempty.symm
  rw [dir.lookup_range s nonempty, Device.lookup, split, List.range_add, List.find?_append, before,
    List.range_add, List.map_append, List.find?_append, behind, Option.or_none]
  cases old : (List.range cnt).find? fun e => d.entryStr e = s with
  | some e =>
    have below := List.mem_range.mp (List.mem_of_find?_eq_some old)
    simp [dir.entryInode_fresh free bound, show e ≠ cnt by omega]
  | none =>
    by_cases same : filename.str.take 11 = s
    · simp [dir.entryStr_fresh free bound, same, dir.entryInode_fresh free bound]
    · simp [dir.entryStr_fresh free bound, same]

theorem created_fresh (f : Formatted d) (proper : filename.Proper) (missing : d.lookup filename.str = none) :
    Created d (d.fresh cnt filename i) filename i where
  formatted := (f.putData _ _).putInode _ _ |>.putInode _ _
  dataCount := by simp [Device.fresh, Device.addEntry, Device.dataCount]
  file := ⟨Nat.one_le_iff_ne_zero.mpr (dir.free_ne_zero free), bound⟩
  data := by
    intro m other
    rw [Device.data_fresh _ _ _ _ bound, Device.data_addEntry, if_neg other]
  bits := by
    intro m
    simp [Device.fresh, Device.addEntry]
  others := by
    intro j lower upper differ
    rw [Device.inode_fresh _ _ _ _ _ upper, if_neg differ, if_neg (by omega)]
  size := by
    rw [Device.inode_fresh _ _ _ _ _ bound, if_pos rfl]
    exact (dir.fresh _ bound free).1
  indirect := by rw [Device.inode_fresh _ _ _ _ _ bound, if_pos rfl]
  origin := Or.inr ⟨missing, dir.fresh _ bound free⟩
  listed := by
    intro short
    rw [dir.lookup_fresh free bound _ proper.1, missing, List.take_of_length_le short]
    simp
  kept := by
    intro s nonempty differ
    rw [dir.lookup_fresh free bound s nonempty, if_neg differ.symm, Option.or_none]

/-- The list grows by one entry and stays a directory. -/
theorem directory_fresh (proper : filename.Proper) : Directory (d.fresh cnt filename i) (cnt + 1) := by
  have room := dir.not_full i.toNat bound free
  have nonzero := dir.free_ne_zero free
  have first := dir.first
  have root : (d.fresh cnt filename i).inode 0 =
      { d.inode 0 with size := (d.inode 0).size + 16 } := by
    rw [Device.inode_fresh _ _ _ _ _ (by omega), if_neg (by omega), if_pos rfl]
  have strs : ∀ e, (d.fresh cnt filename i).entryStr e =
      if e = cnt then filename.str.take 11 else d.entryStr e := dir.entryStr_fresh free bound
  have inodes : ∀ e, (d.fresh cnt filename i).entryInode e =
      if e = cnt then i else d.entryInode e := dir.entryInode_fresh free bound
  have unlisted := dir.free_unlisted free bound
  refine
    { size := ?_, first := by omega, last := by omega, data0 := by rw [root]; exact dir.data0,
      data1 := by rw [root]; exact dir.data1, refs := by rw [root]; exact dir.refs,
      indirect := by rw [root]; exact dir.indirect, selfStr := ?_, selfInode := ?_, named := ?_,
      blank := ?_, inodes := ?_, distinct := ?_, used := ?_, fresh := ?_ }
  · rw [root]
    change ((d.inode 0).size + 16).toNat = _
    rw [UInt32.toNat_add, dir.size]
    simp
    omega
  · rw [strs, if_neg (by omega), dir.selfStr]
  · rw [inodes, if_neg (by omega), dir.selfInode]
  · intro e lower upper
    rw [strs]
    split
    · exact proper.take
    · exact dir.named e lower (by omega)
  · intro k lower upper
    rw [Device.data_fresh _ _ _ _ bound, Device.data_addEntry, if_pos rfl, Buf.putWord,
      Buf.byte_blit_outside _ _ _ _ (by omega), Buf.byte_blit_outside _ _ _ _ (by omega)]
    exact dir.blank k (by omega) upper
  · intro e lower upper
    rw [inodes]
    split
    · omega
    · exact dir.inodes e lower (by omega)
  · intro e e' upper upper' same
    rw [inodes, inodes] at same
    split at same <;> split at same
    · omega
    · exact absurd same.symm (unlisted e' (by omega))
    · exact absurd same (unlisted e (by omega))
    · exact dir.distinct e e' (by omega) (by omega) same
  · intro j lower upper
    rw [Device.inode_fresh _ _ _ _ _ upper]
    by_cases same : j = i.toNat
    · rw [if_pos same]
      refine iff_of_true (by simp) ⟨cnt, first, by omega, ?_⟩
      rw [inodes, if_pos rfl, same]
    · rw [if_neg same, if_neg (by omega), dir.used j lower upper]
      constructor
      · rintro ⟨e, low, high, value⟩
        exact ⟨e, low, by omega, by rw [inodes, if_neg (by omega), value]⟩
      · rintro ⟨e, low, high, value⟩
        rw [inodes] at value
        split at value
        · exact absurd value.symm same
        · exact ⟨e, low, by omega, value⟩
  · intro j upper none
    rw [Device.inode_fresh _ _ _ _ _ upper] at none ⊢
    split at none
    · simp at none
    · split at none
      · exact absurd none dir.refs
      · rename_i differ nonroot
        rw [if_neg differ, if_neg nonroot]
        exact dir.fresh j upper none

end Directory

/-- The first inode without references. -/
theorem firstFree {d : Device} (some_ : ¬∀ m, m < 64 → (d.inode m).refs ≠ 0) :
    ∃ i : UInt32, i.toNat < 64 ∧ (d.inode i.toNat).refs = 0 ∧ ∀ m, m < i.toNat → (d.inode m).refs ≠ 0 := by
  have free : ∃ m, m < 64 ∧ (d.inode m).refs = 0 := by simpa using some_
  obtain ⟨bound, unused⟩ := Nat.find_spec free
  have value : (UInt32.ofNat (Nat.find free)).toNat = Nat.find free := by
    simp only [UInt32.toNat_ofNat']
    omega
  refine ⟨UInt32.ofNat (Nat.find free), by rwa [value], by rwa [value], ?_⟩
  intro m below
  rw [value] at below
  have least := Nat.find_min free below
  simp only [not_and] at least
  exact least (by omega)

/-- `new_file` cuts an old file short, finds no inode left, or takes the first free one for a new
entry. -/
theorem newFile_outcomes {d : Device} {cnt : Nat} (r : Rooted d) (dir : Directory d cnt)
    {filename : Name} (proper : filename.Proper) :
    (∃ i, d.lookup filename.str = some i ∧
      newFile filename d = .done 0 (d.putInode i.toNat { d.inode i.toNat with size := 0 })) ∨
    d.lookup filename.str = none ∧ ((∀ m, m < 64 → (d.inode m).refs ≠ 0) ∧ newFile filename d = .done (-1) d ∨
      ∃ i, i.toNat < 64 ∧ (d.inode i.toNat).refs = 0 ∧ (∀ m, m < i.toNat → (d.inode m).refs ≠ 0) ∧
        newFile filename d = .done 0 (d.fresh cnt filename i)) := by
  cases found : d.lookup filename.str with
  | some i => exact Or.inl ⟨i, rfl, newFile_found r dir filename proper found⟩
  | none =>
    refine Or.inr ⟨rfl, ?_⟩
    by_cases full : ∀ m, m < 64 → (d.inode m).refs ≠ 0
    · exact Or.inl ⟨full, newFile_full r dir filename found full⟩
    · obtain ⟨i, bound, unused, least⟩ := firstFree full
      exact Or.inr ⟨i, bound, unused, least, newFile_fresh r dir filename found bound unused least⟩

/-- `new_file` finds no inode left, or leaves an empty file of the given name. -/
theorem newFile_cases {d : Device} {cnt : Nat} (f : Formatted d) (dir : Directory d cnt)
    {filename : Name} (proper : filename.Proper) :
    (d.lookup filename.str = none ∧ newFile filename d = .done (-1) d) ∨
    ∃ d' i cnt', newFile filename d = .done 0 d' ∧ Created d d' filename i ∧ Directory d' cnt' := by
  rcases newFile_outcomes f.rooted dir proper with
    ⟨i, found, made⟩ | ⟨missing, ⟨-, refused⟩ | ⟨i, bound, unused, -, made⟩⟩
  · exact Or.inr ⟨_, i, cnt, made, created_found dir proper f found, directory_found dir proper found⟩
  · exact Or.inl ⟨missing, refused⟩
  · exact Or.inr ⟨_, i, cnt + 1, made, dir.created_fresh unused bound f proper missing,
      dir.directory_fresh unused bound proper⟩

end Sos.Efs
