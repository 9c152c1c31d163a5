import Mathlib.Data.Finset.Card
import Mathlib.Order.Interval.Finset.Nat
import Sos.Lib.Runs
import Sos.Efs.Format

/-! The root directory as a finite map, over any sequence of `new_file` calls. -/

namespace Sos.Efs
open Sos.Lib Sos.Lib.Bytes

/-- A name of one to eleven bytes with its zero behind it, and not the directory's own. -/
structure Name.Listable (filename : Name) : Prop where
  proper : filename.Proper
  upper : filename.str.length ≤ 11

/-- A successful `new_file` of this name is among the calls. -/
def Made (log : List (Name × Int)) (filename : Name) : Prop :=
  ∃ earlier : Name, (earlier, 0) ∈ log ∧ earlier.str = filename.str

/-- What `find_file` says of the names after these calls. -/
structure RootMap (log : List (Name × Int)) (d : Device) : Prop where
  finds : ∀ a : Name, a.Listable → ∃ found, findFile a d = .done found d ∧ (found.isSome ↔ Made log a)
  numbers : ∀ (a : Name) i, a.Listable → findFile a d = .done (some i) d → 1 ≤ i.toNat ∧ i.toNat ≤ 63
  distinct : ∀ (a b : Name) i j, a.Listable → b.Listable → findFile a d = .done (some i) d →
    findFile b d = .done (some j) d → a.str ≠ b.str → i ≠ j
  oneBlock : (d.inode 0).size.toNat ≤ 1024
  full : ∀ names : List Name, names.length = 63 → (names.map Name.str).Nodup →
    (∀ a, a ∈ names → a.Listable ∧ ∃ i, findFile a d = .done (some i) d) →
    ∀ b : Name, b.Listable → b.str ∉ names.map Name.str → newFile b d = .done (-1) d

/-- What a further call leaves as it was: the other names, the entries there were, all
other data blocks, and of the directory's inode all but its size. -/
structure Extends (filename : Name) (d d' : Device) : Prop where
  others : ∀ (a : Name) found, a.Listable → a.str ≠ filename.str → findFile a d = .done found d →
    findFile a d' = .done found d'
  entries : ∀ k, k < (d.inode 0).size.toNat → (d'.data 0).byte k = (d.data 0).byte k
  data : ∀ m, m ≠ 0 → d'.data m = d.data m
  root : ∃ size, d'.inode 0 = { d.inode 0 with size := size }

/-- The invariant: a directory, with the names made so far. -/
structure Mapped (log : List (Name × Int)) (d : Device) : Prop where
  rooted : Rooted d
  directory : ∃ cnt, Directory d cnt
  made : ∀ a : Name, a.Listable → ((d.lookup a.str).isSome ↔ Made log a)

theorem Made.cons {log : List (Name × Int)} {a b : Name} {r : Int} :
    Made ((b, r) :: log) a ↔ (r = 0 ∧ b.str = a.str) ∨ Made log a := by
  constructor
  · rintro ⟨c, member, same⟩
    rcases List.mem_cons.mp member with first | later
    · obtain ⟨rfl, rfl⟩ := Prod.mk.inj first
      exact Or.inl ⟨rfl, same⟩
    · exact Or.inr ⟨c, later, same⟩
  · rintro (⟨rfl, same⟩ | ⟨c, member, same⟩)
    · exact ⟨b, List.mem_cons_self, same⟩
    · exact ⟨c, List.mem_cons_of_mem _ member, same⟩

namespace Mapped
variable {log : List (Name × Int)} {d : Device} (mapped : Mapped log d)
include mapped

theorem finds (a : Name) : findFile a d = .done (d.lookup a.str) d := by
  obtain ⟨cnt, dir⟩ := mapped.directory
  exact findFile_done mapped.rooted dir a

theorem found {a : Name} {i : UInt32} (search : findFile a d = .done (some i) d) :
    d.lookup a.str = some i := by
  rw [mapped.finds, Outcome.done.injEq] at search
  exact search.1

/-- 63 names have all the inodes there are for files. -/
theorem numbers {names : List Name} (count : names.length = 63) (once : (names.map Name.str).Nodup)
    (listed : ∀ a, a ∈ names → a.Listable ∧ ∃ i, d.lookup a.str = some i) (j : Nat) (lower : 1 ≤ j)
    (upper : j < 64) : ∃ a i, a ∈ names ∧ d.lookup a.str = some i ∧ i.toNat = j := by
  obtain ⟨cnt, dir⟩ := mapped.directory
  have numbers : ((names.map Name.str).map fun s => ((d.lookup s).getD 0).toNat).Nodup := by
    refine List.Nodup.map_on ?_ once
    intro s hs t ht same
    obtain ⟨a, ha, rfl⟩ := List.mem_map.mp hs
    obtain ⟨b, hb, rfl⟩ := List.mem_map.mp ht
    obtain ⟨listableA, i, foundA⟩ := listed a ha
    obtain ⟨listableB, j, foundB⟩ := listed b hb
    rw [foundA, foundB] at same
    by_contra differ
    exact dir.lookup_injective listableA.proper listableB.proper foundA foundB differ same
  have inside : ((names.map Name.str).map fun s => ((d.lookup s).getD 0).toNat).toFinset ⊆
      Finset.Icc 1 63 := by
    intro n member
    obtain ⟨s, hs, value⟩ := List.mem_map.mp (List.mem_toFinset.mp member)
    obtain ⟨a, ha, rfl⟩ := List.mem_map.mp hs
    obtain ⟨listable, i, found⟩ := listed a ha
    obtain ⟨low, high, -⟩ := dir.lookup_inode listable.proper found
    rw [found] at value
    rw [Finset.mem_Icc, ← value, Option.getD_some]
    omega
  have all := Finset.eq_of_subset_of_card_le inside (by
    rw [List.toFinset_card_of_nodup numbers, List.length_map, List.length_map, count]
    rfl)
  have member : j ∈ Finset.Icc 1 63 := Finset.mem_Icc.mpr (by omega)
  rw [← all] at member
  obtain ⟨s, hs, value⟩ := List.mem_map.mp (List.mem_toFinset.mp member)
  obtain ⟨a, ha, rfl⟩ := List.mem_map.mp hs
  obtain ⟨listable, i, found⟩ := listed a ha
  rw [found, Option.getD_some] at value
  exact ⟨a, i, ha, found, value⟩

/-- With 63 names there is no inode for another one. -/
theorem refuses {names : List Name} (count : names.length = 63) (once : (names.map Name.str).Nodup)
    (listed : ∀ a, a ∈ names → a.Listable ∧ ∃ i, d.lookup a.str = some i) {b : Name}
    (listable : b.Listable) (other : b.str ∉ names.map Name.str) :
    newFile b d = .done (-1) d := by
  obtain ⟨cnt, dir⟩ := mapped.directory
  cases found : d.lookup b.str with
  | some j =>
    exfalso
    obtain ⟨lower, upper, -⟩ := dir.lookup_inode listable.proper found
    obtain ⟨a, i, member, foundA, same⟩ := mapped.numbers count once listed j.toNat lower upper
    have differ : a.str ≠ b.str := fun same => other (same ▸ List.mem_map_of_mem member)
    exact dir.lookup_injective (listed a member).1.proper listable.proper foundA found differ same
  | none =>
    apply newFile_full mapped.rooted dir b found
    intro j upper
    by_cases zero : j = 0
    · rw [zero]
      exact dir.refs
    · obtain ⟨a, i, member, foundA, same⟩ := mapped.numbers count once listed j (by omega) upper
      rw [← same]
      exact (dir.lookup_inode (listed a member).1.proper foundA).2.2

theorem rootMap : RootMap log d where
  finds := fun a listable => ⟨d.lookup a.str, mapped.finds a, mapped.made a listable⟩
  numbers := by
    intro a i listable search
    obtain ⟨cnt, dir⟩ := mapped.directory
    obtain ⟨lower, upper, -⟩ := dir.lookup_inode listable.proper (mapped.found search)
    omega
  distinct := by
    intro a b i j listableA listableB searchA searchB differ same
    obtain ⟨cnt, dir⟩ := mapped.directory
    refine dir.lookup_injective listableA.proper listableB.proper (mapped.found searchA)
      (mapped.found searchB) differ ?_
    rw [same]
  oneBlock := by
    obtain ⟨cnt, dir⟩ := mapped.directory
    have last := dir.last
    rw [dir.size]
    omega
  full := by
    intro names count once listed b listable other
    refine mapped.refuses count once ?_ listable other
    intro a member
    obtain ⟨fits, i, search⟩ := listed a member
    exact ⟨fits, i, mapped.found search⟩

/-- An existing file is cut to size zero. -/
theorem cut {b : Name} (listable : b.Listable) {i : UInt32} (found : d.lookup b.str = some i) :
    Mapped ((b, 0) :: log) (d.putInode i.toNat { d.inode i.toNat with size := 0 }) ∧
      Extends b d (d.putInode i.toNat { d.inode i.toNat with size := 0 }) := by
  obtain ⟨cnt, dir⟩ := mapped.directory
  obtain ⟨lower, upper, -⟩ := dir.lookup_inode listable.proper found
  have data : ∀ m, (d.putInode i.toNat { d.inode i.toNat with size := 0 }).data m = d.data m :=
    fun m => Device.data_putInode _ _ _ m upper
  have lookup := Device.lookup_congr (data 0)
  have rooted := mapped.rooted.putInode i.toNat { d.inode i.toNat with size := 0 }
  have dir' := directory_found dir listable.proper found
  have next : Mapped ((b, 0) :: log) (d.putInode i.toNat { d.inode i.toNat with size := 0 }) := by
    refine ⟨rooted, ⟨cnt, dir'⟩, fun a fits => ?_⟩
    rw [lookup, mapped.made a fits, Made.cons]
    refine (or_iff_right_of_imp ?_).symm
    rintro ⟨-, same⟩
    rw [← mapped.made a fits, ← same, found]
    rfl
  refine ⟨next, ?_⟩
  refine { others := ?_, entries := ?_, data := fun m _ => data m, root := ?_ }
  · intro a found fits _ before
    rw [mapped.finds, Outcome.done.injEq] at before
    rw [next.finds, lookup, before.1]
  · intro k _
    rw [data 0]
  · refine ⟨(d.inode 0).size, ?_⟩
    rw [Device.inode_putInode, if_neg (by omega)]

/-- A call that finds no inode leaves the map as it is. -/
theorem refused (b : Name) : Mapped ((b, -1) :: log) d ∧ Extends b d d := by
  constructor
  · refine ⟨mapped.rooted, mapped.directory, fun a fits => ?_⟩
    rw [mapped.made a fits, Made.cons]
    refine (or_iff_right_of_imp ?_).symm
    rintro ⟨impossible, -⟩
    cases impossible
  · exact ⟨fun a found _ _ before => before, fun _ _ => rfl, fun _ _ => rfl, ⟨_, rfl⟩⟩

/-- A new file gets the inode and an entry behind the others. -/
theorem entered {b : Name} (listable : b.Listable) {cnt : Nat} (dir : Directory d cnt) {i : UInt32}
    (bound : i.toNat < 64) (unused : (d.inode i.toNat).refs = 0) :
    Mapped ((b, 0) :: log) (d.fresh cnt b i) ∧ Extends b d (d.fresh cnt b i) := by
  have room := dir.not_full i.toNat bound unused
  have whole : b.str.take 11 = b.str := List.take_of_length_le listable.upper
  have lookup : ∀ a : Name, a.Listable → (d.fresh cnt b i).lookup a.str =
      (d.lookup a.str).or (if b.str = a.str then some i else none) := by
    intro a fits
    rw [dir.lookup_fresh unused bound a.str fits.proper.1, whole]
  have rooted : Rooted (d.fresh cnt b i) :=
    ((mapped.rooted.putData _ _).putInode _ _).putInode _ _
  have next : Mapped ((b, 0) :: log) (d.fresh cnt b i) := by
    refine ⟨rooted, ⟨cnt + 1, dir.directory_fresh unused bound listable.proper⟩, fun a fits => ?_⟩
    rw [lookup a fits, Made.cons, ← mapped.made a fits, Option.isSome_or]
    by_cases same : b.str = a.str
    · simp [same]
    · simp [same]
  refine ⟨next, ?_⟩
  refine { others := ?_, entries := ?_, data := ?_, root := ?_ }
  · intro a found fits differ before
    rw [mapped.finds, Outcome.done.injEq] at before
    rw [next.finds, lookup a fits, before.1, if_neg (Ne.symm differ), Option.or_none]
  · intro k inside
    rw [dir.size] at inside
    rw [Device.data_fresh _ _ _ _ bound, Device.data_addEntry, if_pos rfl, Buf.putWord,
      Buf.byte_blit_outside _ _ _ _ (by omega), Buf.byte_blit_outside _ _ _ _ (by omega)]
  · intro m other
    rw [Device.data_fresh _ _ _ _ bound, Device.data_addEntry, if_neg other]
  · have nonzero := dir.free_ne_zero unused
    refine ⟨(d.inode 0).size + 16, ?_⟩
    rw [Device.inode_fresh _ _ _ _ _ (by omega), if_neg (by omega), if_pos rfl]

/-- Whatever a call does to the map, it is a map afterwards and has grown at most. -/
theorem newFile {b : Name} (listable : b.Listable) : ∃ r d', Efs.newFile b d = .done r d' ∧
    Mapped ((b, r) :: log) d' ∧ Extends b d d' := by
  obtain ⟨cnt, dir⟩ := mapped.directory
  rcases newFile_outcomes mapped.rooted dir listable.proper with
    ⟨i, found, made⟩ | ⟨-, ⟨-, made⟩ | ⟨i, bound, unused, -, made⟩⟩
  · exact ⟨0, _, made, mapped.cut listable found⟩
  · exact ⟨-1, d, made, mapped.refused b⟩
  · exact ⟨0, _, made, mapped.entered listable dir bound unused⟩

end Mapped

theorem mapped_freshImage (blockCount : UInt32) {disk : Device} (room : 6 ≤ disk.count) :
    Mapped [] (freshImage blockCount disk) where
  rooted := rooted_freshImage room
  directory := ⟨1, directory_freshImage blockCount disk⟩
  made := by
    intro a listable
    have dir := directory_freshImage blockCount disk
    constructor
    · intro found
      obtain ⟨i, found⟩ := Option.isSome_iff_exists.mp found
      obtain ⟨e, lower, upper, -⟩ := dir.entry_of_lookup listable.proper found
      omega
    · rintro ⟨b, member, -⟩
      cases member

/-- After any `new_file` calls on a new image the directory is a map from the names made to
inode numbers of their own; a further call only adds to it, and none is added to 63. -/
theorem rootDirectory_map (blockCount : UInt32) {disk : Device} (room : 6 ≤ disk.count) :
    ∃ image, mkefs blockCount disk = .done 0 image ∧
      ∀ log d, Runs newFile (fun a _ => a.Listable) image log d → RootMap log d ∧
        ∀ a : Name, a.Listable → ∃ r d', newFile a d = .done r d' ∧ Extends a d d' := by
  refine ⟨freshImage blockCount disk, mkefs_done room, fun log d runs => ?_⟩
  have mapped : Mapped log d := by
    refine runs.invariant Mapped (mapped_freshImage blockCount room) ?_
    intro log d a r d' mapped listable run
    obtain ⟨r', d'', run', next, -⟩ := mapped.newFile listable
    rw [run', Outcome.done.injEq] at run
    obtain ⟨rfl, rfl⟩ := run
    exact next
  refine ⟨mapped.rootMap, fun a listable => ?_⟩
  obtain ⟨r, d', run, -, grown⟩ := mapped.newFile listable
  exact ⟨r, d', run, grown⟩

theorem rootDirectory_map_six : ∃ image, mkefs 6 ⟨6, fun _ => Buf.zero⟩ = .done 0 image ∧
    ∀ log d, Runs newFile (fun a _ => a.Listable) image log d → RootMap log d ∧
      ∀ a : Name, a.Listable → ∃ r d', newFile a d = .done r d' ∧ Extends a d d' :=
  rootDirectory_map 6 (by decide)

end Sos.Efs
