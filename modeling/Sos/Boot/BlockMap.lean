import Sos.Boot.Loaded
import Sos.Efs.Integrity
import Sos.Efs.Rootless

/-! The boot loader finds the blocks of a file where the library put them. -/

namespace Sos.Boot
open Sos.Lib Sos.Lib.Bytes Sos.Efs

theorem getBnum_ptr {L : Layout} {d : Device} {m : Mem} (f : Formatted d) (own : Owned d)
    (loaded : SuperblockLoaded L d m) {i k : Nat} (file : 1 ≤ i ∧ i < 64) (inside : k < d.blocks i) :
    ∃ m', getBnum L (sectors d) (UInt16.ofNat k) (readInode L (sectors d) (UInt16.ofNat i) m) =
      some ((d.ptr i k + 5).toUInt16, m') := by
  have small := own.size i file.1 file.2
  have hk : k < 257 := by
    unfold Device.blocks at inside
    omega
  obtain ⟨super, node⟩ := readInode_loaded f loaded file.2
  obtain ⟨ax, m', run, _, number⟩ := getBnum_loaded f super node hk own file
  exact ⟨m', by rw [run, number inside]⟩

/-- What `get_bnum` finds for block `k` of inode `i` is what `falloc_block` gave when the
last run for the file's name wrote that block. -/
def MapsLikeWriter (log : Log) (d : Device) (i : UInt32) (k : Nat) : Prop :=
  ∃ base job r v, latest log base = some (job, r) ∧
    (∀ stack, findFile (fileName stack base) d = .done (some i) d) ∧ r.blocks[k]? = some v ∧
    ∀ L m, SuperblockLoaded L d m → ∃ ax m', getBnum L (sectors d) (UInt16.ofNat k)
      (readInode L (sectors d) i.toUInt16 m) = some (ax, m') ∧ ax.toNat = v.toNat

theorem mapsLikeWriter {log : Log} {d : Device} (stored : Stored log d) {i : UInt32}
    (file : 1 ≤ i.toNat ∧ i.toNat < 64) {k : Nat} (inside : k < d.blocks i.toNat) :
    MapsLikeWriter log d i k := by
  have f := stored.sound.formatted
  have own := stored.sound.owned
  have nonempty : (d.inode i.toNat).size ≠ 0 := by
    intro zero
    rw [Device.blocks, zero] at inside
    simp at inside
  obtain ⟨base, ⟨job, r⟩, number, last, listed, same⟩ := stored.named _ file.1 file.2 nonempty
  rw [UInt32.toNat_inj.mp same] at listed
  have short := stored.short last
  obtain ⟨cnt, dir⟩ := stored.sound.directory
  rcases stored.current base job r last with ⟨_, missing⟩ | ⟨j, found, blocks, placed, _⟩
  · rw [missing] at listed
    cases listed
  · rw [found] at listed
    cases listed
    have written : k < r.blocks.length := by rwa [← blocks]
    have at_ : r.blocks[k]? = some r.blocks[k] := List.getElem?_eq_getElem written
    have value := placed k _ at_
    refine ⟨base, job, r, r.blocks[k], last, ?_, at_, ?_⟩
    · intro stack
      rw [findFile_done f.rooted dir, short.str stack, found]
    · intro L m loaded
      obtain ⟨m', run⟩ := getBnum_ptr f own loaded file inside
      have target : (d.ptr i.toNat k).toNat < d.dataCount :=
        own.inside (.slot i.toNat k) ⟨file.1, file.2, inside⟩
      have bound := f.dataCount
      rw [← UInt16.ofNat_uInt32ToNat]
      refine ⟨_, m', run, ?_⟩
      rw [value, UInt32.toNat_toUInt16, real_toNat f _ target]
      omega

/-- After any history, for every block of every file. -/
def MapAgrees (image : Device) : Prop :=
  ∀ log d, Histories image log d → ∀ i inode k, 1 ≤ i.toNat → i.toNat < 64 →
    getInode i d = .done (some inode) d → k < (inode.size.toNat + 1023) / 1024 →
    MapsLikeWriter log d i k

/-- The boot loader's block map is the writer's. An image too small for its root directory
is taken to end where `mkefs` was told. -/
theorem mkefs_mapAgrees {blockCount : UInt32} {disk image : Device}
    (upper : blockCount.toNat ≤ 3941) (fits : blockCount.toNat ≤ disk.count)
    (small : blockCount.toNat < 6 → disk.count = blockCount.toNat)
    (made : mkefs blockCount disk = .done 0 image) : MapAgrees image := by
  intro log d runs i inode k lower high read inside
  by_cases enough : 6 ≤ blockCount.toNat
  · rw [mkefs_done (by omega)] at made
    cases made
    have stored := (stored_freshImage enough upper fits).of_history runs
    rw [getInode_done stored.sound.formatted.rooted i high.le] at read
    cases read
    exact mapsLikeWriter stored ⟨lower, high⟩ inside
  · have rootless := mkefs_rootless (by omega) (small (by omega)) made
    rw [rootless.history runs] at read
    have empty := rootless.empty ⟨lower, high⟩ read
    rw [empty] at inside
    simp at inside

theorem mkefs_mapAgrees_floppy : ∃ image, mkefs 1440 floppy = .done 0 image ∧ MapAgrees image :=
  ⟨freshImage 1440 floppy, mkefs_done (by decide),
    mkefs_mapAgrees (by decide) (by decide) (by decide)
      (mkefs_done (by decide))⟩

end Sos.Boot
