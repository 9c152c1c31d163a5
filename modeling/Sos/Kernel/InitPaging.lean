import Sos.Kernel.Reserve

/-! `init_paging` and the page walk from the kernel's directory. -/

namespace Sos.Kernel
open Sos.Lib Machine

/-- The entries of a page table from `j` on, `left` of them: the address after the last frame. -/
def identityTable (p : UInt32) : Nat → UInt32 → UInt32 → Prog Machine UInt32
  | 0, _, addr => return addr
  | left + 1, j, addr => do
    setFrameWord p j (frameToPteUser addr)
    identityTable p left (j + 1) (addr + frameLen)

/-- The page tables from `i` on, `left` of them; `false` when there is no frame for one. -/
def identityTables : Nat → UInt32 → UInt32 → Prog Machine Bool
  | 0, _, _ => return true
  | left + 1, i, addr => do
    let (error, p) ← memmanAllocFrame frameKern
    if error then return false
    else
      let addr ← identityTable p ptEntries.toNat 0 addr
      setFrameWord (← Prog.get Machine.kernPageDir) i (frameToPdeUser p)
      identityTables left (i + 1) addr

/-- `pdBase` is where the linker put the directory. -/
def initPaging (pdBase : UInt32) : Prog Machine Int := do
  Prog.modify fun s => { s with kernPageDir := pdBase }
  let pdes := (← Prog.get Machine.frameCount) / ptEntries
  bzero pdBase frameLen
  if ← identityTables pdes.toNat 0 0 then return retSuccess
  else return retFailure

/-- Entry `k` of a table or directory in frame `f`. -/
def frameEntry (m : Mem) (f k : Nat) : UInt32 := m.load (frameAddr f + 4 * UInt32.ofNat k)

/-- The kernel's own walk leads to each of its frames. -/
def MapsMemory (t : Machine) : Prop :=
  ∀ f, f < t.frameCount.toNat →
    (pageWalk t.mem t.kernPageDir (frameAddr f)).map Translation.frame = some (frameAddr f)

/-- Each page table in `tables` maps its four megabytes, and the directory leads to it, unless
the directory's own frame was taken for one of them. -/
structure IdentityMapped (dir : Nat) (tables : List Nat) (m : Mem) : Prop where
  table : ∀ k f, tables[k]? = some f → f ≠ dir → ∀ j, j < 1024 →
    frameEntry m f j = frameToPteUser (frameAddr (1024 * k + j))
  entry : ∀ k f, tables[k]? = some f → (∀ l, k < l → tables[l]? ≠ some dir) →
    frameEntry m dir k = frameToPdeUser (frameAddr f)
  absent : dir ∉ tables → ∀ k, tables.length ≤ k → k < 1024 → frameEntry m dir k = 0

theorem frameAddr_succ (n : Nat) : frameAddr n + frameLen = frameAddr (n + 1) := by
  unfold frameAddr
  rw [UInt32.ofNat_add, UInt32.add_mul]
  rfl

theorem entry_toNat {f k : Nat} (small : f < 1048576) (inside : k < 1024) :
    (frameAddr f + 4 * UInt32.ofNat k).toNat = 4096 * f + 4 * k := by
  have index : (UInt32.ofNat k).toNat = k := by
    rw [UInt32.toNat_ofNat']
    omega
  rw [frameWord_toNat small (by rw [index]; exact inside), index]

theorem frameEntry_store {f g j k : Nat} (smallF : f < 1048576) (smallG : g < 1048576) (insideJ : j < 1024)
    (insideK : k < 1024) (m : Mem) (v : UInt32) :
    frameEntry (m.store (frameAddr f + 4 * UInt32.ofNat j) v) g k =
      if g = f ∧ k = j then v else frameEntry m g k := by
  have placeF := entry_toNat smallF insideJ
  have placeG := entry_toNat smallG insideK
  unfold frameEntry
  rw [Mem.load_store v ((frameAddr_aligned f).add (Mem.aligned_four _)) ((frameAddr_aligned g).add (Mem.aligned_four _))]
  by_cases same : g = f ∧ k = j
  · rw [if_pos same, same.1, same.2, if_pos rfl]
  · rw [if_neg same, if_neg]
    intro equal
    rw [equal] at placeG
    omega

/-- One page table. -/
theorem identityTable_done {f : Nat} (small : f < 1048576) (left j n : Nat) (fits : j + left ≤ 1024)
    (s : Machine) : ∃ m,
      identityTable (frameAddr f) left (UInt32.ofNat j) (frameAddr n) s =
        .done (frameAddr (n + left)) (s.withMem m) ∧
      ∀ g k, g < 1048576 → k < 1024 → frameEntry m g k =
        if g = f ∧ j ≤ k ∧ k < j + left then frameToPteUser (frameAddr (n + (k - j)))
        else frameEntry s.mem g k := by
  induction left generalizing j n s with
  | zero =>
    refine ⟨s.mem, rfl, fun g k _ _ => ?_⟩
    rw [if_neg (by omega)]
  | succ left ih =>
    obtain ⟨m, run, entries⟩ := ih (j + 1) (n + 1) (by omega)
      (s.stored [(frameAddr f + 4 * UInt32.ofNat j, frameToPteUser (frameAddr n))])
    refine ⟨m, ?_, fun g k smallG inside => ?_⟩
    · rw [identityTable, Prog.bind_done _ (setFrameWord_done _ _ _ _), frameAddr_succ]
      rw [UInt32.ofNat_add] at run
      rw [show n + (left + 1) = n + 1 + left by omega]
      exact run
    · have first : frameEntry (s.stored [(frameAddr f + 4 * UInt32.ofNat j, frameToPteUser (frameAddr n))]).mem g k =
          if g = f ∧ k = j then frameToPteUser (frameAddr n) else frameEntry s.mem g k :=
        frameEntry_store small smallG (by omega) inside s.mem _
      rw [entries g k smallG inside, first]
      by_cases same : g = f
      · rcases Nat.lt_trichotomy k j with before | rfl | after
        · rw [if_neg (by omega), if_neg (by omega), if_neg (by omega)]
        · rw [if_neg (by omega), if_pos ⟨same, rfl⟩, if_pos (by omega), Nat.sub_self, Nat.add_zero]
        · by_cases last : k < j + (left + 1)
          · rw [if_pos (by omega), if_pos (by omega), show n + 1 + (k - (j + 1)) = n + (k - j) by omega]
          · rw [if_neg (by omega), if_neg (by omega), if_neg (by omega)]
      · rw [if_neg (fun h => same h.1), if_neg (fun h => same h.1), if_neg (fun h => same h.1)]

theorem getElem?_snoc {α : Type} {l : List α} {a b : α} {k : Nat} (at_ : (l ++ [a])[k]? = some b) :
    (k < l.length ∧ l[k]? = some b) ∨ k = l.length ∧ b = a := by
  rcases Nat.lt_trichotomy k l.length with early | rfl | late
  · rw [List.getElem?_append_left early] at at_
    exact Or.inl ⟨early, at_⟩
  · rw [List.getElem?_concat_length, Option.some.injEq] at at_
    exact Or.inr ⟨rfl, at_.symm⟩
  · have bound := (List.getElem?_eq_some_iff.mp at_).1
    rw [List.length_append, List.length_singleton] at bound
    omega

namespace IdentityMapped
variable {dir f : Nat} {tables : List Nat} {m m' : Mem}

/-- The next table, and its entry in the directory. -/
theorem next (mapped : IdentityMapped dir tables m) (fresh : f ∉ tables) (few : tables.length < 1024)
    (smallD : dir < 1048576) (smallF : f < 1048576) (small : ∀ g, g ∈ tables → g < 1048576)
    (entries : ∀ g k, g < 1048576 → k < 1024 → frameEntry m' g k =
      if g = dir ∧ k = tables.length then frameToPdeUser (frameAddr f)
      else if g = f then frameToPteUser (frameAddr (1024 * tables.length + k))
      else frameEntry m g k) : IdentityMapped dir (tables ++ [f]) m' where
  table := by
    intro k g at_ differ j inside
    rcases getElem?_snoc at_ with ⟨early, at_⟩ | ⟨rfl, rfl⟩
    · have member := List.mem_of_getElem? at_
      rw [entries g j (small g member) inside, if_neg (fun h => differ h.1),
        if_neg (by rintro rfl; exact fresh member)]
      exact mapped.table k g at_ differ j inside
    · rw [entries g j smallF inside, if_neg (fun h => differ h.1), if_pos rfl]
  entry := by
    intro k g at_ last
    rcases getElem?_snoc at_ with ⟨early, at_⟩ | ⟨rfl, rfl⟩
    · have differ : dir ≠ f := by
        rintro rfl
        exact last tables.length early (by simp)
      rw [entries dir k smallD (by omega), if_neg (by omega), if_neg differ]
      refine mapped.entry k g at_ fun l after at_l => last l after ?_
      rw [List.getElem?_append_left (List.getElem?_eq_some_iff.mp at_l).1, at_l]
    · rw [entries dir _ smallD few, if_pos ⟨rfl, rfl⟩]
  absent := by
    intro off k past inside
    rw [List.mem_append, List.mem_singleton, not_or] at off
    rw [List.length_append, List.length_singleton] at past
    rw [entries dir k smallD inside, if_neg (by omega), if_neg off.2]
    exact mapped.absent off.1 k (by omega) inside

end IdentityMapped

/-- One page table in the first free frame. -/
theorem identityTables_step {dir f n : Nat} {fs : List Nat} {s : Machine} (smallD : dir < 1048576)
    (page : s.kernPageDir = frameAddr dir) (few : n < 1024) (list : freeList s = f :: fs)
    (smallF : f < 1048576) (left : Nat) : ∃ u,
      identityTables (left + 1) (UInt32.ofNat n) (frameAddr (1024 * n)) s =
        identityTables left (UInt32.ofNat (n + 1)) (frameAddr (1024 * (n + 1))) u ∧
      u.kernPageDir = s.kernPageDir ∧ u.frameCount = s.frameCount ∧ freeList u = fs ∧
      ∀ g k, g < 1048576 → k < 1024 → frameEntry u.mem g k =
        if g = dir ∧ k = n then frameToPdeUser (frameAddr f)
        else if g = f then frameToPteUser (frameAddr (1024 * n + k)) else frameEntry s.mem g k := by
  rcases memmanAllocFrame_flags frameKern s with ⟨full, -⟩ | ⟨f', fs', list', first⟩
  · rw [list] at full
    cases full
  · rw [list, List.cons.injEq] at list'
    obtain ⟨rfl, rfl⟩ := list'
    obtain ⟨m, table, entries⟩ := identityTable_done smallF 1024 0 (1024 * n) (by omega)
      (s.taken f frameKern)
    have table' : identityTable (frameAddr f) ptEntries.toNat 0 (frameAddr (1024 * n))
        (s.taken f frameKern) = _ := table
    have page' : ((s.taken f frameKern).withMem m).kernPageDir = frameAddr dir := page
    refine ⟨((s.taken f frameKern).withMem m).stored
      [(frameAddr dir + 4 * UInt32.ofNat n, frameToPdeUser (frameAddr f))], ?_, rfl, rfl,
      freeList_taken list frameKern, fun g k smallG inside => ?_⟩
    · rw [identityTables, Prog.bind_done _ first]
      simp only [Bool.false_eq_true, if_false]
      rw [Prog.bind_done _ table', Prog.get_bind_run, page', Prog.bind_done _ (setFrameWord_done _ _ _ _),
        UInt32.ofNat_add]
      rfl
    · have store := frameEntry_store smallD smallG few inside m (frameToPdeUser (frameAddr f))
      refine store.trans ?_
      rw [entries g k smallG inside]
      refine if_congr Iff.rfl rfl ?_
      by_cases same : g = f
      · rw [if_pos ⟨same, by omega⟩, if_pos same, Nat.sub_zero]
      · rw [if_neg (fun h => same h.1), if_neg same]
        rfl

/-- All page tables: they take the first free frames. -/
theorem identityTables_done {dir left : Nat} {tables : List Nat} {s t : Machine} (smallD : dir < 1048576)
    (page : s.kernPageDir = frameAddr dir) (fits : tables.length + left ≤ 1024)
    (once : (tables ++ freeList s).Nodup) (small : ∀ g, g ∈ tables ++ freeList s → g < 1048576)
    (mapped : IdentityMapped dir tables s.mem)
    (run : identityTables left (UInt32.ofNat tables.length) (frameAddr (1024 * tables.length)) s =
      .done true t) : left ≤ (freeList s).length ∧ t.kernPageDir = s.kernPageDir ∧
      t.frameCount = s.frameCount ∧ IdentityMapped dir (tables ++ (freeList s).take left) t.mem := by
  induction left generalizing tables s with
  | zero =>
    rw [identityTables, Prog.pure_run, Outcome.done.injEq] at run
    obtain ⟨-, rfl⟩ := run
    rw [List.take_zero, List.append_nil]
    exact ⟨Nat.zero_le _, rfl, rfl, mapped⟩
  | succ left ih =>
    rcases memmanAllocFrame_flags frameKern s with ⟨-, first⟩ | ⟨f, fs, list, -⟩
    · rw [identityTables, Prog.bind_done _ first] at run
      cases run
    · have smallF := small f (by simp [list])
      have fresh : f ∉ tables := by
        intro member
        exact (List.nodup_append.mp once).2.2 f member f (by simp [list]) rfl
      have few : tables.length < 1024 := by omega
      obtain ⟨u, step, page', count', after, entries⟩ := identityTables_step smallD page few list smallF left
      have next := mapped.next fresh (by omega) smallD smallF
        (fun g member => small g (List.mem_append_left _ member)) entries
      have moved : tables ++ freeList s = (tables ++ [f]) ++ freeList u := by simp [list, after]
      have length : tables.length + 1 = (tables ++ [f]).length := by simp
      rw [step, length] at run
      rw [moved] at once small
      have fits' : (tables ++ [f]).length + left ≤ 1024 := by omega
      obtain ⟨enough, page'', count, mapped'⟩ := ih (page'.trans page) fits' once small next run
      rw [after] at enough mapped'
      rw [list, List.length_cons, List.take_succ_cons]
      rw [List.append_assoc, List.singleton_append] at mapped'
      exact ⟨by omega, page''.trans page', count.trans count', mapped'⟩

theorem identityTables_enough {dir left n : Nat} {s : Machine} (smallD : dir < 1048576)
    (page : s.kernPageDir = frameAddr dir) (fits : n + left ≤ 1024) (small : ∀ g, g ∈ freeList s → g < 1048576)
    (enough : left ≤ (freeList s).length) :
    ∃ t, identityTables left (UInt32.ofNat n) (frameAddr (1024 * n)) s = .done true t := by
  induction left generalizing n s with
  | zero => exact ⟨s, rfl⟩
  | succ left ih =>
    cases list : freeList s with
    | nil =>
      rw [list] at enough
      cases enough
    | cons f fs =>
      have few : n < 1024 := by omega
      obtain ⟨u, step, page', -, after, -⟩ := identityTables_step smallD page few list
        (small f (by simp [list])) left
      rw [list, List.length_cons] at enough
      rw [step]
      refine ih (page'.trans page) (by omega) ?_ (by rw [after]; omega)
      intro g member
      rw [after] at member
      exact small g (by simp [list, member])

/-- `bzero` of the directory. -/
theorem frameEntry_zero {dir k : Nat} (small : dir < 1048576) (inside : k < 1024) (m : Mem) :
    frameEntry (fill m (frameAddr dir) 0 4096) dir k = 0 := by
  have place := entry_toNat small inside
  have base := frameAddr_toNat small
  have cleared : ∀ x : UInt32, 4096 * dir ≤ x.toNat → x.toNat < 4096 * dir + 4096 →
      fill m (frameAddr dir) 0 4096 x = 0 := by
    intro x lower upper
    exact if_pos (Mem.sub_inside (by omega) (by omega))
  have same : frameEntry (fill m (frameAddr dir) 0 4096) dir k = frameEntry (fun _ => 0) dir k := by
    apply Mem.load_congr
    · omega
    · intro x lower upper
      exact cleared x (by omega) (by omega)
  rw [same]
  rfl

/-- After success the directory leads to the tables, which are in the first free frames. -/
theorem initPaging_done {dir : Nat} (smallD : dir < 1048576) {s t : Machine}
    (count : s.frameCount.toNat < 1048576) (run : initPaging (frameAddr dir) s = .done retSuccess t) :
    s.frameCount.toNat / 1024 ≤ (freeList s).length ∧ t.kernPageDir = frameAddr dir ∧
      t.frameCount = s.frameCount ∧
      IdentityMapped dir ((freeList s).take (s.frameCount.toNat / 1024)) t.mem := by
  have pdes : (s.frameCount / ptEntries).toNat = s.frameCount.toNat / 1024 := UInt32.toNat_div _ _
  unfold initPaging at run
  rw [Prog.modify_bind_run, Prog.get_bind_run] at run
  simp only [pdes] at run
  obtain ⟨_, u, zeroed, run⟩ := Prog.of_bind_done run
  obtain ⟨cleared, page, list, same⟩ : u.mem = fill s.mem (frameAddr dir) 0 4096 ∧
      u.kernPageDir = frameAddr dir ∧ freeList u = freeList s ∧ u.frameCount = s.frameCount := by
    cases zeroed
    exact ⟨rfl, rfl, rfl, rfl⟩
  obtain ⟨success, v, tables, run⟩ := Prog.of_bind_done run
  cases success with
  | false => cases run
  | true =>
    cases run
    have absent : dir ∉ ([] : List Nat) → ∀ k, 0 ≤ k → k < 1024 → frameEntry u.mem dir k = 0 := by
      intro _ k _ inside
      rw [cleared]
      exact frameEntry_zero smallD inside s.mem
    have clear : IdentityMapped dir [] u.mem :=
      ⟨fun k f at_ => (by simp at at_), fun k f at_ => (by simp at at_), absent⟩
    have fits : ([] : List Nat).length + s.frameCount.toNat / 1024 ≤ 1024 := by
      rw [List.length_nil]
      omega
    rw [← list]
    obtain ⟨enough, page', count', mapped⟩ := identityTables_done smallD page fits (freeList_nodup u)
      (fun g member => (mem_freeList member).1.trans (by rwa [same])) clear tables
    exact ⟨enough, page'.trans page, count'.trans same, mapped⟩

theorem initPaging_given {dir : Nat} (smallD : dir < 1048576) {s : Machine}
    (count : s.frameCount.toNat < 1048576) (enough : s.frameCount.toNat / 1024 ≤ (freeList s).length) :
    ∃ t, initPaging (frameAddr dir) s = .done retSuccess t := by
  have pdes : (s.frameCount / ptEntries).toNat = s.frameCount.toNat / 1024 := UInt32.toNat_div _ _
  obtain ⟨t, run⟩ := identityTables_enough (n := 0)
    (s := ({ s with kernPageDir := frameAddr dir } : Machine).withMem (fill s.mem (frameAddr dir) 0 4096))
    smallD rfl (by omega) (fun g member => (mem_freeList member).1.trans count) enough
  unfold initPaging
  rw [Prog.modify_bind_run, Prog.get_bind_run]
  simp only [pdes]
  refine ⟨t, Prog.bind_done _ rfl |>.trans ?_⟩
  exact Prog.bind_done _ run

end Sos.Kernel
