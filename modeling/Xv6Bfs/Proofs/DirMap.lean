import Xv6Bfs.Proofs.Dir

/-!
# Directories are finite maps

A directory under any sequence of `dirlink` and of clearing entries, next to the map that
the calls are meant to keep: for each name the inode number of the last `dirlink` of it
that has not been cleared.
-/

namespace Xv6Bfs

open Function List Outcome Transition

def Fs.entries (sb : FsSuperblock) (fs : Fs) (dp : Fin NINODE) : List Dirent :=
  dirents ((fs.icache dp).toDinode.bytes (fs.content.image sb).data (fs.icache dp).size.toNat)

/-! ### Lists of entries -/

def HasEntry (es : List Dirent) (key : List (BitVec 8)) (k : ℕ) (de : Dirent) : Prop :=
  es[k]? = some de ∧ de.inum ≠ 0 ∧ nameKey de.name = key

def Distinct (es : List Dirent) : Prop :=
  ∀ key j k de de', HasEntry es key j de → HasEntry es key k de' → j = k

def dirMap (es : List Dirent) (key : List (BitVec 8)) : Option (BitVec 16) :=
  (es.find? (fun de => de.inum ≠ 0 ∧ nameKey de.name = key)).map Dirent.inum

section Entries

variable {es : List Dirent} {key name : List (BitVec 8)} {k : ℕ} {de : Dirent} {inum : BitVec 16}

lemma find?_matches (es : List Dirent) (name : List (BitVec 8)) :
    es.find? (·.Matches name) = es.find? (fun de => de.inum ≠ 0 ∧ nameKey de.name = nameKey name) := by
  congr 1
  funext de
  rw [decide_eq_decide, Dirent.matches_iff, eq_comm (a := nameKey name)]

lemma dirMap_eq_none_iff : dirMap es key = none ↔ ∀ k de, ¬ HasEntry es key k de := by
  rw [dirMap, Option.map_eq_none_iff, find?_eq_none]
  constructor
  · rintro h k de ⟨hget, hlive⟩
    exact h de (mem_of_getElem? hget) (by simpa using hlive)
  · intro h de hmem
    obtain ⟨k, hget⟩ := mem_iff_getElem?.mp hmem
    have := h k de
    simp only [HasEntry, hget, true_and] at this
    simpa using this

lemma hasEntry_of_find (h : es.find? (·.Matches name) = some de) :
    HasEntry es (nameKey name) (es.findIdx (·.Matches name)) de := by
  have hmatch := find?_some h
  rw [decide_eq_true_eq, Dirent.matches_iff] at hmatch
  refine ⟨?_, hmatch.1, hmatch.2.symm⟩
  rw [← h]
  exact find?_eq_getElem?_findIdx.symm

lemma dirMap_of_hasEntry (hdist : Distinct es) (h : HasEntry es key k de) : dirMap es key = some de.inum := by
  cases hfind : es.find? (fun de => de.inum ≠ 0 ∧ nameKey de.name = key) with
  | none =>
    exact absurd h (dirMap_eq_none_iff.mp (by rw [dirMap, hfind]; rfl) k de)
  | some de' =>
    have hlive := find?_some hfind
    obtain ⟨j, hget⟩ := mem_iff_getElem?.mp (mem_of_find?_eq_some hfind)
    have hj : HasEntry es key j de' := ⟨hget, by simpa using hlive⟩
    obtain rfl := hdist key j k de' de hj h
    rw [h.1, Option.some.injEq] at hget
    rw [dirMap, hfind, hget]
    rfl

lemma hasEntry_putEntry (hk : k ≤ es.length) {de' : Dirent} {j : ℕ} :
    HasEntry (putEntry es k de) key j de' ↔
      if j = k then de' = de ∧ de.inum ≠ 0 ∧ nameKey de.name = key else HasEntry es key j de' := by
  unfold HasEntry
  rw [getElem?_putEntry hk]
  by_cases hj : j = k
  · rw [if_pos hj, if_pos hj, Option.some.injEq]
    constructor
    · rintro ⟨rfl, h⟩
      exact ⟨rfl, h⟩
    · rintro ⟨rfl, h⟩
      exact ⟨rfl, h⟩
  · rw [if_neg hj, if_neg hj]

lemma distinct_putEntry (de : Dirent) (hdist : Distinct es) (hk : k ≤ es.length)
    (hnew : de.inum ≠ 0 → ∀ j de', j ≠ k → ¬ HasEntry es (nameKey de.name) j de') :
    Distinct (putEntry es k de) := by
  intro key i j e e' hi hj
  rw [hasEntry_putEntry hk] at hi hj
  by_cases hik : i = k <;> by_cases hjk : j = k
  · rw [hik, hjk]
  · rw [if_pos hik] at hi
    rw [if_neg hjk, ← hi.2.2] at hj
    exact absurd hj (hnew hi.2.1 j e' hjk)
  · rw [if_pos hjk] at hj
    rw [if_neg hik, ← hj.2.2] at hi
    exact absurd hi (hnew hj.2.1 i e hik)
  · rw [if_neg hik] at hi
    rw [if_neg hjk] at hj
    exact hdist key i j e e' hi hj

lemma dirMap_congr {es' : List Dirent} (hdist : Distinct es) (hdist' : Distinct es')
    (h : ∀ j de, HasEntry es' key j de ↔ HasEntry es key j de) : dirMap es' key = dirMap es key := by
  by_cases hex : ∃ j de, HasEntry es key j de
  · obtain ⟨j, de, hj⟩ := hex
    rw [dirMap_of_hasEntry hdist hj, dirMap_of_hasEntry hdist' ((h j de).mpr hj)]
  · push Not at hex
    rw [dirMap_eq_none_iff.mpr hex, dirMap_eq_none_iff]
    intro j de hj
    exact hex j de ((h j de).mp hj)

lemma dirMap_link (hdist : Distinct es) (hk : k ≤ es.length)
    (hfree : ∀ key de', ¬ HasEntry es key k de') (hlive : de.inum ≠ 0)
    (hnew : ∀ j de', ¬ HasEntry es (nameKey de.name) j de') :
    Distinct (putEntry es k de) ∧
      dirMap (putEntry es k de) = update (dirMap es) (nameKey de.name) (some de.inum) := by
  have hdist' := distinct_putEntry de hdist hk (fun _ j de' _ => hnew j de')
  refine ⟨hdist', ?_⟩
  funext key
  by_cases hkey : key = nameKey de.name
  · subst hkey
    rw [update_self]
    exact dirMap_of_hasEntry hdist' ((hasEntry_putEntry hk).mpr (by rw [if_pos rfl]; exact ⟨rfl, hlive, rfl⟩))
  · rw [update_of_ne hkey]
    apply dirMap_congr hdist hdist'
    intro j de'
    rw [hasEntry_putEntry hk]
    split
    · rename_i hj
      subst hj
      exact ⟨fun h => absurd h.2.2.symm hkey, fun h => absurd h (hfree key de')⟩
    · rfl

lemma dirMap_clear {old : Dirent} (hdist : Distinct es) (hget : es[k]? = some old)
    (hzero : de.inum = 0) :
    Distinct (putEntry es k de) ∧ dirMap (putEntry es k de) =
        if old.inum = 0 then dirMap es else update (dirMap es) (nameKey old.name) none := by
  have hk : k ≤ es.length := (List.getElem?_eq_some_iff.mp hget).1.le
  have hdist' := distinct_putEntry de hdist hk (fun h => absurd hzero h)
  have hiff : ∀ key j de', HasEntry (putEntry es k de) key j de' ↔ j ≠ k ∧ HasEntry es key j de' := by
    intro key j de'
    rw [hasEntry_putEntry hk]
    by_cases hj : j = k <;> simp [hj, hzero]
  refine ⟨hdist', ?_⟩
  funext key
  by_cases hold : HasEntry es key k old
  · rw [if_neg hold.2.1, hold.2.2, update_self, dirMap_eq_none_iff]
    intro j e hj
    rw [hiff] at hj
    exact hj.1 (hdist key j k e old hj.2 hold)
  · have hkept : dirMap (putEntry es k de) key = dirMap es key := by
      apply dirMap_congr hdist hdist'
      intro j e
      rw [hiff, and_iff_right_iff_imp]
      rintro hj rfl
      have heq := hj.1.symm.trans hget
      rw [Option.some.injEq] at heq
      exact hold (heq ▸ hj)
    rw [hkept]
    split
    · rfl
    · rename_i hlive
      rw [update_of_ne]
      rintro rfl
      exact hold ⟨hget, hlive, rfl⟩

def freeEntry (es : List Dirent) : ℕ :=
  es.findIdx (·.inum = 0)

lemma freeEntry_le (es : List Dirent) : freeEntry es ≤ es.length :=
  findIdx_le_length

lemma inum_freeEntry (h : es[freeEntry es]? = some de) : de.inum = 0 := by
  obtain ⟨hlt, rfl⟩ := List.getElem?_eq_some_iff.mp h
  have hzero := findIdx_getElem (p := fun de : Dirent => decide (de.inum = 0)) (w := hlt)
  exact of_decide_eq_true hzero

lemma not_hasEntry_freeEntry : ¬ HasEntry es key (freeEntry es) de := by
  intro h
  exact h.2.1 (inum_freeEntry h.1)

end Entries

/-! ### The operations -/

section Operations

variable {sb : FsSuperblock} {devsw : Devsw} {fs fs' : Fs} {dp : Fin NINODE} {es : List Dirent}
  {ip : Fin NINODE}

lemma iget_cases {inum : ℕ} (h : fs.iget inum = .ok (ip, fs')) :
    (0 < (fs.icache ip).ref ∧ (fs.icache ip).inum = inum ∧ fs' = fs.idup ip) ∨ ((fs.icache ip).ref = 0 ∧
        fs' = fs.setInode ip { fs.icache ip with inum := inum, ref := 1, valid := false }) := by
  unfold Fs.iget at h
  split at h
  · rename_i jp hfind
    have hjp := find?_some hfind
    rw [Bool.and_eq_true, decide_eq_true_eq, decide_eq_true_eq] at hjp
    cases h
    exact .inl ⟨hjp.1, hjp.2, rfl⟩
  · split at h
    · rename_i jp hfind
      have hjp := find?_some hfind
      rw [decide_eq_true_eq] at hjp
      cases h
      exact .inr ⟨hjp, rfl⟩
    · cases h

lemma exists_iget (hslot : ∃ ip, (fs.icache ip).ref = 0) (inum : ℕ) : ∃ ip fs', fs.iget inum = .ok (ip, fs') := by
  obtain ⟨jp, hjp⟩ := hslot
  unfold Fs.iget
  split
  · exact ⟨_, _, rfl⟩
  · split
    · exact ⟨_, _, rfl⟩
    · rename_i hnone
      rw [find?_eq_none] at hnone
      exact absurd (decide_eq_true hjp) (hnone jp (mem_finRange jp))

lemma iget_frame {inum : ℕ} (h : fs.iget inum = .ok (ip, fs')) :
    (fs'.icache ip).inum = inum ∧ fs'.content = fs.content ∧
      ∀ jp, 0 < (fs.icache jp).ref → (fs'.icache jp).toDinode = (fs.icache jp).toDinode := by
  rcases iget_cases h with ⟨-, hinum, rfl⟩ | ⟨href, rfl⟩
  · refine ⟨by simpa [Fs.idup, Fs.setInode] using hinum, rfl, ?_⟩
    intro jp _
    by_cases hjp : jp = ip
    · subst hjp
      simp [Fs.idup, Fs.setInode]
    · simp [Fs.idup, Fs.setInode, hjp]
  · refine ⟨by simp [Fs.setInode], rfl, ?_⟩
    intro jp hjp
    have hne : jp ≠ ip := by
      rintro rfl
      omega
    simp [Fs.setInode, hne]

lemma exists_iput_of_iget (hinv : FsInv sb fs) {inum : ℕ} (h : fs.iget inum = .ok (ip, fs')) :
    ∃ fs'', fs'.iput sb ip = .ok fs'' ∧ FsInv sb fs'' ∧ fs''.content = fs.content ∧
      ∀ jp, 0 < (fs.icache jp).ref → fs''.icache jp = fs.icache jp := by
  rcases iget_cases h with ⟨href, -, rfl⟩ | ⟨href, rfl⟩
  · refine ⟨fs, ?_, hinv, rfl, fun _ _ => rfl⟩
    unfold Fs.iput
    dsimp only
    rw [if_neg (by simp [Fs.idup, Fs.setInode]; omega)]
    simp [Fs.idup, Fs.setInode]
  · refine ⟨fs.setInode ip { fs.icache ip with inum := inum, ref := 0, valid := false }, ?_, ?_, rfl, ?_⟩
    · unfold Fs.iput
      dsimp only
      rw [if_neg (by simp [Fs.setInode])]
      simp [Fs.setInode]
    · refine hinv.setInode ?_ ?_ ?_ ?_
      · exact fun h => absurd h (Nat.lt_irrefl 0)
      · exact fun h => absurd h (Nat.lt_irrefl 0)
      · exact fun h => absurd h (Nat.lt_irrefl 0)
      · intro hlock
        have := (hinv.locked ip hlock).1
        omega
    · intro jp hjp
      have hne : jp ≠ ip := by
        rintro rfl
        omega
      simp [Fs.setInode, hne]

namespace IsDir

lemma of_eq (h : IsDir sb fs dp es) (hinv : FsInv sb fs') (hcontent : fs'.content = fs.content)
    (hdp : fs'.icache dp = fs.icache dp) : IsDir sb fs' dp es := by
  refine ⟨hinv, ?_, ?_, ?_, ?_⟩ <;> rw [hdp]
  · exact h.lock
  · exact h.type
  · exact h.size
  · rw [hcontent]
    exact h.entries

/-- The name is there: `dirlink` fails and changes nothing in the directory. It can fail to
return if the inode that it finds is locked, or if there is no slot for it. -/
lemma dirlink_found (h : IsDir sb fs dp es) {name : List (BitVec 8)} {de : Dirent}
    (hfind : es.find? (·.Matches name) = some de) (inum : BitVec 16) :
    Spec (fs.dirlink sb devsw dp name inum)
      (fun r => r.2.entries sb dp = es ∧ (r.1 = some (-1) ∧ IsDir sb r.2 dp es ∨
          r.1 = none ∧ ∃ ip, (r.2.icache ip).inum = de.inum.toNat ∧ (r.2.icache ip).lock ≠ none))
      (fun e => e = .igetNoInodes) := by
  unfold Fs.dirlink
  rw [h.dirlookup_eq, hfind]
  dsimp only
  cases hget : fs.iget de.inum.toNat with
  | error e =>
    have hspec : Spec (fs.iget de.inum.toNat) (fun _ => True) (fun e => e = .igetNoInodes) := by
      unfold Fs.iget
      split
      · trivial
      · split
        · trivial
        · rfl
    exact hspec.of_error hget
  | ok r =>
    obtain ⟨ip, fs'⟩ := r
    simp only [Except.map, bind, Except.bind]
    split
    · rename_i hlock
      obtain ⟨hinum, hcontent, hslot⟩ := iget_frame hget
      refine ⟨?_, .inr ⟨rfl, ip, hinum, hlock⟩⟩
      rw [Fs.entries, hcontent, hslot dp h.inode.1]
      exact h.entries
    · obtain ⟨fs'', hput, hinv, hcontent, hslots⟩ := exists_iput_of_iget h.inv hget
      rw [hput]
      have hdir := h.of_eq hinv hcontent (hslots dp h.inode.1)
      exact ⟨hdir.entries, .inl ⟨rfl, hdir⟩⟩

lemma linkEntry (h : IsDir sb fs dp es) (hmax : 16 * es.length < MAXFILE * BSIZE) (name : List (BitVec 8))
    (inum : BitVec 16) :
    Spec (fs.linkEntry sb devsw dp name inum)
      (fun fs' => IsDir sb fs' dp (putEntry es (freeEntry es) ⟨inum, strncpy name DIRSIZ⟩))
      (fun e => e = .ballocOutOfBlocks) := by
  have hle := freeEntry_le es
  have hroom : 16 * freeEntry es + 16 ≤ MAXFILE * BSIZE := by
    have hmul : MAXFILE * BSIZE = 16 * 4480 := by decide
    omega
  have hlen : (Dirent.mk inum (strncpy name DIRSIZ)).bytes.length = 16 := by
    rw [Dirent.length_bytes, length_strncpy]
    rfl
  unfold Fs.linkEntry
  dsimp only
  rw [h.scan]
  simp only [bind, Except.bind, FsInv.setDinode_self]
  have hwrite := h.writei devsw hle hlen hroom
  unfold freeEntry at hwrite
  refine Spec.bind hwrite ?_
  rintro ⟨r, fs'⟩ ⟨hr, hdir, -⟩
  rw [Dirent.ofBytes_bytes] at hdir
  dsimp only at hr ⊢
  rw [if_neg (by rw [hr]; simp)]
  exact hdir

lemma dirlink_new (h : IsDir sb fs dp es) {name : List (BitVec 8)}
    (hfind : es.find? (·.Matches name) = none) (hmax : 16 * es.length < MAXFILE * BSIZE) (inum : BitVec 16) :
    Spec (fs.dirlink sb devsw dp name inum)
      (fun r => r.1 = some 0 ∧ IsDir sb r.2 dp (putEntry es (freeEntry es) ⟨inum, strncpy name DIRSIZ⟩))
      (fun e => e = .ballocOutOfBlocks) := by
  unfold Fs.dirlink
  rw [h.dirlookup_eq, hfind]
  change Spec (fs.linkEntry sb devsw dp name inum >>= fun fs' => .ok (some 0, fs')) _ _
  refine Spec.bind (h.linkEntry hmax name inum) ?_
  intro fs' hdir
  exact ⟨rfl, hdir⟩

lemma clearEntry (h : IsDir sb fs dp es) {k : ℕ} (hk : k < es.length) :
    Spec (fs.clearEntry sb devsw dp (16 * k))
      (fun r => IsDir sb r dp (putEntry es k (Dirent.ofBytes (List.replicate 16 0))))
      (fun e => e = .ballocOutOfBlocks) := by
  have hsize := h.size
  have hmax : (fs.icache dp).size.toNat ≤ MAXFILE * BSIZE := by
    have hholes := h.inv.wellFormed.noHoles (fs.icache dp).inum
    rw [h.inode.2] at hholes
    exact (hholes h.isFile).size_le
  unfold Fs.clearEntry
  refine Spec.bind (h.writei devsw hk.le (length_replicate) (by omega)) ?_
  rintro ⟨r, fs'⟩ ⟨hr, hdir, -⟩
  dsimp only at hr ⊢
  rw [if_neg (by rw [hr]; simp)]
  exact hdir

end IsDir

end Operations

/-! ### Runs -/

/-- The entries after a new one is stored: in the first unused place, and past the end only if
there is none. -/
structure Linked (es es' : List Dirent) (name : List (BitVec 8)) (inum : BitVec 16) : Prop where
  stored : es'[freeEntry es]? = some ⟨inum, strncpy name DIRSIZ⟩
  unused : ∀ de, es[freeEntry es]? = some de → de.inum = 0
  others : ∀ j, j ≠ freeEntry es → es'[j]? = es[j]?
  reuse : (∃ de ∈ es, de.inum = 0) → es'.length = es.length
  grow : (∀ de ∈ es, de.inum ≠ 0) → freeEntry es = es.length ∧ es'.length = es.length + 1

structure Cleared (es es' : List Dirent) (k : ℕ) : Prop where
  cleared : ∃ de, es'[k]? = some de ∧ de.inum = 0
  others : ∀ j, j ≠ k → es'[j]? = es[j]?
  length : es'.length = es.length

section Effects

variable {es : List Dirent}

lemma length_putEntry {k : ℕ} (hk : k ≤ es.length) (de : Dirent) :
    (putEntry es k de).length = max es.length (k + 1) := by
  rw [putEntry, List.length_splice hk, length_singleton]

lemma linked_putEntry (es : List Dirent) (name : List (BitVec 8)) (inum : BitVec 16) :
    Linked es (putEntry es (freeEntry es) ⟨inum, strncpy name DIRSIZ⟩) name inum := by
  have hle := freeEntry_le es
  refine ⟨?_, ?_, ?_, ?_, ?_⟩
  · rw [getElem?_putEntry hle, if_pos rfl]
  · intro de
    exact inum_freeEntry
  · intro j hj
    rw [getElem?_putEntry hle, if_neg hj]
  · rintro ⟨de, hmem, hzero⟩
    have hlt : freeEntry es < es.length := findIdx_lt_length_of_exists ⟨de, hmem, by simpa using hzero⟩
    rw [length_putEntry hle]
    omega
  · intro hlive
    have heq : freeEntry es = es.length := findIdx_eq_length_of_false (by simpa using hlive)
    rw [length_putEntry hle, heq]
    omega

lemma cleared_putEntry {k : ℕ} (hk : k < es.length) {de : Dirent} (hzero : de.inum = 0) :
    Cleared es (putEntry es k de) k := by
  refine ⟨⟨de, ?_, hzero⟩, ?_, ?_⟩
  · rw [getElem?_putEntry hk.le, if_pos rfl]
  · intro j hj
    rw [getElem?_putEntry hk.le, if_neg hj]
  · rw [length_putEntry hk.le]
    omega

end Effects

/-- The file system, and for each name what the last `dirlink` has stored and nobody has
cleared. -/
structure DirState where
  fs : Fs
  links : List (BitVec 8) → Option (BitVec 16)

inductive DirEvent
  | dirlink (name : List (BitVec 8)) (inum : BitVec 16)
  | clearEntry (k : ℕ)

namespace DirState

variable (sb : FsSuperblock) (devsw : Devsw) (dp : Fin NINODE)

def step (s : DirState) : DirEvent → Option DirState
  | .dirlink name inum =>
    if inum ≠ 0 ∧ (s.fs.icache dp).size.toNat < MAXFILE * BSIZE then
      match s.fs.dirlink sb devsw dp name inum with
      | .ok (some r, fs) =>
        some ⟨fs, if r = 0 then update s.links (nameKey name) (some inum) else s.links⟩
      | _ => none
    else none
  | .clearEntry k =>
    match (s.fs.entries sb dp)[k]?, s.fs.clearEntry sb devsw dp (16 * k) with
    | some de, .ok fs =>
      some ⟨fs, if de.inum = 0 then s.links else update s.links (nameKey de.name) none⟩
    | _, _ => none

/-- The directory on disk has the entries that the map has. -/
structure Agrees (s : DirState) (es : List Dirent) : Prop where
  dir : IsDir sb s.fs dp es
  distinct : Distinct es
  links : s.links = dirMap es

end DirState

def dirSystem (sb : FsSuperblock) (devsw : Devsw) (dp : Fin NINODE) : System DirState DirEvent where
  init := fun s => ∃ es, s.Agrees sb dp es
  step := fun e s => s.step sb devsw dp e

section Runs

variable {sb : FsSuperblock} {devsw : Devsw} {dp : Fin NINODE} {s s' : DirState} {es : List Dirent}

namespace DirState

lemma Agrees.find?_eq_none_iff (h : s.Agrees sb dp es) (name : List (BitVec 8)) :
    s.links (nameKey name) = none ↔ es.find? (·.Matches name) = none := by
  rw [h.links, dirMap, find?_matches, Option.map_eq_none_iff]

lemma Agrees.dirlink (h : s.Agrees sb dp es) {name : List (BitVec 8)} {inum : BitVec 16} (hinum : inum ≠ 0)
    {fs : Fs} (hfind : es.find? (·.Matches name) = none)
    (hdir : IsDir sb fs dp (putEntry es (freeEntry es) ⟨inum, strncpy name DIRSIZ⟩)) :
    Agrees sb dp ⟨fs, update s.links (nameKey name) (some inum)⟩
      (putEntry es (freeEntry es) ⟨inum, strncpy name DIRSIZ⟩) := by
  have hnew : ∀ j de', ¬ HasEntry es (nameKey (Dirent.mk inum (strncpy name DIRSIZ)).name) j de' := by
    rw [nameKey_strncpy, ← dirMap_eq_none_iff, ← h.links, h.find?_eq_none_iff]
    exact hfind
  obtain ⟨hdist, hmap⟩ := dirMap_link h.distinct (freeEntry_le es) (fun _ _ => not_hasEntry_freeEntry) hinum hnew
  refine ⟨hdir, hdist, ?_⟩
  rw [hmap, nameKey_strncpy, h.links]

lemma Agrees.clearEntry (h : s.Agrees sb dp es) {k : ℕ} {de zero : Dirent} {fs : Fs} (hget : es[k]? = some de)
    (hzero : zero.inum = 0) (hdir : IsDir sb fs dp (putEntry es k zero)) :
    Agrees sb dp ⟨fs, if de.inum = 0 then s.links else update s.links (nameKey de.name) none⟩
      (putEntry es k zero) := by
  obtain ⟨hdist, hmap⟩ := dirMap_clear h.distinct hget hzero
  refine ⟨hdir, hdist, ?_⟩
  rw [hmap, h.links]

/-- The map follows each change of the directory. -/
lemma Agrees.step (h : s.Agrees sb dp es) {e : DirEvent} (hstep : s.step sb devsw dp e = some s') :
    ∃ es', s'.Agrees sb dp es' := by
  cases e with
  | dirlink name inum =>
    unfold DirState.step at hstep
    dsimp only at hstep
    split at hstep
    case isFalse => cases hstep
    rename_i hcond
    obtain ⟨hinum, hmax⟩ := hcond
    split at hstep
    case h_2 => cases hstep
    rename_i r fs hcall
    cases hstep
    rw [h.dir.size] at hmax
    cases hfind : es.find? (·.Matches name) with
    | none =>
      obtain ⟨hr, hdir⟩ := (h.dir.dirlink_new hfind hmax inum).of_ok hcall
      cases hr
      rw [if_pos rfl]
      exact ⟨_, h.dirlink hinum hfind hdir⟩
    | some de =>
      rcases ((h.dir.dirlink_found hfind inum).of_ok hcall).2 with ⟨hr, hdir⟩ | ⟨hr, -⟩
      · cases hr
        rw [if_neg (by decide)]
        exact ⟨es, hdir, h.distinct, h.links⟩
      · cases hr
  | clearEntry k =>
    unfold DirState.step at hstep
    dsimp only at hstep
    split at hstep
    case h_2 => cases hstep
    rename_i de fs hget hcall
    cases hstep
    rw [Fs.entries, h.dir.entries] at hget
    have hk := (List.getElem?_eq_some_iff.mp hget).1
    exact ⟨_, h.clearEntry hget rfl ((h.dir.clearEntry hk).of_ok hcall)⟩

lemma agrees_of_reachable (hs : Reachable (dirSystem sb devsw dp) s) :
    s.Agrees sb dp (s.fs.entries sb dp) := by
  have hinv : ∃ es, s.Agrees sb dp es := by
    apply Reach.invariant _ (fun s h => h) _ hs
    rintro s e s' ⟨es, h⟩ - hstep
    exact h.step hstep
  obtain ⟨es, h⟩ := hinv
  obtain rfl := h.dir.entries
  exact h

lemma Agrees.dirlookup (h : s.Agrees sb dp es) (name : List (BitVec 8)) :
    match s.links (nameKey name) with
    | none => s.fs.dirlookup sb devsw dp name = .ok (none, s.fs)
    | some inum => ∃ k de, es[k]? = some de ∧ de.inum = inum ∧ inum ≠ 0 ∧ namecmp name de.name = 0 ∧
        s.fs.dirlookup sb devsw dp name =
          (s.fs.iget inum.toNat).map (fun r => (some (r.1, 16 * k), r.2)) := by
  rw [h.dir.dirlookup_eq, h.links, dirMap, ← find?_matches]
  cases hfind : es.find? (·.Matches name) with
  | none => rfl
  | some de =>
    obtain ⟨hget, hlive, hkey⟩ := hasEntry_of_find hfind
    exact ⟨_, de, hget, rfl, hlive, by rw [namecmp_eq_zero_iff, hkey], rfl⟩

lemma Agrees.dirlink_spec (h : s.Agrees sb dp es) (name : List (BitVec 8)) (inum : BitVec 16)
    (hmax : (s.fs.icache dp).size.toNat < MAXFILE * BSIZE) :
    Spec (s.fs.dirlink sb devsw dp name inum)
      (fun r => (r.1 = some 0 ↔ s.links (nameKey name) = none) ∧
        (r.1 = some 0 → Linked es (r.2.entries sb dp) name inum) ∧
        (r.1 ≠ some 0 → r.2.entries sb dp = es ∧ (r.1 = some (-1) ∨ r.1 = none ∧ ∃ ip i,
          s.links (nameKey name) = some i ∧ (r.2.icache ip).inum = i.toNat ∧ (r.2.icache ip).lock ≠ none)))
      (fun e => e = .ballocOutOfBlocks ∧ s.links (nameKey name) = none ∨
        e = .igetNoInodes ∧ s.links (nameKey name) ≠ none) := by
  rw [h.dir.size] at hmax
  cases hfind : es.find? (·.Matches name) with
  | none =>
    have hnone := (h.find?_eq_none_iff name).mpr hfind
    refine (h.dir.dirlink_new hfind hmax inum).mono ?_ ?_
    · rintro ⟨r, fs⟩ ⟨hr, hdir⟩
      dsimp only at hr hdir ⊢
      have hentries : fs.entries sb dp = _ := hdir.entries
      rw [hentries, hr]
      exact ⟨by simp [hnone], fun _ => linked_putEntry es name inum, fun hne => absurd rfl hne⟩
    · rintro e rfl
      exact .inl ⟨rfl, hnone⟩
  | some de =>
    have hsome : s.links (nameKey name) = some de.inum := by
      rw [h.links, dirMap, ← find?_matches, hfind]
      rfl
    refine (h.dir.dirlink_found hfind inum).mono ?_ ?_
    · rintro ⟨r, fs⟩ ⟨hentries, hr⟩
      dsimp only at hr hentries ⊢
      rcases hr with ⟨rfl, -⟩ | ⟨rfl, ip, hip⟩
      · exact ⟨by simp [hsome], by simp, fun _ => ⟨hentries, .inl rfl⟩⟩
      · exact ⟨by simp [hsome], by simp, fun _ => ⟨hentries, .inr ⟨rfl, ip, de.inum, hsome, hip⟩⟩⟩
    · rintro e rfl
      exact .inr ⟨rfl, by simp [hsome]⟩

end DirState

/-- After any `dirlink`s and clearings the live names are distinct, `dirlookup` returns what the
last `dirlink` of the name that has not been cleared has stored and its offset, and `dirlink`
fails if there is one (it does not return while the inode it finds is locked); a new entry takes
the first unused place, and no other entry is changed. -/
theorem directory_is_finite_map (hs : Reachable (dirSystem sb devsw dp) s) :
    (∀ (j k : ℕ) (de de' : Dirent), (s.fs.entries sb dp)[j]? = some de → (s.fs.entries sb dp)[k]? = some de' →
      de.inum ≠ 0 → de'.inum ≠ 0 → namecmp de.name de'.name = 0 → j = k) ∧
    (∀ name, match s.links (nameKey name) with
      | none => s.fs.dirlookup sb devsw dp name = .ok (none, s.fs)
      | some inum => ∃ k de, (s.fs.entries sb dp)[k]? = some de ∧ de.inum = inum ∧ inum ≠ 0 ∧
          namecmp name de.name = 0 ∧ s.fs.dirlookup sb devsw dp name =
            (s.fs.iget inum.toNat).map (fun r => (some (r.1, 16 * k), r.2))) ∧
    (∀ name inum, inum ≠ 0 → (s.fs.icache dp).size.toNat < MAXFILE * BSIZE →
      Spec (s.fs.dirlink sb devsw dp name inum)
        (fun r => (r.1 = some 0 ↔ s.links (nameKey name) = none) ∧
          (r.1 = some 0 → Linked (s.fs.entries sb dp) (r.2.entries sb dp) name inum) ∧
          (r.1 ≠ some 0 → r.2.entries sb dp = s.fs.entries sb dp ∧ (r.1 = some (-1) ∨ r.1 = none ∧ ∃ ip i,
            s.links (nameKey name) = some i ∧ (r.2.icache ip).inum = i.toNat ∧ (r.2.icache ip).lock ≠ none)))
        (fun e => e = .ballocOutOfBlocks ∧ s.links (nameKey name) = none ∨
          e = .igetNoInodes ∧ s.links (nameKey name) ≠ none)) ∧
    (∀ k < (s.fs.entries sb dp).length, Spec (s.fs.clearEntry sb devsw dp (16 * k))
      (fun fs' => Cleared (s.fs.entries sb dp) (fs'.entries sb dp) k)
      (fun e => e = .ballocOutOfBlocks)) := by
  have h := DirState.agrees_of_reachable hs
  refine ⟨?_, h.dirlookup, fun name inum _ => h.dirlink_spec name inum, ?_⟩
  · intro j k de de' hj hk hde hde' hcmp
    rw [namecmp_eq_zero_iff] at hcmp
    exact h.distinct _ j k de de' ⟨hj, hde, hcmp⟩ ⟨hk, hde', rfl⟩
  · intro k hk
    refine (h.dir.clearEntry hk).imp ?_
    intro fs' hdir
    have hentries : fs'.entries sb dp = _ := hdir.entries
    rw [hentries]
    exact cleared_putEntry hk rfl

/-- Two names are stored and the first is cleared. -/
theorem directory_is_finite_map_cleared :
    ∃ s, Reachable (dirSystem smallSuperblock ⟨fun _ => none, fun _ => none⟩ 0) s ∧ s.links [98] = some 2 ∧
      s.fs.dirlookup smallSuperblock ⟨fun _ => none, fun _ => none⟩ 0 [97] = .ok (none, s.fs) := by
  have hrun : ∃ fs ∈ run (fsSystem smallSuperblock ⟨fun _ => none, fun _ => none⟩)
      [.iget 1, .ilock 0 0]
      ⟨smallImage ⟨T_DIR, 0, 0, 1, 0, fun _ => 0⟩, fun _ => ⟨Dinode.zero, 0, 0, none, false⟩⟩,
      ((fs.icache 0).lock ≠ none ∧ (fs.icache 0).type = T_DIR ∧ (fs.icache 0).size = 0) ∧
      ∃ s ∈ run (dirSystem smallSuperblock ⟨fun _ => none, fun _ => none⟩ 0)
        [.dirlink [97] 1, .dirlink [98] 2, .clearEntry 0] ⟨fs, fun _ => none⟩,
        s.links [97] = none ∧ s.links [98] = some 2 := by
    decide +kernel
  obtain ⟨fs, hfs, ⟨hlock, htype, hsize⟩, s, hs, ha, hb⟩ := hrun
  have hreach : Reachable (fsSystem smallSuperblock ⟨fun _ => none, fun _ => none⟩) fs := by
    refine Reachable.run (Reach.init ⟨?_, fun _ => ⟨rfl, rfl⟩⟩) hfs
    exact smallImage_wellFormed _ rfl (fun _ => rfl)
  have hdir : IsDir smallSuperblock fs 0 [] := by
    refine ⟨fsInv_of_reachable hreach, hlock, htype, by rw [hsize]; rfl, ?_⟩
    rw [← length_eq_zero_iff, length_dirents, Dinode.length_bytes, hsize]
    rfl
  have hreach' : Reachable (dirSystem smallSuperblock ⟨fun _ => none, fun _ => none⟩ 0) s := by
    refine Reachable.run (Reach.init ⟨[], hdir, ?_, rfl⟩) hs
    rintro key j k de de' ⟨hget, -⟩
    simp at hget
  have hlookup := (directory_is_finite_map hreach').2.1 [97]
  have hkey : nameKey [97] = [97] := by decide
  rw [hkey, ha] at hlookup
  exact ⟨s, hreach', hb, hlookup⟩

end Runs

end Xv6Bfs
