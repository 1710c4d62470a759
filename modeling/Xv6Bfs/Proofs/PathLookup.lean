import Xv6Bfs.Proofs.TreePaths

/-!
# Looking up paths

`namei` and `nameiparent` reach the inodes that the tree has for the components of a path.
-/

namespace Xv6Bfs

open Program

section Lookup

variable {sb : FsSuperblock} {devsw : Devsw} {p : Pid} {v : Vfs} {cwd : Fin NINODE}

lemma Quiet.namex (h : Quiet sb v.fs) (p : Pid) (htrace : v.trace = []) (hroot : ROOTINO < sb.ninodes)
    (hcwd : 0 < (v.fs.icache cwd).ref) (path : List (BitVec 8))
    (hkeeps : v.fs.base.Keeps (v.fs.tree sb) (Tree.start (v.fs.icache cwd).inum path))
    (hwell : ¬ (v.fs.tree sb).Dangling (Tree.start (v.fs.icache cwd).inum path)) (hspare : 2 ≤ v.fs.base.spare) (parent : Bool) :
    ∃ r v', FsM.namex sb devsw p cwd path parent v = .ok r v' ∧ v'.fs.tree sb = v.fs.tree sb ∧
      r.map (fun x => ((v'.fs.icache x.1).inum, x.2)) = (v.fs.tree sb).namex (v.fs.icache cwd).inum path parent := by
  have hname : Wp (FsM.namex sb devsw p cwd path parent) v _ _ :=
    (h.track p htrace).wp_namex hroot hcwd path hkeeps parent
  have hnone : ∀ e v', ¬ Exhausts p v.fs.base 1 ((v.fs.tree sb).Dangling (Tree.start (v.fs.icache cwd).inum path)) e v' := by
    rintro e v' ⟨-, ⟨-, hdangling⟩ | ⟨-, hfull⟩⟩
    · exact hwell hdangling
    · omega
  obtain ⟨r, v', hok, hpost⟩ := (hname.mono (fun _ _ h => h) hnone).exists_ok
  refine ⟨r, v', hok, ?_⟩
  cases r with
  | none => exact ⟨hpost.2.tree, hpost.1.symm⟩
  | some x =>
    obtain ⟨i, hwalk, hpost⟩ := hpost
    refine ⟨hpost.tree, ?_⟩
    rw [Option.map_some, hpost.inum_eq (Multiset.mem_cons_self _ _)]
    exact hwalk.symm

end Lookup

/-- Repeated `skipelem` gives the components of a path, cut to `DIRSIZ` bytes. With two unused entries in the inode cache, and if
every inode that entries lead to from the start of the path is allocated and has a link or is in use, `namei` returns the inode that
the components lead to and `nameiparent` the directory before the last one; a slash more at a slash, or at the end of a path that is
not empty, changes neither. -/
theorem path_resolution {sb : FsSuperblock} {devsw : Devsw} {p : Pid} {v : Vfs} {cwd : Fin NINODE} (h : Quiet sb v.fs)
    (htrace : v.trace = []) (hroot : ROOTINO < sb.ninodes) (hcwd : 0 < (v.fs.icache cwd).ref) (path : List (BitVec 8))
    (hkeeps : v.fs.base.Keeps (v.fs.tree sb) (Tree.start (v.fs.icache cwd).inum path))
    (hwell : ¬ (v.fs.tree sb).Dangling (Tree.start (v.fs.icache cwd).inum path)) (hspare : 2 ≤ v.fs.base.spare) :
    skipelems path.length path = (components path).map (·.take DIRSIZ) ∧
    (∃ r v', FsM.namei sb devsw p cwd path v = .ok r v' ∧ v'.fs.tree sb = v.fs.tree sb ∧
      r.map (fun ip => (v'.fs.icache ip).inum) =
        (v.fs.tree sb).resolve (Tree.start (v.fs.icache cwd).inum path) (elements path)) ∧
    (∃ r v', FsM.nameiparent sb devsw p cwd path v = .ok r v' ∧ v'.fs.tree sb = v.fs.tree sb ∧
      r.map (fun x => ((v'.fs.icache x.1).inum, x.2)) =
        (v.fs.tree sb).resolveParent (Tree.start (v.fs.icache cwd).inum path) (elements path)) ∧
    (∀ i, (v.fs.tree sb).resolve i (elements path) = none ↔
      ∃ pre name post d, elements path = pre ++ name :: post ∧ (v.fs.tree sb).resolve i pre = some d ∧
        ((v.fs.tree sb d).type ≠ T_DIR ∨ (v.fs.tree sb).lookup d name = none)) ∧
    (components path = [] → ∀ i, (v.fs.tree sb).resolveParent i (elements path) = none) ∧
    ∀ path' i, AddSlash path path' ∨ AddSlash path' path →
      Tree.start i path' = Tree.start i path ∧ elements path' = elements path := by
  refine ⟨skipelems_eq _ path (length_elements_le path), ?_, ?_, fun _ => Tree.resolve_eq_none_iff, ?_, ?_⟩
  · obtain ⟨r, v', hok, htree, hr⟩ := h.namex p htrace hroot hcwd path hkeeps hwell hspare false
    refine ⟨r.map Prod.fst, v', ?_, htree, ?_⟩
    · unfold FsM.namei
      rw [bind_of_ok hok]
      rfl
    · rw [← Tree.namei_eq, Tree.namei, ← hr, Option.map_map, Option.map_map]
      rfl
  · obtain ⟨r, v', hok, htree, hr⟩ := h.namex p htrace hroot hcwd path hkeeps hwell hspare true
    refine ⟨r, v', hok, htree, ?_⟩
    rw [← Tree.nameiparent_eq]
    exact hr
  · intro hnil i
    rw [elements, hnil]
    rfl
  · rintro path' i (hadd | hadd)
    · exact Tree.start_addSlash i hadd
    · exact ⟨(Tree.start_addSlash i hadd).1.symm, (Tree.start_addSlash i hadd).2.symm⟩

/-! ### A crowded cache -/

def crowdedSuperblock : FsSuperblock where
  toSuperblock := smallSuperblock.toSuperblock
  size := 50
  ninodes := 64
  inodestart := 32
  bmapstart := 41
  boot_lt_log := smallSuperblock.boot_lt_log
  log_le_inodes := smallSuperblock.log_le_inodes
  inodes_lt_bitmap := by decide
  bitmap_lt_data := by decide
  size_fits := by decide

/-- The root directory, and a directory and `n - 1` files that have been removed; all are empty. -/
def crowdedInode (n i : ℕ) : Dinode where
  type := if i = 1 then T_DIR else if 2 ≤ i ∧ i < n + 2 then if i = 2 then T_DIR else T_FILE else 0
  major := 0
  minor := 0
  nlink := if i = 1 then 1 else 0
  size := 0
  addrs := fun _ => 0

def crowdedFs (n : ℕ) : Fs where
  content b :=
    if b = 41 then fun k => if k.val < 5 then 255 else if k.val = 5 then 3 else 0
    else if 32 ≤ b.toNat ∧ b.toNat < 40 then
      fun k => (crowdedInode n ((b.toNat - 32) * IPB + k.val / 64)).byte (k.val % 64)
    else fun _ => 0
  icache ip :=
    if ip.val < n then ⟨crowdedInode n (ip.val + 2), ip.val + 2, 1, none, true⟩ else ⟨Dinode.zero, 0, 0, none, false⟩

section Crowded

variable {n : ℕ}

lemma dinode_crowdedFs {i : ℕ} (hi : i < 64) :
    (crowdedFs n).content.dinode crowdedSuperblock i = crowdedInode n i := by
  have hdiv : i / IPB < 8 := Nat.div_lt_of_lt_mul hi
  have hblock : (crowdedSuperblock.iblock i).toNat = i / IPB + 32 := by
    have hlt : i / IPB + 32 < 2 ^ 32 := by omega
    exact Nat.mod_eq_of_lt hlt
  have hne : crowdedSuperblock.iblock i ≠ 41 := by
    intro heq
    rw [heq] at hblock
    change 41 = i / IPB + 32 at hblock
    omega
  have hself : (crowdedFs n).content (crowdedSuperblock.iblock i) =
      Block.setDinode ((crowdedFs n).content (crowdedSuperblock.iblock i)) (i % IPB) (crowdedInode n i) := by
    funext k
    unfold Block.setDinode
    split
    · rename_i hk
      have hinode : (crowdedSuperblock.iblock i).toNat - 32 = i / IPB := Nat.sub_eq_of_eq_add hblock
      dsimp only [crowdedFs]
      rw [if_neg hne, if_pos (by omega), hinode, hk, Nat.div_add_mod']
    · rfl
  rw [Content.dinode, hself, Block.dinode_setDinode _ _ (Nat.mod_lt _ (by decide)), if_pos rfl]

lemma inode_crowdedFs (hn : n ≤ 50) (i : ℕ) :
    ((crowdedFs n).content.image crowdedSuperblock).inode i = crowdedInode n i := by
  by_cases hi : i < 64
  · rw [Content.image_inode hi, dinode_crowdedFs hi]
  · have hzero : crowdedInode n i = Dinode.zero := by
      unfold crowdedInode
      rw [if_neg (by omega), if_neg (by omega), if_neg (by omega)]
      rfl
    rw [hzero]
    exact if_neg hi

lemma used_crowdedFs (b : Blockno) :
    ((crowdedFs n).content.image crowdedSuperblock).used b = true ↔ b.toNat < crowdedSuperblock.datastart := by
  have hbits : ∀ k < 50, ((crowdedFs n).content 41).testBit k = decide (k < 42) := by
    have hzero : (crowdedFs n).content 41 = (crowdedFs 0).content 41 := rfl
    rw [hzero]
    decide +kernel
  have hstart : crowdedSuperblock.datastart = 42 := by decide
  have hsize : crowdedSuperblock.size = 50 := rfl
  have hbit : b.toNat < 50 → (crowdedFs n).content.bit crowdedSuperblock b = decide (b.toNat < 42) := by
    intro hlt
    have hblock : crowdedSuperblock.bblock b.toNat = 41 := by
      rw [FsSuperblock.bblock, Nat.div_eq_of_lt (hlt.trans (by decide))]
      rfl
    rw [Content.bit, hblock, Nat.mod_eq_of_lt (hlt.trans (by decide))]
    exact hbits _ hlt
  simp only [Content.image, hstart, hsize, Bool.and_eq_true, decide_eq_true_eq]
  constructor
  · rintro ⟨hlt, hused⟩
    simpa [hbit hlt] using hused
  · intro hlt
    exact ⟨by omega, by simpa [hbit (by omega)] using hlt⟩

lemma tree_crowdedFs (hn : n ≤ 50) (i : ℕ) :
    (crowdedFs n).tree crowdedSuperblock i = ⟨(crowdedInode n i).type, (crowdedInode n i).nlink, []⟩ := by
  have hentries : ((crowdedFs n).tree crowdedSuperblock i).entries = [] := by
    dsimp only [Fs.tree, Image.node]
    rw [inode_crowdedFs hn, show (crowdedInode n i).size.toNat = 0 from rfl]
    split
    · simp [dirents, Dinode.bytes]
    · rfl
  rw [← hentries, ← inode_crowdedFs hn]
  rfl

lemma crowdedFs_wellFormed (hn : n ≤ 50) :
    ((crowdedFs n).content.image crowdedSuperblock).WellFormed crowdedSuperblock := by
  apply Image.WellFormed.of_no_blocks used_crowdedFs
  · intro i s _
    rw [inode_crowdedFs hn]
    cases s <;> rfl
  · intro i _
    rw [inode_crowdedFs hn]
    rfl

lemma icache_crowdedFs {ip : Fin NINODE} (h : 0 < ((crowdedFs n).icache ip).ref) :
    ip.val < n ∧ (crowdedFs n).icache ip = ⟨crowdedInode n (ip.val + 2), ip.val + 2, 1, none, true⟩ := by
  by_cases hip : ip.val < n
  · exact ⟨hip, if_pos hip⟩
  · rw [show (crowdedFs n).icache ip = _ from if_neg hip] at h
    exact absurd h (Nat.lt_irrefl 0)

lemma type_crowdedInode {i : ℕ} : (crowdedInode n i).type ≠ 0 ↔ i = 1 ∨ 2 ≤ i ∧ i < n + 2 := by
  have hdir : T_DIR ≠ 0 := by decide
  have hfile : T_FILE ≠ 0 := by decide
  dsimp only [crowdedInode]
  split_ifs <;> simp_all

lemma crowdedFs_quiet (hn : n ≤ 50) : Quiet crowdedSuperblock (crowdedFs n) := by
  have hunlocked : ∀ ip, ((crowdedFs n).icache ip).lock = none := by
    intro ip
    dsimp only [crowdedFs]
    split <;> rfl
  have hlive : ∀ ip : Fin NINODE, ip.val < n → (crowdedInode n (ip.val + 2)).type ≠ 0 :=
    fun ip hip => type_crowdedInode.mpr (.inr ⟨by omega, by omega⟩)
  have hinv : FsInv crowdedSuperblock (crowdedFs n) := by
    refine ⟨crowdedFs_wellFormed hn, ?_, ?_, ?_, fun ip hlock => absurd (hunlocked ip) hlock⟩
    · intro ip jp hip hjp heq
      rw [(icache_crowdedFs hip).2, (icache_crowdedFs hjp).2] at heq
      exact Fin.ext (Nat.add_right_cancel heq)
    · intro ip hip
      rw [(icache_crowdedFs hip).2]
      exact (show ip.val + 2 < 64 by have := ip.isLt; unfold NINODE at this; omega)
    · intro ip hip _
      have hlt := (icache_crowdedFs hip).1
      rw [(icache_crowdedFs hip).2]
      exact ⟨(dinode_crowdedFs (by omega)).symm, hlive ip hlt⟩
  refine ⟨⟨hinv, ?_, ?_⟩, hunlocked⟩
  · intro i _
    rw [inode_crowdedFs hn]
    exact ⟨0, rfl⟩
  · intro i de hde
    rw [tree_crowdedFs hn] at hde
    cases hde

lemma leads_crowdedFs (hn : n ≤ 50) {i j : ℕ} (h : ((crowdedFs n).tree crowdedSuperblock).Leads i j) : j = i := by
  induction h with
  | refl => rfl
  | tail _ hnames =>
    obtain ⟨de, hde, -⟩ := hnames
    rw [tree_crowdedFs hn] at hde
    cases hde

lemma crowdedFs_not_dangling (hn : n ≤ 50) {i : ℕ} (hi : i = 1 ∨ 2 ≤ i ∧ i < n + 2) :
    ¬ ((crowdedFs n).tree crowdedSuperblock).Dangling i := by
  rintro ⟨j, hleads, hzero⟩
  rw [leads_crowdedFs hn hleads, tree_crowdedFs hn] at hzero
  exact type_crowdedInode.mpr hi hzero

lemma crowdedFs_keeps (hn : n ≤ 50) (i : ℕ) : (crowdedFs n).base.Keeps ((crowdedFs n).tree crowdedSuperblock) i := by
  intro j _ htype hnlink
  rw [tree_crowdedFs hn] at htype hnlink
  rcases type_crowdedInode.mp htype with rfl | ⟨hge, hlt⟩
  · cases hnlink
  · have hslot : (crowdedFs n).icache ⟨j - 2, by unfold NINODE; omega⟩ =
        ⟨crowdedInode n (j - 2 + 2), j - 2 + 2, 1, none, true⟩ := if_pos (by dsimp only; omega)
    refine ⟨⟨j - 2, by unfold NINODE; omega⟩, ?_⟩
    dsimp only [Fs.base]
    rw [hslot]
    exact ⟨Nat.one_pos, Nat.sub_add_cancel hge⟩

end Crowded

/-- The parent of the path `"//a/"` is the root, also from a directory that has been removed. -/
theorem path_resolution_root :
    ∃ v : Vfs, v.fs = crowdedFs 1 ∧ ∃ r v',
      FsM.nameiparent crowdedSuperblock ⟨fun _ => none, fun _ => none⟩ 1 0 [47, 47, 97, 47] v = .ok r v' ∧
      r.map (fun x => ((v'.fs.icache x.1).inum, x.2)) = some (ROOTINO, [97]) := by
  have hspare : 2 ≤ (crowdedFs 1).base.spare := by decide +kernel
  have helements : elements [47, 47, 97, 47] = [[97]] := by decide +kernel
  have hroot : ((crowdedFs 1).tree crowdedSuperblock ROOTINO).type = T_DIR := by
    rw [tree_crowdedFs (by decide)]
    rfl
  have hcwd : 0 < ((crowdedFs 1).icache 0).ref := by decide
  obtain ⟨v, hfs, htrace⟩ : ∃ v : Vfs, v.fs = crowdedFs 1 ∧ v.trace = [] := ⟨⟨crowdedFs 1, 0, []⟩, rfl, rfl⟩
  have hkeeps := crowdedFs_keeps (n := 1) (by decide) ROOTINO
  have hwell := crowdedFs_not_dangling (n := 1) (by decide) (.inl rfl : ROOTINO = 1 ∨ _)
  have hquiet := crowdedFs_quiet (n := 1) (by decide)
  rw [← hfs] at hspare hroot hcwd hkeeps hwell hquiet
  obtain ⟨-, -, ⟨r, v', hok, -, hr⟩, -⟩ :=
    path_resolution (p := 1) hquiet htrace (by decide) hcwd [47, 47, 97, 47] hkeeps hwell hspare
  refine ⟨v, hfs, r, v', hok, ?_⟩
  rw [hr, helements]
  simp [Tree.resolveParent, Tree.resolve, Tree.start, hroot]

/-- From a directory that is not the root the empty path and that of one slash lead to different inodes; if all entries of
the inode cache are in use and none is that of the root, the lookup of the latter panics. -/
theorem namei_empty_and_slash :
    (∃ ip v, FsM.namei crowdedSuperblock ⟨fun _ => none, fun _ => none⟩ 1 0 [] ⟨crowdedFs 1, 0, []⟩ = .ok (some ip) v ∧
      (v.fs.icache ip).inum = 2) ∧
    (∃ ip v, FsM.namei crowdedSuperblock ⟨fun _ => none, fun _ => none⟩ 1 0 [47] ⟨crowdedFs 1, 0, []⟩ = .ok (some ip) v ∧
      (v.fs.icache ip).inum = 1) ∧
    Quiet crowdedSuperblock (crowdedFs 50) ∧ (crowdedFs 50).base.Keeps ((crowdedFs 50).tree crowdedSuperblock) ROOTINO ∧
    ¬ ((crowdedFs 50).tree crowdedSuperblock).Dangling ROOTINO ∧
    ∃ v, FsM.namei crowdedSuperblock ⟨fun _ => none, fun _ => none⟩ 1 0 [47] ⟨crowdedFs 50, 0, []⟩ =
      .error (.panic (.fs .igetNoInodes)) v := by
  refine ⟨⟨0, _, rfl, rfl⟩, ⟨1, _, rfl, rfl⟩, crowdedFs_quiet le_rfl, crowdedFs_keeps le_rfl _,
    crowdedFs_not_dangling le_rfl (.inl rfl), ⟨_, rfl⟩⟩

/-- On whatever tree and with whatever path, `namex` asks for a lock only while it holds none, and has given all of them up when it
returns. It then has one reference more, to what it found, and has freed nothing. It does not return only if entries lead from the
start of the path to a free inode, or if fewer than two entries of the cache are unused. -/
theorem namex_holds_one_lock {sb : FsSuperblock} (devsw : Devsw) {v : Vfs} {cwd : Fin NINODE} (h : Quiet sb v.fs) (p : Pid)
    (htrace : v.trace = []) (hroot : ROOTINO < sb.ninodes) (hcwd : 0 < (v.fs.icache cwd).ref) (path : List (BitVec 8))
    (hkeeps : v.fs.base.Keeps (v.fs.tree sb) (Tree.start (v.fs.icache cwd).inum path)) (parent : Bool) :
    Wp (FsM.namex sb devsw p cwd path parent) v
      (fun r v' => v'.OneLock p ∧ v'.fs.tree sb = v.fs.tree sb ∧ ∀ ip, (v'.fs.icache ip).lock = none ∧
        (v'.fs.icache ip).ref = (v.fs.icache ip).ref + if r.map Prod.fst = some ip then 1 else 0)
      (fun e v' => v'.OneLock p ∧
        (e = .panic (.fs .ilockNoType) ∧ (v.fs.tree sb).Dangling (Tree.start (v.fs.icache cwd).inum path) ∨
          e = .panic (.fs .igetNoInodes) ∧ v.fs.base.spare ≤ 1)) := by
  refine ((h.track p htrace).wp_namex hroot hcwd path hkeeps parent).mono ?_ (fun _ _ he => he)
  rintro (- | ⟨jp, name⟩) v' hpost
  · have hend := hpost.2
    exact ⟨hend.order, hend.tree, fun ip => ⟨hend.lock_eq_none ip, hend.holding.ref ip⟩⟩
  · obtain ⟨j, -, hend⟩ := hpost
    refine ⟨hend.order, hend.tree, fun ip => ⟨hend.lock_eq_none ip, ?_⟩⟩
    rw [hend.holding.ref ip, Multiset.map_cons, Multiset.map_zero, Multiset.cons_zero, Multiset.count_singleton]
    simp [eq_comm, Fs.base]

/-- The lookup of `"a"` from a directory that has been removed. -/
theorem namex_holds_one_lock_removed : ∃ v,
    FsM.namex crowdedSuperblock ⟨fun _ => none, fun _ => none⟩ 1 0 [97] false ⟨crowdedFs 1, 0, []⟩ = .ok none v ∧
      v.trace.length = 2 ∧ v.OneLock 1 := by
  refine ⟨_, rfl, rfl, ?_⟩
  have hcwd : 0 < ((⟨crowdedFs 1, 0, []⟩ : Vfs).fs.icache 0).ref := by decide
  exact (Returns.of_ok (namex_holds_one_lock ⟨fun _ => none, fun _ => none⟩ (crowdedFs_quiet (by decide)) 1 rfl (by decide)
    hcwd [97] (crowdedFs_keeps (by decide) _) false) rfl).1

end Xv6Bfs
