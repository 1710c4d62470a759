import Xv6Bfs.Proofs.Holding
import Xv6Bfs.Proofs.Namespace

/-!
# The tree while a path is looked up

A lookup knows its inodes by their slots in the cache. `Track` ties the slots that it holds to nodes of the tree, which stays
as it is, since whoever else uses an inode without links keeps it.
-/

namespace Xv6Bfs

open Multiset Outcome Program

/-- The references that are not those of the call: how many there are to the inode of a slot, and
its number. -/
structure Base where
  ref : Fin NINODE → ℕ
  inum : Fin NINODE → ℕ

namespace Base

def Uses (B : Base) (i : ℕ) : Prop :=
  ∃ ip, 0 < B.ref ip ∧ B.inum ip = i

def spare (B : Base) : ℕ :=
  (Finset.univ.filter (fun ip => B.ref ip = 0)).card

/-- What a lookup from `i` may come to has a link or is in use. -/
def Keeps (B : Base) (t : Tree) (i : ℕ) : Prop :=
  ∀ j, t.Leads i j → (t j).type ≠ 0 → (t j).nlink = 0 → B.Uses j

end Base

/-- `H` are the references of the call and `L` its locks. -/
structure Track (sb : FsSuperblock) (p : Pid) (B : Base) (H : Multiset (Fin NINODE × ℕ)) (L : Multiset (Fin NINODE)) (t : Tree)
    (v : Vfs) : Prop where
  holding : Holding B.ref p (H.map Prod.fst) L v.outstanding v
  sane : Sane sb v.fs
  tree : v.fs.tree sb = t
  names : ∀ x ∈ H, (v.fs.icache x.1).inum = x.2
  based : ∀ ip, 0 < B.ref ip → (v.fs.icache ip).inum = B.inum ip
  order : v.OneLock p

/-- The ways in which looking up a name fails: the inode is free, which is so only if `D`, or the cache has no
slot left beside `k`. -/
def Exhausts (p : Pid) (B : Base) (k : ℕ) (D : Prop) (e : Stop) (v : Vfs) : Prop :=
  v.OneLock p ∧ (e = .panic (.fs .ilockNoType) ∧ D ∨ e = .panic (.fs .igetNoInodes) ∧ B.spare ≤ k)

lemma Exhausts.mono {p : Pid} {B : Base} {k k' : ℕ} {D D' : Prop} {e : Stop} {v : Vfs} (h : Exhausts p B k D e v) (hk : k ≤ k')
    (hD : D → D') : Exhausts p B k' D' e v :=
  ⟨h.1, h.2.imp (fun he => ⟨he.1, hD he.2⟩) (fun he => ⟨he.1, he.2.trans hk⟩)⟩

namespace Track

variable {sb : FsSuperblock} {devsw : Devsw} {p : Pid} {B : Base} {H H' : Multiset (Fin NINODE × ℕ)}
  {L L' : Multiset (Fin NINODE)} {t : Tree} {v : Vfs} {ip dp : Fin NINODE} {i d : ℕ}

lemma ref_pos (h : Track sb p B H L t v) (hip : (ip, i) ∈ H) : 0 < (v.fs.icache ip).ref := by
  have hmem : ip ∈ H.map Prod.fst := mem_map_of_mem Prod.fst hip
  have hcount := Multiset.count_pos.mpr hmem
  rw [h.holding.ref]
  omega

lemma inum_eq (h : Track sb p B H L t v) (hip : (ip, i) ∈ H) : (v.fs.icache ip).inum = i :=
  h.names _ hip

lemma ref_pos_of_base (h : Track sb p B H L t v) (hip : 0 < B.ref ip) : 0 < (v.fs.icache ip).ref := by
  rw [h.holding.ref]
  omega

lemma lock_eq (h : Track sb p B H L t v) (hip : ip ∈ L) : (v.fs.icache ip).lock = some p := by
  rw [h.holding.lock, if_pos hip]

lemma lock_eq_none (h : Track sb p B H 0 t v) (ip : Fin NINODE) : (v.fs.icache ip).lock = none := by
  rw [h.holding.lock, if_neg (notMem_zero ip)]

lemma type_eq (h : Track sb p B H L t v) (hip : (ip, i) ∈ H) (hlock : ip ∈ L) : (v.fs.icache ip).type = (t i).type := by
  have hnode := h.sane.node_eq (h.lock_eq hlock)
  rw [h.tree, h.names _ hip] at hnode
  exact hnode.1.symm

lemma setInode (h : Track sb p B H L t v) {x : Inode} {trace : List Fs}
    (hholding : Holding B.ref p (H'.map Prod.fst) L' v.outstanding { v with fs := v.fs.setInode ip x, trace := trace })
    (hinv : FsInv sb (v.fs.setInode ip x)) (hinum : 0 < (v.fs.icache ip).ref → x.inum = (v.fs.icache ip).inum)
    (hnames : ∀ y ∈ H', y ∈ H ∨ (y.1 = ip ∧ x.inum = y.2))
    (horder : Vfs.OneLock p { v with fs := v.fs.setInode ip x, trace := trace }) :
    Track sb p B H' L' t { v with fs := v.fs.setInode ip x, trace := trace } := by
  have hslot : ∀ jp, 0 < (v.fs.icache jp).ref → ((v.fs.setInode ip x).icache jp).inum = (v.fs.icache jp).inum := by
    intro jp hjp
    by_cases hne : jp = ip
    · subst hne
      simpa [Fs.setInode] using hinum hjp
    · simp [Fs.setInode, hne]
  obtain ⟨hsane, htree⟩ := h.sane.of_content hinv rfl
  refine ⟨hholding, hsane, htree.trans h.tree, ?_, ?_, horder⟩
  · intro y hy
    rcases hnames y hy with hmem | ⟨heq, hx⟩
    · dsimp only
      rw [hslot y.1 (h.ref_pos hmem), h.names y hmem]
    · simp [Fs.setInode, heq, hx]
  · intro jp hjp
    dsimp only
    rw [hslot jp (h.ref_pos_of_base hjp)]
    exact h.based jp hjp

/-! ### The inode cache -/

lemma of_iget (h : Track sb p B H L t v) (hi : i < sb.ninodes) {fs' : Fs} (hget : v.fs.iget i = .ok (ip, fs')) :
    Track sb p B ((ip, i) ::ₘ H) L t { v with fs := fs' } := by
  have hinv := (h.sane.inv.iget hi).of_ok hget
  have hholding : Holding B.ref p (((ip, i) ::ₘ H).map Prod.fst) L v.outstanding { v with fs := fs' } := by
    rw [map_cons]
    refine h.holding.of_iget ?_ hget
    exact fun _ => ⟨rfl, rfl⟩
  have hnames : ∀ {x : Inode}, x.inum = i → ∀ y ∈ (ip, i) ::ₘ H, y ∈ H ∨ (y.1 = ip ∧ x.inum = y.2) := by
    intro x hx y hy
    rcases mem_cons.mp hy with rfl | hmem
    · exact .inr ⟨rfl, hx⟩
    · exact .inl hmem
  rcases iget_cases hget with ⟨href, hinum, rfl⟩ | ⟨href, rfl⟩
  · exact h.setInode hholding hinv (fun _ => rfl) (hnames hinum) h.order
  · refine h.setInode hholding hinv ?_ (hnames rfl) h.order
    intro hpos
    omega

lemma spec_iget (fs : Fs) (i : ℕ) :
    Spec (fs.iget i) (fun r => fs.iget i = .ok r)
      (fun e => e = .igetNoInodes ∧ ∀ ip, (fs.icache ip).ref ≠ 0) := by
  refine Spec.intro (fun _ hr => hr) ?_
  intro e he
  unfold Fs.iget at he
  split at he
  · cases he
  · split at he
    · cases he
    · rename_i hnone
      cases he
      refine ⟨rfl, fun ip => ?_⟩
      simpa using List.find?_eq_none.mp hnone ip (List.mem_finRange ip)

lemma spare_le (h : Track sb p B H L t v) (hfull : ∀ ip, (v.fs.icache ip).ref ≠ 0) : B.spare ≤ H.card := by
  have hsub : Finset.univ.filter (fun ip => B.ref ip = 0) ⊆ (H.map Prod.fst).toFinset := by
    intro ip hip
    have hzero := (Finset.mem_filter.mp hip).2
    have href := hfull ip
    rw [h.holding.ref, hzero, Nat.zero_add] at href
    rw [mem_toFinset]
    exact count_ne_zero.mp href
  calc B.spare ≤ (H.map Prod.fst).toFinset.card := Finset.card_le_card hsub
    _ ≤ (H.map Prod.fst).card := toFinset_card_le _
    _ = H.card := card_map _ _

lemma wp_iget (h : Track sb p B H L t v) (hi : i < sb.ninodes) :
    Wp (FsM.iget i) v (fun ip v' => Track sb p B ((ip, i) ::ₘ H) L t v') (Exhausts p B H.card False) := by
  rw [FsM.iget, wp_lift]
  refine (spec_iget v.fs i).mono ?_ ?_
  · intro r hget
    exact h.of_iget hi hget
  · rintro e ⟨rfl, hfull⟩
    exact ⟨h.order, .inr ⟨rfl, h.spare_le hfull⟩⟩

lemma idup (h : Track sb p B H L t v) (hip : 0 < B.ref ip) :
    Wp (FsM.idup ip) v (fun r v' => r = ip ∧ Track sb p B ((ip, B.inum ip) ::ₘ H) L t v') (fun _ _ => False) := by
  have hholding := Returns.of_ok (h.holding.idup ip) rfl
  refine ⟨rfl, h.setInode (by rw [map_cons]; exact hholding.2) (h.sane.inv.idup (h.ref_pos_of_base hip))
    (fun _ => rfl) ?_ h.order⟩
  intro y hy
  rcases mem_cons.mp hy with rfl | hmem
  · exact .inr ⟨rfl, h.based ip hip⟩
  · exact .inl hmem

lemma oneLock_cons (h : Track sb p B H 0 t v) {v' : Vfs} (htrace : v'.trace = v.fs :: v.trace) : v'.OneLock p := by
  rw [Vfs.OneLock, htrace, List.forall_mem_cons]
  refine ⟨fun jp => ?_, h.order⟩
  rw [h.lock_eq_none]
  exact (Option.some_ne_none p).symm

lemma ilock (h : Track sb p B H 0 t v) (hip : (ip, i) ∈ H) :
    Wp (FsM.ilock sb p ip) v (fun _ v' => Track sb p B H (ip ::ₘ 0) t v')
      (fun e v' => e = .panic (.fs .ilockNoType) ∧ (t i).type = 0 ∧ v'.OneLock p) := by
  have href := h.ref_pos hip
  have hnode : ((v.fs.content.image sb).inode (v.fs.icache ip).inum).type = (t i).type := by
    rw [← h.tree, h.names _ hip]
    rfl
  have hlock := h.lock_eq_none ip
  have hholding : Returns (FsM.ilock sb p ip) v _ := h.holding.ilock ip
  rw [Returns, wp_ilock href hlock] at hholding
  have hinv : Spec (v.fs.ilock sb p ip) _ _ := h.sane.inv.ilock p
  rw [wp_ilock href hlock]
  rw [h.sane.inv.ilock_eq p href, hnode] at hholding hinv ⊢
  split
  · rename_i htype
    exact ⟨rfl, htype, h.oneLock_cons rfl⟩
  · rename_i htype
    rw [if_neg htype] at hholding hinv
    exact h.setInode hholding hinv (fun _ => rfl) (fun _ hy => .inl hy) (h.oneLock_cons rfl)

lemma iunlock (h : Track sb p B H (ip ::ₘ 0) t v) :
    Wp (FsM.iunlock p ip) v (fun _ v' => Track sb p B H 0 t v') (fun _ _ => False) := by
  have hlock := h.lock_eq (mem_cons_self ip 0)
  have hholding : Returns (FsM.iunlock p ip) v _ := h.holding.iunlock
  have hinv : Spec (v.fs.iunlock p ip) _ _ := h.sane.inv.iunlock p
  rw [FsM.iunlock, Returns, wp_lift, spec_map] at hholding
  rw [FsM.iunlock, wp_lift, spec_map]
  rw [h.sane.inv.iunlock_eq hlock] at hholding hinv ⊢
  exact h.setInode hholding hinv (fun _ => rfl) (fun _ hy => .inl hy) h.order

/-- The reference that `iput` drops is not the last one to an inode without links, so nothing is freed. -/
lemma iput_eq (h : Track sb p B ((ip, i) ::ₘ H) 0 t v) (hkept : (t i).type ≠ 0 → (t i).nlink = 0 → B.Uses i) :
    v.fs.iput sb ip = .ok (v.fs.setInode ip { v.fs.icache ip with ref := (v.fs.icache ip).ref - 1 }) := by
  have hmem : (ip, i) ∈ (ip, i) ::ₘ H := mem_cons_self _ _
  have href := h.ref_pos hmem
  have hinum := h.inum_eq hmem
  unfold Fs.iput
  dsimp only
  rw [if_neg]
  rintro ⟨hvalid, hnlink, hone⟩
  obtain ⟨hd, htype⟩ := h.sane.inv.cached ip href hvalid
  rw [← Content.image_inode (h.sane.inv.range ip href), hinum] at hd
  have hnode : (t i).type = (v.fs.icache ip).type ∧ (t i).nlink = (v.fs.icache ip).nlink := by
    rw [← h.tree, hd]
    exact ⟨rfl, rfl⟩
  obtain ⟨jp, hjp, hji⟩ := hkept (by rw [hnode.1]; exact htype) (by rw [hnode.2, hnlink])
  have hsame : (v.fs.icache jp).inum = (v.fs.icache ip).inum := by
    rw [h.based jp hjp, hji, hinum]
  obtain rfl := h.sane.inv.unique jp ip (h.ref_pos_of_base hjp) href hsame
  have hcount := h.holding.ref jp
  rw [map_cons, count_cons_self] at hcount
  omega

lemma iput (h : Track sb p B ((ip, i) ::ₘ H) 0 t v) (hkept : (t i).type ≠ 0 → (t i).nlink = 0 → B.Uses i) :
    Wp (FsM.iput sb ip) v (fun _ v' => Track sb p B H 0 t v') (fun _ _ => False) := by
  have hlock := h.lock_eq_none ip
  have hholding : Holding B.ref p (ip ::ₘ H.map Prod.fst) 0 v.outstanding v := by
    rw [← map_cons Prod.fst (ip, i) H]
    exact h.holding
  have hholding' : Returns (FsM.iput sb ip) v (fun _ v' => Holding B.ref p (H.map Prod.fst) 0 v.outstanding v') :=
    hholding.iput
  rw [Returns, wp_iput hlock] at hholding'
  have hinv : Spec (v.fs.iput sb ip) _ _ := h.sane.inv.iput hlock (h.ref_pos (mem_cons_self _ _))
  rw [wp_iput hlock]
  rw [h.iput_eq hkept] at hholding' hinv ⊢
  exact h.setInode hholding' hinv (fun _ => rfl) (fun _ hy => .inl (mem_cons_of_mem hy)) (h.oneLock_cons rfl)

lemma iunlockput (h : Track sb p B ((ip, i) ::ₘ H) (ip ::ₘ 0) t v) (hkept : (t i).type ≠ 0 → (t i).nlink = 0 → B.Uses i) :
    Wp (FsM.iunlockput sb p ip) v (fun _ v' => Track sb p B H 0 t v') (fun _ _ => False) :=
  h.iunlock.bind (fun _ _ h' => h'.iput hkept) (fun _ _ he => he)

/-! ### Looking up a name -/

lemma wp_dirlookup (h : Track sb p B H L t v) (hdp : (dp, d) ∈ H) (hlock : dp ∈ L) (htype : (t d).type = T_DIR)
    (name : List (BitVec 8)) :
    Wp (FsM.dirlookup sb devsw dp name) v
      (fun r v' => match r with
        | none => t.lookup d name = none ∧ Track sb p B H L t v'
        | some (ip, _) => ∃ i, t.lookup d name = some i ∧ Track sb p B ((ip, i) ::ₘ H) L t v')
      (Exhausts p B H.card False) := by
  have hdir := h.sane.isDir (h.lock_eq hlock) (by rw [h.tree, h.inum_eq hdp]; exact htype)
  have hrange := h.sane.range d
  rw [h.tree] at hrange
  rw [h.tree, h.inum_eq hdp] at hdir
  rw [FsM.dirlookup, wp_lift, hdir.dirlookup_eq]
  unfold Tree.lookup
  cases hfind : (t d).entries.find? (·.Matches name) with
  | none => exact ⟨rfl, h⟩
  | some de =>
    dsimp only
    rw [spec_map]
    refine (spec_iget v.fs de.inum.toNat).mono ?_ ?_
    · intro r hget
      exact ⟨_, rfl, h.of_iget (hrange de (List.mem_of_find?_eq_some hfind)) hget⟩
    · rintro e ⟨rfl, hfull⟩
      exact ⟨h.order, .inr ⟨rfl, h.spare_le hfull⟩⟩

end Track

/-! ### Between calls -/

/-- The directories are sane and no inode is locked. -/
structure Quiet (sb : FsSuperblock) (fs : Fs) : Prop where
  sane : Sane sb fs
  unlocked : ∀ ip, (fs.icache ip).lock = none

def Fs.base (fs : Fs) : Base where
  ref ip := (fs.icache ip).ref
  inum ip := (fs.icache ip).inum

lemma Quiet.track {sb : FsSuperblock} {v : Vfs} (h : Quiet sb v.fs) (p : Pid) (htrace : v.trace = []) :
    Track sb p v.fs.base 0 0 (v.fs.tree sb) v := by
  refine ⟨⟨fun _ => rfl, nodup_zero, ?_, rfl⟩, h.sane, rfl, by rintro _ ⟨⟩, fun _ _ => rfl, ?_⟩
  · intro ip
    rw [h.unlocked ip, if_neg (notMem_zero ip)]
  · rw [Vfs.OneLock, htrace]
    rintro _ ⟨⟩

end Xv6Bfs
