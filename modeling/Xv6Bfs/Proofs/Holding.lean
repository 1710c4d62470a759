import Xv6Bfs.Namei
import Xv6Bfs.Proofs.DirMap

/-!
# References and locks within a call

What a call holds while it runs: `held` are the references to inodes in its local variables,
each as often as it has it, and `locked` the inodes whose lock it has. The other references,
`base`, are those of files and current directories.
-/

namespace Xv6Bfs

open Multiset Outcome Program

variable {exn : Stop → Vfs → Prop}

lemma wp_lift {α : Type} {f : Fs → Except FsPanic (α × Fs)} {v : Vfs} {post : α → Vfs → Prop}
    :
    Wp (FsM.lift f) v post exn ↔
      Spec (f v.fs) (fun r => post r.1 { v with fs := r.2 }) (fun e => exn (.panic (.fs e)) v) := by
  unfold Wp FsM.lift
  cases f v.fs <;> rfl

@[simp]
lemma wp_inode {ip : Fin NINODE} {v : Vfs} {post : Inode → Vfs → Prop} :
    Wp (FsM.inode ip) v post exn ↔ post (v.fs.icache ip) v := Iff.rfl

lemma wp_ilock {sb : FsSuperblock} {p : Pid} {ip : Fin NINODE} {v : Vfs} {post : Unit → Vfs → Prop}
    (href : 0 < (v.fs.icache ip).ref) (hlock : (v.fs.icache ip).lock = none) :
    Wp (FsM.ilock sb p ip) v post exn ↔ Spec (v.fs.ilock sb p ip)
        (fun fs => post () { v with fs := fs, trace := v.fs :: v.trace })
        (fun e => exn (.panic (.fs e)) { v with trace := v.fs :: v.trace }) := by
  unfold FsM.ilock FsM.acquiresleep
  simp only [wp_bind, wp_inode]
  rw [if_neg (by omega)]
  simp only [wp_bind, wp_inode, wp_modify]
  rw [if_neg (by simp [hlock]), wp_pure, wp_lift, spec_map]

lemma wp_iput {sb : FsSuperblock} {ip : Fin NINODE} {v : Vfs} {post : Unit → Vfs → Prop}
    (hlock : (v.fs.icache ip).lock = none) :
    Wp (FsM.iput sb ip) v post exn ↔ Spec (v.fs.iput sb ip)
        (fun fs => post () { v with fs := fs, trace := v.fs :: v.trace })
        (fun e => exn (.panic (.fs e)) { v with trace := v.fs :: v.trace }) := by
  unfold FsM.iput FsM.acquiresleep
  simp only [wp_bind, wp_inode, wp_modify]
  rw [if_neg (by simp [hlock]), wp_pure, wp_lift, spec_map]

/-- The process `p` has the references `held` beyond `base` and the locks `locked`. -/
structure Holding (base : Fin NINODE → ℕ) (p : Pid) (held locked : Multiset (Fin NINODE)) (o : ℕ)
    (v : Vfs) : Prop where
  ref : ∀ ip, (v.fs.icache ip).ref = base ip + held.count ip
  nodup : locked.Nodup
  lock : ∀ ip, (v.fs.icache ip).lock = if ip ∈ locked then some p else none
  outstanding : v.outstanding = o

def Fs.SameRefs (fs fs' : Fs) : Prop :=
  ∀ ip, (fs'.icache ip).ref = (fs.icache ip).ref ∧ (fs'.icache ip).lock = (fs.icache ip).lock

namespace Fs

variable {sb : FsSuperblock} {devsw : Devsw} {fs fs' : Fs}

lemma sameRefs_setDinode (fs : Fs) (ip : Fin NINODE) (d : Dinode) (c : Content) :
    fs.SameRefs (fs.setDinode ip d c) := by
  intro jp
  by_cases hjp : jp = ip
  · subst hjp
    simp [setDinode]
  · simp [setDinode, hjp]

lemma SameRefs.trans {fs'' : Fs} (h : fs.SameRefs fs') (h' : fs'.SameRefs fs'') : fs.SameRefs fs'' := by
  intro jp
  rw [(h' jp).1, (h' jp).2]
  exact h jp

lemma spec_true {α : Type} (x : Except FsPanic α) : Spec x (fun _ => True) (fun _ => True) :=
  Spec.intro (fun _ _ => trivial) (fun _ _ => trivial)

lemma sameRefs_readi (fs : Fs) (ip : Fin NINODE) (off n : BitVec 32) :
    Spec (fs.readi sb devsw ip off n) (fun r => fs.SameRefs r.2) (fun _ => True) := by
  refine (spec_true _).bind ?_
  rintro ⟨r, d, c⟩ -
  exact fs.sameRefs_setDinode ip d c

lemma sameRefs_writei (fs : Fs) (ip : Fin NINODE) (src : List (BitVec 8)) (off n : BitVec 32) :
    Spec (fs.writei sb devsw ip src off n) (fun r => fs.SameRefs r.2) (fun _ => True) := by
  refine (spec_true _).bind ?_
  rintro ⟨r, d, c⟩ -
  exact fs.sameRefs_setDinode ip d c

lemma sameRefs_clearEntry (fs : Fs) (dp : Fin NINODE) (off : ℕ) :
    Spec (fs.clearEntry sb devsw dp off) (fun fs' => fs.SameRefs fs') (fun _ => True) := by
  refine (fs.sameRefs_writei ..).bind ?_
  rintro ⟨r, fs'⟩ hr
  dsimp only
  split
  · trivial
  · exact hr

lemma sameRefs_linkEntry (fs : Fs) (dp : Fin NINODE) (name : List (BitVec 8)) (inum : BitVec 16) :
    Spec (fs.linkEntry sb devsw dp name inum) (fun fs' => fs.SameRefs fs') (fun _ => True) := by
  refine (spec_true _).bind ?_
  rintro ⟨⟨off, -⟩, d, c⟩ -
  refine (sameRefs_writei ..).bind ?_
  rintro ⟨r, fs'⟩ hr
  dsimp only
  split
  · trivial
  · exact (fs.sameRefs_setDinode dp d c).trans hr

end Fs

namespace Holding

variable {sb : FsSuperblock} {devsw : Devsw} {base : Fin NINODE → ℕ} {p : Pid}
  {held locked : Multiset (Fin NINODE)} {o : ℕ} {v : Vfs} {ip dp : Fin NINODE} {fs fs' : Fs}

lemma congr (h : Holding base p held locked o v) {v' : Vfs} (hfs : v.fs.SameRefs v'.fs)
    (ho : v'.outstanding = v.outstanding) : Holding base p held locked o v' := by
  refine ⟨?_, h.nodup, ?_, ho.trans h.outstanding⟩
  · intro jp
    rw [(hfs jp).1, h.ref]
  · intro jp
    rw [(hfs jp).2, h.lock]

lemma rebase (h : Holding base p held locked o v) {base' : Fin NINODE → ℕ} {held' : Multiset (Fin NINODE)}
    (heq : ∀ ip, base' ip + held'.count ip = base ip + held.count ip) : Holding base' p held' locked o v := by
  refine ⟨?_, h.nodup, h.lock, h.outstanding⟩
  intro ip
  rw [heq, h.ref]

/-! ### Inodes -/

lemma inode (h : Holding base p held locked o v) (ip : Fin NINODE) :
    Returns (FsM.inode ip) v (fun x v' => x = v'.fs.icache ip ∧ Holding base p held locked o v') :=
  ⟨rfl, h⟩

lemma lift_quiet {α : Type} {f : Fs → Except FsPanic (α × Fs)} (h : Holding base p held locked o v)
    (hf : Spec (f v.fs) (fun r => v.fs.SameRefs r.2) (fun _ => True)) :
    Returns (FsM.lift f) v (fun _ v' => Holding base p held locked o v') := by
  rw [Returns, wp_lift]
  exact hf.imp (fun r hr => h.congr hr rfl)

lemma beginOp (h : Holding base p held locked o v) :
    Returns FsM.beginOp v (fun _ v' => Holding base p held locked (o + 1) v') := by
  refine ⟨h.ref, h.nodup, h.lock, ?_⟩
  dsimp only
  rw [h.outstanding]

lemma endOp (h : Holding base p held locked (o + 1) v) :
    Returns FsM.endOp v (fun _ v' => Holding base p held locked o v') := by
  refine ⟨h.ref, h.nodup, h.lock, ?_⟩
  dsimp only
  rw [h.outstanding, Nat.add_sub_cancel]

lemma acquiresleep (h : Holding base p held locked o v) (ip : Fin NINODE) :
    Returns (FsM.acquiresleep ip) v (fun _ v' => ip ∉ locked ∧ Holding base p held locked o v') := by
  unfold FsM.acquiresleep FsM.inode
  simp only [wp_bind, wp_modify, wp_get, wp_pure]
  split
  · trivial
  · rename_i hlock
    rw [wp_pure]
    refine ⟨?_, h.ref, h.nodup, h.lock, h.outstanding⟩
    intro hmem
    apply hlock
    rw [h.lock, if_pos hmem]
    exact Option.some_ne_none p

lemma of_iget (h : Holding base p held locked o v) {inum : ℕ} {fs fs' : Fs} (hsame : v.fs.SameRefs fs)
    (hget : fs.iget inum = .ok (ip, fs')) : Holding base p (ip ::ₘ held) locked o { v with fs := fs' } := by
  have hslot : ∀ jp, (fs'.icache jp).ref = (fs.icache jp).ref + (if jp = ip then 1 else 0) ∧
      (fs'.icache jp).lock = (fs.icache jp).lock := by
    intro jp
    rcases iget_cases hget with ⟨-, -, rfl⟩ | ⟨href, rfl⟩
    · by_cases hjp : jp = ip
      · subst hjp
        simp [Fs.idup, Fs.setInode]
      · simp [Fs.idup, Fs.setInode, hjp]
    · by_cases hjp : jp = ip
      · subst hjp
        simp [Fs.setInode, href]
      · simp [Fs.setInode, hjp]
  refine ⟨?_, h.nodup, ?_, h.outstanding⟩
  · intro jp
    dsimp only
    rw [(hslot jp).1, (hsame jp).1, h.ref, count_cons]
    omega
  · intro jp
    dsimp only
    rw [(hslot jp).2, (hsame jp).2, h.lock]

lemma iget (h : Holding base p held locked o v) (inum : ℕ) :
    Returns (FsM.iget inum) v (fun ip v' => Holding base p (ip ::ₘ held) locked o v') := by
  rw [FsM.iget, Returns, wp_lift]
  refine Spec.intro ?_ (fun _ _ => trivial)
  intro r hr
  exact h.of_iget (fun _ => ⟨rfl, rfl⟩) hr

lemma idup (h : Holding base p held locked o v) (ip : Fin NINODE) :
    Returns (FsM.idup ip) v (fun r v' => r = ip ∧ Holding base p (ip ::ₘ held) locked o v') := by
  refine ⟨rfl, ?_, h.nodup, ?_, h.outstanding⟩
  · intro jp
    by_cases hjp : jp = ip
    · subst hjp
      simp [Fs.idup, Fs.setInode, h.ref, Nat.add_assoc]
    · simp [Fs.idup, Fs.setInode, h.ref, hjp]
  · intro jp
    by_cases hjp : jp = ip
    · subst hjp
      simp [Fs.idup, Fs.setInode, h.lock]
    · simp [Fs.idup, Fs.setInode, h.lock, hjp]

lemma ialloc (h : Holding base p held locked o v) (type : BitVec 16) :
    Returns (FsM.ialloc sb type) v (fun ip v' => Holding base p (ip ::ₘ held) locked o v') := by
  rw [FsM.ialloc, Returns, wp_lift]
  refine Spec.intro ?_ (fun _ _ => trivial)
  intro r hr
  unfold Fs.ialloc at hr
  split at hr
  · refine h.of_iget ?_ hr
    exact fun _ => ⟨rfl, rfl⟩
  · cases hr

lemma ilock (h : Holding base p held locked o v) (ip : Fin NINODE) :
    Returns (FsM.ilock sb p ip) v (fun _ v' => Holding base p held (ip ::ₘ locked) o v') := by
  unfold FsM.ilock
  refine (h.inode ip).bind ?_
  rintro x v ⟨-, h⟩
  split
  · trivial
  refine (h.acquiresleep ip).bind ?_
  rintro - v ⟨hnot, h⟩
  rw [Returns, wp_lift, spec_map]
  refine Spec.intro ?_ (fun _ _ => trivial)
  intro fs' hlock
  have hslot : ∀ jp, (fs'.icache jp).ref = (v.fs.icache jp).ref ∧
      (fs'.icache jp).lock = if jp = ip then some p else (v.fs.icache jp).lock := by
    have hset : ∀ x : Inode, x.ref = (v.fs.icache ip).ref → x.lock = some p → ∀ jp,
        ((v.fs.setInode ip x).icache jp).ref = (v.fs.icache jp).ref ∧
        ((v.fs.setInode ip x).icache jp).lock = if jp = ip then some p else (v.fs.icache jp).lock := by
      intro x href hx jp
      by_cases hjp : jp = ip
      · subst hjp
        simp [Fs.setInode, href, hx]
      · simp [Fs.setInode, hjp]
    unfold Fs.ilock at hlock
    dsimp only at hlock
    split at hlock
    · cases hlock
    · split at hlock
      · cases hlock
        exact hset _ rfl rfl
      · split at hlock
        · cases hlock
        · cases hlock
          exact hset _ rfl rfl
  refine ⟨?_, nodup_cons.mpr ⟨hnot, h.nodup⟩, ?_, h.outstanding⟩
  · intro jp
    dsimp only
    rw [(hslot jp).1, h.ref]
  · intro jp
    dsimp only
    rw [(hslot jp).2, h.lock]
    by_cases hjp : jp = ip <;> simp [hjp]

lemma iunlock (h : Holding base p held (ip ::ₘ locked) o v) :
    Returns (FsM.iunlock p ip) v (fun _ v' => Holding base p held locked o v') := by
  rw [FsM.iunlock, Returns, wp_lift, spec_map]
  refine Spec.intro ?_ (fun _ _ => trivial)
  intro fs' hunlock
  unfold Fs.iunlock at hunlock
  dsimp only at hunlock
  split at hunlock
  · cases hunlock
  cases hunlock
  obtain ⟨hnot, hnodup⟩ := nodup_cons.mp h.nodup
  refine ⟨?_, hnodup, ?_, h.outstanding⟩
  · intro jp
    rw [← h.ref]
    by_cases hjp : jp = ip
    · subst hjp
      simp [Fs.setInode]
    · simp [Fs.setInode, hjp]
  · intro jp
    by_cases hjp : jp = ip
    · subst hjp
      simp [Fs.setInode, hnot]
    · simp [Fs.setInode, hjp, h.lock]

lemma of_iput (h : Holding base p (ip ::ₘ held) locked o v) (hput : v.fs.iput sb ip = .ok fs') :
    Holding base p held locked o { v with fs := fs' } := by
  have hset : ∀ (c : Content) (x : Inode), x.ref = (v.fs.icache ip).ref - 1 → x.lock = (v.fs.icache ip).lock →
      Holding base p held locked o { v with fs := ⟨c, Function.update v.fs.icache ip x⟩ } := by
    intro c x href hlock
    refine ⟨?_, h.nodup, ?_, h.outstanding⟩
    · intro jp
      have hjp' := h.ref jp
      rw [count_cons] at hjp'
      by_cases hjp : jp = ip
      · subst hjp
        rw [if_pos rfl] at hjp'
        simp only [Function.update_self, href]
        omega
      · rw [if_neg hjp] at hjp'
        simpa [hjp] using hjp'
    · intro jp
      rw [← h.lock]
      by_cases hjp : jp = ip
      · subst hjp
        simpa using hlock
      · simp [hjp]
  unfold Fs.iput at hput
  dsimp only at hput
  split at hput
  · cases htrunc : itrunc sb (v.fs.icache ip).inum (v.fs.icache ip).toDinode v.fs.content with
    | error e =>
      rw [htrunc] at hput
      cases hput
    | ok r =>
      rw [htrunc] at hput
      cases hput
      exact hset _ _ rfl rfl
  · cases hput
    exact hset _ _ rfl rfl

lemma iput (h : Holding base p (ip ::ₘ held) locked o v) :
    Returns (FsM.iput sb ip) v (fun _ v' => Holding base p held locked o v') := by
  unfold FsM.iput
  refine (h.acquiresleep ip).bind ?_
  rintro - v ⟨-, h⟩
  rw [Returns, wp_lift, spec_map]
  exact Spec.intro (fun fs' hput => h.of_iput hput) (fun _ _ => trivial)

lemma iunlockput (h : Holding base p (ip ::ₘ held) (ip ::ₘ locked) o v) :
    Returns (FsM.iunlockput sb p ip) v (fun _ v' => Holding base p held locked o v') :=
  h.iunlock.bind (fun _ _ h => h.iput)

/-! ### Reading, writing and directories -/

lemma update (h : Holding base p held locked o v) (ip : Fin NINODE) (major minor nlink : BitVec 16) :
    Returns (FsM.update sb ip major minor nlink) v (fun _ v' => Holding base p held locked o v') :=
  h.lift_quiet (v.fs.sameRefs_setDinode ip _ _)

lemma updateNlink (h : Holding base p held locked o v) (ip : Fin NINODE) (f : BitVec 16 → BitVec 16) :
    Returns (FsM.updateNlink sb ip f) v (fun _ v' => Holding base p held locked o v') :=
  (h.inode ip).bind (fun _ _ h => h.2.update ..)

lemma console {β : Type} {table : ℕ → Option β} (h : Holding base p held (ip ::ₘ locked) o v) :
    Returns (FsM.console sb p table ip) v (fun _ v' => Holding base p held (ip ::ₘ locked) o v') := by
  refine (h.inode ip).bind ?_
  rintro x v ⟨-, h⟩
  split
  · exact h.iunlock.bind (fun _ _ h => h.ilock ip)
  · exact h

lemma readi (h : Holding base p held (ip ::ₘ locked) o v) (off n : BitVec 32) :
    Returns (FsM.readi sb devsw p ip off n) v (fun _ v' => Holding base p held (ip ::ₘ locked) o v') := by
  unfold FsM.readi
  refine (h.lift_quiet (Fs.sameRefs_readi _ ip off n)).bind ?_
  intro bytes v h
  exact h.console.bind (fun _ _ h => h)

lemma writei (h : Holding base p held (ip ::ₘ locked) o v) (src : List (BitVec 8)) (off n : BitVec 32) :
    Returns (FsM.writei sb devsw p ip src off n) v (fun _ v' => Holding base p held (ip ::ₘ locked) o v') := by
  unfold FsM.writei
  refine (h.lift_quiet (Fs.sameRefs_writei _ ip src off n)).bind ?_
  intro bytes v h
  exact h.console.bind (fun _ _ h => h)

lemma dirlookup (h : Holding base p held locked o v) (dp : Fin NINODE) (name : List (BitVec 8)) :
    Returns (FsM.dirlookup sb devsw dp name) v (fun r v' => match r with
      | none => Holding base p held locked o v'
      | some (ip, _) => Holding base p (ip ::ₘ held) locked o v') := by
  rw [FsM.dirlookup, Returns, wp_lift]
  unfold Fs.dirlookup
  dsimp only
  split
  · trivial
  refine (Fs.spec_true _).bind ?_
  rintro ⟨⟨off, found⟩, d, c⟩ -
  have hsame := Fs.sameRefs_setDinode v.fs dp d c
  cases found with
  | none => exact h.congr hsame rfl
  | some de =>
    have hget : Spec ((v.fs.setDinode dp d c).iget de.inum.toNat)
        (fun r => Holding base p (r.1 ::ₘ held) locked o { v with fs := r.2 }) (fun _ => True) :=
      Spec.intro (fun r hr => h.of_iget hsame hr) (fun _ _ => trivial)
    exact hget.bind (fun r hr => hr)

lemma dirlink (h : Holding base p held locked o v) (dp : Fin NINODE) (name : List (BitVec 8)) (inum : ℕ) :
    Returns (FsM.dirlink sb devsw dp name inum) v (fun _ v' => Holding base p held locked o v') := by
  refine (h.dirlookup dp name).bind ?_
  rintro (- | ⟨ip, off⟩) v h
  · refine (h.lift_quiet ?_).bind (fun _ _ h => h)
    rw [spec_map]
    exact Fs.sameRefs_linkEntry ..
  · exact h.iput.bind (fun _ _ h => h)

lemma isdirempty (h : Holding base p held locked o v) (dp : Fin NINODE) :
    Returns (FsM.isdirempty sb devsw dp) v (fun _ v' => Holding base p held locked o v') := by
  refine h.lift_quiet ((Fs.spec_true _).bind ?_)
  rintro ⟨⟨-, found⟩, d, c⟩ -
  exact v.fs.sameRefs_setDinode dp d c

/-! ### Paths and calls -/

lemma namexEnd (h : Holding base p (ip ::ₘ held) locked o v) (parent : Bool) :
    Returns (FsM.namexEnd sb parent ip) v (fun r v' => match r with
      | none => Holding base p held locked o v'
      | some (ip, _) => Holding base p (ip ::ₘ held) locked o v') := by
  unfold FsM.namexEnd
  split
  · exact h.iput.bind (fun _ _ h => h)
  · exact h

lemma namexLoop (parent : Bool) (fuel : ℕ) (h : Holding base p (ip ::ₘ held) locked o v)
    (path : List (BitVec 8)) :
    Returns (FsM.namexLoop sb devsw p parent fuel ip path) v (fun r v' => match r with
      | none => Holding base p held locked o v'
      | some (ip, _) => Holding base p (ip ::ₘ held) locked o v') := by
  induction fuel generalizing ip path v with
  | zero => exact h.namexEnd parent
  | succ fuel ih =>
    rw [FsM.namexLoop]
    cases skipelem path with
    | none => exact h.namexEnd parent
    | some next =>
      obtain ⟨name, path⟩ := next
      refine (h.ilock ip).bind ?_
      rintro - v h
      refine (h.inode ip).bind ?_
      rintro x v ⟨-, h⟩
      split
      · exact h.iunlockput.bind (fun _ _ h => h)
      split
      · exact h.iunlock.bind (fun _ _ h => h)
      refine (h.dirlookup ip name).bind ?_
      rintro (- | ⟨next, off⟩) v h
      · exact h.iunlockput.bind (fun _ _ h => h)
      · dsimp only at h
        rw [cons_swap] at h
        exact h.iunlockput.bind (fun _ _ h => ih h path)

lemma namex (h : Holding base p held locked o v) (cwd : Fin NINODE) (path : List (BitVec 8)) (parent : Bool) :
    Returns (FsM.namex sb devsw p cwd path parent) v (fun r v' => match r with
      | none => Holding base p held locked o v'
      | some (ip, _) => Holding base p (ip ::ₘ held) locked o v') := by
  have hstart : Returns (if path.headD 0 = 47 then FsM.iget ROOTINO else FsM.idup cwd) v
      (fun ip v' => Holding base p (ip ::ₘ held) locked o v') := by
    split
    · exact h.iget ROOTINO
    · refine (h.idup cwd).imp ?_
      rintro ip v' ⟨rfl, h⟩
      exact h
  refine hstart.bind ?_
  intro ip v h
  exact namexLoop parent path.length h path

lemma namei (h : Holding base p held locked o v) (cwd : Fin NINODE) (path : List (BitVec 8)) :
    Returns (FsM.namei sb devsw p cwd path) v (fun r v' => match r with
      | none => Holding base p held locked o v'
      | some ip => Holding base p (ip ::ₘ held) locked o v') := by
  refine (h.namex cwd path false).bind ?_
  rintro (- | ⟨ip, name⟩) v h
  · exact h
  · exact h

lemma nameiparent (h : Holding base p held locked o v) (cwd : Fin NINODE) (path : List (BitVec 8)) :
    Returns (FsM.nameiparent sb devsw p cwd path) v (fun r v' => match r with
      | none => Holding base p held locked o v'
      | some (ip, _) => Holding base p (ip ::ₘ held) locked o v') :=
  h.namex cwd path true

lemma createDots (h : Holding base p held locked o v) (dp ip : Fin NINODE) :
    Returns (FsM.createDots sb devsw dp ip) v (fun _ v' => Holding base p held locked o v') := by
  refine (h.updateNlink dp (· + 1)).bind ?_
  rintro - v h
  refine (h.inode ip).bind ?_
  rintro x v ⟨-, h⟩
  refine (h.inode dp).bind ?_
  rintro y v ⟨-, h⟩
  refine (h.dirlink ip dot x.inum).bind ?_
  intro r v h
  split
  · trivial
  refine (h.dirlink ip dotdot y.inum).bind ?_
  intro r v h
  split
  · trivial
  · exact h

lemma createNew (h : Holding base p (dp ::ₘ held) (dp ::ₘ locked) o v) (name : List (BitVec 8))
    (type major minor : BitVec 16) :
    Returns (FsM.createNew sb devsw p dp name type major minor) v
      (fun ip v' => Holding base p (ip ::ₘ held) (ip ::ₘ locked) o v') := by
  refine (h.ialloc type).bind ?_
  intro ip v h
  refine (h.ilock ip).bind ?_
  rintro - v h
  refine (h.update ip major minor 1).bind ?_
  rintro - v h
  have hdots : Returns (if type = T_DIR then FsM.createDots sb devsw dp ip else pure ()) v
      (fun _ v' => Holding base p (ip ::ₘ dp ::ₘ held) (ip ::ₘ dp ::ₘ locked) o v') := by
    split
    · exact h.createDots dp ip
    · exact h
  refine hdots.bind ?_
  rintro - v h
  refine (h.inode ip).bind ?_
  rintro x v ⟨-, h⟩
  refine (h.dirlink dp name x.inum).bind ?_
  intro r v h
  split
  · trivial
  rw [cons_swap ip, cons_swap ip] at h
  exact h.iunlockput.bind (fun _ _ h => h)

lemma create (h : Holding base p held locked o v) (cwd : Fin NINODE) (path : List (BitVec 8))
    (type major minor : BitVec 16) :
    Returns (FsM.create sb devsw p cwd path type major minor) v (fun r v' => match r with
      | none => Holding base p held locked o v'
      | some ip => Holding base p (ip ::ₘ held) (ip ::ₘ locked) o v') := by
  refine (h.nameiparent cwd path).bind ?_
  rintro (- | ⟨dp, name⟩) v h
  · exact h
  refine (h.ilock dp).bind ?_
  rintro - v h
  refine (h.dirlookup dp name).bind ?_
  rintro (- | ⟨ip, off⟩) v h
  · exact (h.createNew name type major minor).bind (fun _ _ h => h)
  · dsimp only at h
    rw [cons_swap] at h
    refine h.iunlockput.bind ?_
    rintro - v h
    refine (h.ilock ip).bind ?_
    rintro - v h
    refine (h.inode ip).bind ?_
    rintro x v ⟨-, h⟩
    split
    · exact h
    · exact h.iunlockput.bind (fun _ _ h => h)

lemma linkBad (h : Holding base p (ip ::ₘ held) locked (o + 1) v) :
    Returns (FsM.linkBad sb p ip) v (fun _ v' => Holding base p held locked o v') := by
  refine (h.ilock ip).bind ?_
  rintro - v h
  refine (h.updateNlink ip (· - 1)).bind ?_
  rintro - v h
  refine h.iunlockput.bind ?_
  rintro - v h
  exact h.endOp.bind (fun _ _ h => h)

lemma sysLink (h : Holding base p held locked o v) (cwd : Fin NINODE) (old new : List (BitVec 8)) :
    Returns (FsM.sysLink sb devsw p cwd old new) v (fun _ v' => Holding base p held locked o v') := by
  refine h.beginOp.bind ?_
  rintro - v h
  refine (h.namei cwd old).bind ?_
  rintro (- | ip) v h
  · exact h.endOp.bind (fun _ _ h => h)
  refine (h.ilock ip).bind ?_
  rintro - v h
  refine (h.inode ip).bind ?_
  rintro x v ⟨-, h⟩
  split
  · exact h.iunlockput.bind (fun _ _ h => h.endOp.bind (fun _ _ h => h))
  refine (h.updateNlink ip (· + 1)).bind ?_
  rintro - v h
  refine h.iunlock.bind ?_
  rintro - v h
  refine (h.nameiparent cwd new).bind ?_
  rintro (- | ⟨dp, name⟩) v h
  · exact h.linkBad
  refine (h.ilock dp).bind ?_
  rintro - v h
  refine (h.inode ip).bind ?_
  rintro y v ⟨-, h⟩
  refine (h.dirlink dp name y.inum).bind ?_
  intro r v h
  split
  · exact h.iunlockput.bind (fun _ _ h => h.linkBad)
  · refine h.iunlockput.bind ?_
    rintro - v h
    refine h.iput.bind ?_
    rintro - v h
    exact h.endOp.bind (fun _ _ h => h)

lemma unlinkBad (h : Holding base p (dp ::ₘ held) (dp ::ₘ locked) (o + 1) v) :
    Returns (FsM.unlinkBad sb p dp) v (fun _ v' => Holding base p held locked o v') :=
  h.iunlockput.bind (fun _ _ h => h.endOp.bind (fun _ _ h => h))

lemma unlinkEntry (h : Holding base p (ip ::ₘ dp ::ₘ held) (ip ::ₘ dp ::ₘ locked) (o + 1) v) (off : ℕ) :
    Returns (FsM.unlinkEntry sb devsw p dp ip off) v (fun _ v' => Holding base p held locked o v') := by
  have hclear : Spec ((v.fs.clearEntry sb devsw dp off).map ((), ·)) (fun r => v.fs.SameRefs r.2)
      (fun _ => True) := by
    rw [spec_map]
    exact Fs.sameRefs_clearEntry ..
  refine (h.lift_quiet hclear).bind ?_
  rintro - v h
  refine (h.inode ip).bind ?_
  rintro x v ⟨-, h⟩
  have hparent : Returns (if x.type = T_DIR then FsM.updateNlink sb dp (· - 1) else pure ()) v
      (fun _ v' => Holding base p (ip ::ₘ dp ::ₘ held) (ip ::ₘ dp ::ₘ locked) (o + 1) v') := by
    split
    · exact h.updateNlink dp (· - 1)
    · exact h
  refine hparent.bind ?_
  rintro - v h
  rw [cons_swap ip, cons_swap ip] at h
  refine h.iunlockput.bind ?_
  rintro - v h
  refine (h.updateNlink ip (· - 1)).bind ?_
  rintro - v h
  exact h.iunlockput.bind (fun _ _ h => h.endOp.bind (fun _ _ h => h))

lemma sysUnlink (h : Holding base p held locked o v) (cwd : Fin NINODE) (path : List (BitVec 8)) :
    Returns (FsM.sysUnlink sb devsw p cwd path) v (fun _ v' => Holding base p held locked o v') := by
  refine h.beginOp.bind ?_
  rintro - v h
  refine (h.nameiparent cwd path).bind ?_
  rintro (- | ⟨dp, name⟩) v h
  · exact h.endOp.bind (fun _ _ h => h)
  refine (h.ilock dp).bind ?_
  rintro - v h
  split
  · exact h.unlinkBad
  refine (h.dirlookup dp name).bind ?_
  rintro (- | ⟨ip, off⟩) v h
  · exact h.unlinkBad
  refine (h.ilock ip).bind ?_
  rintro - v h
  refine (h.inode ip).bind ?_
  rintro x v ⟨-, h⟩
  split
  · trivial
  have hempty : Returns (if x.type = T_DIR then FsM.isdirempty sb devsw ip else pure true) v
      (fun _ v' => Holding base p (ip ::ₘ dp ::ₘ held) (ip ::ₘ dp ::ₘ locked) (o + 1) v') := by
    split
    · exact h.isdirempty ip
    · exact h
  refine hempty.bind ?_
  intro empty v h
  split
  · exact h.iunlockput.bind (fun _ _ h => h.unlinkBad)
  · exact h.unlinkEntry off

end Holding

end Xv6Bfs
