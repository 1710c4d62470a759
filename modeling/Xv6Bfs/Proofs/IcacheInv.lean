import Xv6Bfs.Icache
import Xv6Bfs.Proofs.FileArray

/-!
# The inode cache is write-through

The invariant of the blocks and the inode cache, kept by every step: the image is well
formed, no inode has two entries, and a valid entry is a copy of the inode on disk.
-/

namespace Xv6Bfs

open Function Outcome Ownership Transition

/-- The image is well formed, and each inode in use has one cache entry, which agrees with it. -/
structure FsInv (sb : FsSuperblock) (fs : Fs) : Prop where
  wellFormed : (fs.content.image sb).WellFormed sb
  unique : ∀ ip jp, 0 < (fs.icache ip).ref → 0 < (fs.icache jp).ref →
    (fs.icache ip).inum = (fs.icache jp).inum → ip = jp
  range : ∀ ip, 0 < (fs.icache ip).ref → (fs.icache ip).inum < sb.ninodes
  cached : ∀ ip, 0 < (fs.icache ip).ref → (fs.icache ip).valid = true →
    (fs.icache ip).toDinode = fs.content.dinode sb (fs.icache ip).inum ∧ (fs.icache ip).type ≠ 0
  locked : ∀ ip, (fs.icache ip).lock ≠ none → 0 < (fs.icache ip).ref ∧ (fs.icache ip).valid = true

/-! ### Images after a change of one inode -/

section Images

variable {sb : FsSuperblock} {c : Content} {im : Image} {i : ℕ} {d d' : Dinode}

lemma Image.WellFormed.patch (hwf : im.WellFormed sb)
    (href : ∀ s, (im.patch i d').ref (i, s) = im.ref (i, s))
    (hholes : d'.IsFile → d'.NoHoles im.data) : (im.patch i d').WellFormed sb := by
  refine ⟨hwf.reserved, ?_, ?_⟩
  · have hsame : (im.patch i d').ref = im.ref := by
      funext ⟨j, s⟩
      by_cases hj : j = i
      · subst hj
        exact href s
      · exact Image.ref_patch_of_ne hj
    rw [hsame]
    exact hwf.owned
  · intro j hj
    by_cases hji : j = i
    · subst hji
      simp only [Image.patch, update_self] at hj ⊢
      exact hholes hj
    · simp only [Image.patch, update_of_ne hji] at hj ⊢
      exact hwf.noHoles j hj

lemma Image.WellFormed.allocate (hwf : im.WellFormed sb) (hfree : (im.inode i).type = 0) (hsize : d'.size = 0)
    (haddrs : d'.addrs = fun _ => 0) : (im.patch i d').WellFormed sb := by
  have hnone : ∀ data s, d'.ref data s = none := by
    intro data s
    cases s <;> simp only [Dinode.ref, haddrs, nonzero] <;> rfl
  apply hwf.patch
  · intro s
    simp only [Image.ref, Image.patch, update_self, hnone, hfree, ite_self, if_true]
  · intro _
    refine ⟨by simp [hsize], ?_⟩
    intro s
    rw [hnone, Option.isSome_none, hsize]
    exact ⟨fun h => absurd h Bool.false_ne_true, fun hlt => absurd hlt (Nat.not_lt_zero _)⟩

lemma Image.WellFormed.truncate (hwf : im.WellFormed sb) (htype : (im.inode i).type ≠ 0)
    (hd' : d'.type = 0) : ((im.truncate i (im.inode i)).patch i d').WellFormed sb := by
  have hrefi : ∀ s, im.ref (i, s) = (im.inode i).ref im.data s := by
    intro s
    exact if_neg htype
  have hused : ∀ b, ((im.truncate i (im.inode i)).patch i d').used b = true ↔
      im.used b = true ∧ ∀ s, im.ref (i, s) ≠ some b := by
    intro b
    simp [Image.truncate, Image.patch, hrefi]
  have hother : ∀ {j}, j ≠ i → ((im.truncate i (im.inode i)).patch i d').inode j = im.inode j := by
    intro j hj
    simp [Image.truncate, Image.patch, update_of_ne hj]
  refine ⟨?_, ?_, ?_⟩
  · intro b hb
    rw [hused]
    refine ⟨hwf.reserved b hb, ?_⟩
    intro s hs
    exact absurd (hwf.owned.mem_pool hs).1 (Nat.not_le.mpr hb)
  · apply hwf.owned.release {p | p.1 = i}
    · rintro ⟨j, s⟩ rfl
      simp [Image.ref, Image.patch, hd']
    · rintro ⟨j, s⟩ hj
      simp only [Image.ref, hother hj]
      rfl
    · intro b _
      simp only [Set.mem_ofPred_eq, hused]
      constructor
      · rintro ⟨hb, hs⟩
        refine ⟨hb, ?_⟩
        rintro ⟨j, s⟩ rfl
        exact hs s
      · rintro ⟨hb, hs⟩
        exact ⟨hb, fun s => hs (i, s) rfl⟩
  · intro j hj
    by_cases hji : j = i
    · subst hji
      simp only [Image.patch, update_self] at hj
      exact absurd hd' hj.1
    · rw [hother hji] at hj ⊢
      exact hwf.noHoles j hj

lemma Image.WellFormed.attrs (hwf : im.WellFormed sb) (hd : im.inode i = d) (htype : d.type ≠ 0)
    (major minor nlink : BitVec 16) :
    (im.patch i { d with major := major, minor := minor, nlink := nlink }).WellFormed sb := by
  have href : ∀ s, ({ d with major := major, minor := minor, nlink := nlink } : Dinode).ref im.data s =
      d.ref im.data s := by
    intro s
    cases s <;> rfl
  apply hwf.patch
  · intro s
    rw [Image.ref_patch_self (d := { d with major := major, minor := minor, nlink := nlink }) htype, href s, Image.ref,
      hd, if_neg htype]
  · intro hfile
    obtain ⟨hsize, hfills⟩ := hwf.noHoles i (by rw [hd]; exact hfile)
    rw [hd] at hsize hfills
    exact ⟨hsize, fun s => by rw [href s]; exact hfills s⟩

lemma Image.WellFormed.truncated (hwf : im.WellFormed sb) (htype : (im.inode i).type ≠ 0) :
    (im.truncate i (im.inode i)).WellFormed sb := by
  have hfree : ((im.truncate i (im.inode i)).patch i Dinode.zero).WellFormed sb := hwf.truncate htype rfl
  have hback : (((im.truncate i (im.inode i)).patch i Dinode.zero).patch i
      { im.inode i with addrs := fun _ => 0, size := 0 }).WellFormed sb :=
    hfree.allocate (by simp [Image.patch, Dinode.zero]) rfl rfl
  simpa only [Image.patch, Image.truncate, update_idem] using hback

end Images

namespace FsInv

variable {sb : FsSuperblock} {fs : Fs} {ip : Fin NINODE} {c : Content} {x : Inode} {p : Pid}

lemma set (h : FsInv sb fs) (hwf : (c.image sb).WellFormed sb)
    (hothers : ∀ jp, jp ≠ ip → 0 < (fs.icache jp).ref → (fs.icache jp).valid = true →
      c.dinode sb (fs.icache jp).inum = fs.content.dinode sb (fs.icache jp).inum)
    (hunique : 0 < x.ref → ∀ jp, jp ≠ ip → 0 < (fs.icache jp).ref → (fs.icache jp).inum ≠ x.inum)
    (hrange : 0 < x.ref → x.inum < sb.ninodes)
    (hcached : 0 < x.ref → x.valid = true → x.toDinode = c.dinode sb x.inum ∧ x.type ≠ 0)
    (hlocked : x.lock ≠ none → 0 < x.ref ∧ x.valid = true) :
    FsInv sb ⟨c, Function.update fs.icache ip x⟩ := by
  refine ⟨hwf, ?_, ?_, ?_, ?_⟩
  · intro jp kp hj hk heq
    by_cases hjp : jp = ip <;> by_cases hkp : kp = ip
    · rw [hjp, hkp]
    · subst hjp
      simp only [update_self, update_of_ne hkp] at hj hk heq
      exact absurd heq.symm (hunique hj kp hkp hk)
    · subst hkp
      simp only [update_self, update_of_ne hjp] at hj hk heq
      exact absurd heq (hunique hk jp hjp hj)
    · simp only [update_of_ne hjp, update_of_ne hkp] at hj hk heq
      exact h.unique jp kp hj hk heq
  · intro jp hj
    by_cases hjp : jp = ip
    · subst hjp
      simp only [update_self] at hj ⊢
      exact hrange hj
    · simp only [update_of_ne hjp] at hj ⊢
      exact h.range jp hj
  · intro jp hj hv
    by_cases hjp : jp = ip
    · subst hjp
      simp only [update_self] at hj hv ⊢
      exact hcached hj hv
    · simp only [update_of_ne hjp] at hj hv ⊢
      rw [hothers jp hjp hj hv]
      exact h.cached jp hj hv
  · intro jp hj
    by_cases hjp : jp = ip
    · subst hjp
      simp only [update_self] at hj ⊢
      exact hlocked hj
    · simp only [update_of_ne hjp] at hj ⊢
      exact h.locked jp hj

lemma setInode (h : FsInv sb fs)
    (hunique : 0 < x.ref → ∀ jp, jp ≠ ip → 0 < (fs.icache jp).ref → (fs.icache jp).inum ≠ x.inum)
    (hrange : 0 < x.ref → x.inum < sb.ninodes)
    (hcached : 0 < x.ref → x.valid = true → x.toDinode = fs.content.dinode sb x.inum ∧ x.type ≠ 0)
    (hlocked : x.lock ≠ none → 0 < x.ref ∧ x.valid = true) : FsInv sb (fs.setInode ip x) :=
  h.set h.wellFormed (fun _ _ _ _ => rfl) hunique hrange hcached hlocked

lemma inum_ne (h : FsInv sb fs) (hip : 0 < (fs.icache ip).ref) (jp : Fin NINODE) (hne : jp ≠ ip)
    (hjp : 0 < (fs.icache jp).ref) : (fs.icache jp).inum ≠ (fs.icache ip).inum := by
  intro heq
  exact hne (h.unique jp ip hjp hip heq)

lemma write (h : FsInv sb fs) (hip : 0 < (fs.icache ip).ref) (hwf : (c.image sb).WellFormed sb) {d : Dinode}
    (hinode : (c.image sb).inode = Function.update (fs.content.image sb).inode (fs.icache ip).inum d)
    (hinum : x.inum = (fs.icache ip).inum)
    (hd : 0 < x.ref → x.valid = true → x.toDinode = d ∧ d.type ≠ 0)
    (hlocked : x.lock ≠ none → 0 < x.ref ∧ x.valid = true) :
    FsInv sb ⟨c, Function.update fs.icache ip x⟩ := by
  have hrange := h.range ip hip
  refine h.set hwf ?_ ?_ ?_ ?_ hlocked
  · intro jp hne hjp _
    have hj := h.range jp hjp
    rw [← Content.image_inode hj, ← Content.image_inode hj, hinode,
      update_of_ne (h.inum_ne hip jp hne hjp)]
  · intro _
    rw [hinum]
    exact h.inum_ne hip
  · intro _
    rwa [hinum]
  · intro href hvalid
    obtain ⟨hx, htype⟩ := hd href hvalid
    rw [← Content.image_inode (by rwa [hinum]), hinode, hinum, update_self, ← hx]
    exact ⟨rfl, by rwa [hx]⟩

lemma iget (h : FsInv sb fs) {inum : ℕ} (hinum : inum < sb.ninodes) :
    Spec (fs.iget inum) (fun r => FsInv sb r.2) (fun e => e = .igetNoInodes) := by
  unfold Fs.iget
  split
  · rename_i ip hfind
    have hip := List.find?_some hfind
    rw [Bool.and_eq_true, decide_eq_true_eq, decide_eq_true_eq] at hip
    refine h.setInode ?_ ?_ ?_ ?_
    · intro _
      exact h.inum_ne hip.1
    · intro _
      exact h.range ip hip.1
    · intro _ hvalid
      exact h.cached ip hip.1 hvalid
    · intro hlock
      exact ⟨Nat.succ_pos _, (h.locked ip hlock).2⟩
  · rename_i hnone
    split
    · rename_i ip hfind
      have hip := List.find?_some hfind
      rw [decide_eq_true_eq] at hip
      refine h.setInode ?_ (fun _ => hinum) nofun ?_
      · intro _ jp _ hjp heq
        have := List.find?_eq_none.mp hnone jp (List.mem_finRange jp)
        simp [hjp, heq] at this
      · intro hlock
        have := (h.locked ip hlock).1
        omega
    · rfl

lemma ialloc (h : FsInv sb fs) (type : BitVec 16) :
    Spec (fs.ialloc sb type) (fun r => FsInv sb r.2) (fun e => e ≠ .freeingFreeBlock) := by
  unfold Fs.ialloc
  split
  · rename_i inum hfind
    have hfree := List.find?_some hfind
    have hmem := List.mem_range'_1.mp (List.mem_of_find?_eq_some hfind)
    have hlt : inum < sb.ninodes := by omega
    rw [decide_eq_true_eq, ← Content.image_inode hlt] at hfree
    have himage := Content.image_iupdate (c := fs.content) hlt { Dinode.zero with type := type }
    have hwf : ((iupdate sb inum { Dinode.zero with type := type } fs.content).image sb).WellFormed sb := by
      rw [himage]
      exact h.wellFormed.allocate hfree rfl rfl
    -- a free inode has no valid entry
    have hfresh : ∀ jp, 0 < (fs.icache jp).ref → (fs.icache jp).valid = true → (fs.icache jp).inum ≠ inum := by
      intro jp hjp hvalid heq
      obtain ⟨hd, htype⟩ := h.cached jp hjp hvalid
      rw [← Content.image_inode (h.range jp hjp), heq] at hd
      rw [hd] at htype
      exact htype hfree
    have h' : FsInv sb { fs with content := iupdate sb inum { Dinode.zero with type := type } fs.content } := by
      refine ⟨hwf, h.unique, h.range, ?_, h.locked⟩
      intro jp hjp hvalid
      have hj := h.range jp hjp
      rw [← Content.image_inode hj, himage]
      simp only [update_of_ne (hfresh jp hjp hvalid)]
      rw [Content.image_inode hj]
      exact h.cached jp hjp hvalid
    refine (h'.iget hlt).mono (fun _ h => h) ?_
    rintro e rfl
    decide
  · exact nofun

lemma idup (h : FsInv sb fs) (hip : 0 < (fs.icache ip).ref) : FsInv sb (fs.idup ip) := by
  refine h.setInode ?_ ?_ ?_ ?_
  · intro _
    exact h.inum_ne hip
  · intro _
    exact h.range ip hip
  · intro _ hvalid
    exact h.cached ip hip hvalid
  · intro hlock
    exact ⟨Nat.succ_pos _, (h.locked ip hlock).2⟩

lemma ilock (h : FsInv sb fs) (p : Pid) :
    Spec (fs.ilock sb p ip) (fun r => FsInv sb r) (fun e => e ≠ .freeingFreeBlock) := by
  unfold Fs.ilock
  dsimp only
  split
  · exact nofun
  · rename_i href
    have hip : 0 < (fs.icache ip).ref := by omega
    split
    · rename_i hvalid
      refine h.setInode (fun _ => h.inum_ne hip) (fun _ => h.range ip hip) ?_ ?_
      · intro _ _
        exact h.cached ip hip hvalid
      · intro _
        exact ⟨hip, hvalid⟩
    · split
      · exact nofun
      · rename_i htype
        exact h.setInode (fun _ => h.inum_ne hip) (fun _ => h.range ip hip) (fun _ _ => ⟨rfl, htype⟩)
          (fun _ => ⟨hip, rfl⟩)

lemma iunlock (h : FsInv sb fs) (p : Pid) :
    Spec (fs.iunlock p ip) (fun r => FsInv sb r) (fun e => e ≠ .freeingFreeBlock) := by
  unfold Fs.iunlock
  dsimp only
  split
  · exact nofun
  · rename_i hheld
    have hip : 0 < (fs.icache ip).ref := by omega
    refine h.setInode (fun _ => h.inum_ne hip) (fun _ => h.range ip hip) ?_ ?_
    · intro _ hvalid
      exact h.cached ip hip hvalid
    · intro hlock
      exact absurd rfl hlock

lemma iput (h : FsInv sb fs) (hlock : (fs.icache ip).lock = none) (hip : 0 < (fs.icache ip).ref) :
    Spec (fs.iput sb ip) (fun r => FsInv sb r) (fun e => e ≠ .freeingFreeBlock) := by
  unfold Fs.iput
  dsimp only
  split
  · rename_i hfree
    obtain ⟨hd, htype⟩ := h.cached ip hip hfree.1
    have hrange := h.range ip hip
    rw [← Content.image_inode hrange] at hd
    have hown := h.wellFormed.owned_patch (i := (fs.icache ip).inum)
    rw [← hd] at hown
    obtain ⟨c, hret, himage⟩ := exists_itrunc hrange hown htype
    rw [hret]
    have himage' := Content.image_iupdate (c := c) hrange
      { (fs.icache ip).toDinode with addrs := fun _ => 0, size := 0, type := 0 }
    refine h.write hip (d := { (fs.icache ip).toDinode with addrs := fun _ => 0, size := 0, type := 0 }) ?_ ?_
      rfl nofun ?_
    · rw [himage', himage, hd]
      exact h.wellFormed.truncate (by rwa [← hd]) rfl
    · rw [himage', himage, Image.truncate, update_idem]
    · intro hl
      exact absurd hlock hl
  · refine h.setInode (fun _ => h.inum_ne hip) (fun _ => h.range ip hip) ?_ ?_
    · intro _ hvalid
      exact h.cached ip hip hvalid
    · intro hl
      exact absurd hlock hl

lemma of_locked (h : FsInv sb fs) (hlock : (fs.icache ip).lock = some p) :
    0 < (fs.icache ip).ref ∧ (fs.icache ip).valid = true ∧ (fs.icache ip).type ≠ 0 ∧
      (fs.content.image sb).inode (fs.icache ip).inum = (fs.icache ip).toDinode := by
  obtain ⟨hip, hvalid⟩ := h.locked ip (by simp [hlock])
  obtain ⟨hd, htype⟩ := h.cached ip hip hvalid
  rw [← Content.image_inode (h.range ip hip)] at hd
  exact ⟨hip, hvalid, htype, hd.symm⟩

lemma ilock_eq (h : FsInv sb fs) (p : Pid) (hip : 0 < (fs.icache ip).ref) :
    fs.ilock sb p ip =
      if ((fs.content.image sb).inode (fs.icache ip).inum).type = 0 then .error .ilockNoType
      else .ok (fs.setInode ip { fs.icache ip with
        toDinode := (fs.content.image sb).inode (fs.icache ip).inum, valid := true, lock := some p }) := by
  unfold Fs.ilock
  dsimp only
  rw [if_neg (by omega), Content.image_inode (h.range ip hip)]
  split
  · rename_i hvalid
    obtain ⟨hd, htype⟩ := h.cached ip hip hvalid
    rw [← hd, if_neg htype, ← hvalid]
  · rfl

lemma iunlock_eq (h : FsInv sb fs) (hlock : (fs.icache ip).lock = some p) :
    fs.iunlock p ip = .ok (fs.setInode ip { fs.icache ip with lock := none }) := by
  have hip := (h.of_locked hlock).1
  unfold Fs.iunlock
  dsimp only
  rw [if_neg]
  rintro (hne | hlt)
  · exact hne hlock
  · omega

lemma setDinode_self (fs : Fs) (ip : Fin NINODE) :
    fs.setDinode ip (fs.icache ip).toDinode fs.content = fs := by
  rw [Fs.setDinode, update_eq_self]

lemma readi (h : FsInv sb fs) (devsw : Devsw) (hlock : (fs.icache ip).lock = some p) (off n : BitVec 32) :
    ∃ bytes, fs.readi sb devsw ip off n = .ok (bytes, fs) := by
  obtain ⟨hip, -, htype, hd⟩ := h.of_locked hlock
  unfold Fs.readi
  by_cases hdev : (fs.icache ip).type = T_DEV
  · have hret : ∃ bytes, Xv6Bfs.readi sb devsw (fs.icache ip).toDinode off n fs.content =
        .ok (bytes, (fs.icache ip).toDinode, fs.content) := by
      unfold Xv6Bfs.readi
      rw [if_pos hdev]
      split
      · exact ⟨_, rfl⟩
      · split <;> exact ⟨_, rfl⟩
    obtain ⟨bytes, hret⟩ := hret
    rw [hret]
    exact ⟨bytes, by simp only [bind, Except.bind, setDinode_self]⟩
  · rw [readi_eq_readSlice devsw h.wellFormed hd ⟨htype, hdev⟩]
    simp only [bind, Except.bind, setDinode_self]
    exact ⟨_, rfl⟩

lemma spliced (h : FsInv sb fs) (hlock : (fs.icache ip).lock = some p) {src : List (BitVec 8)} {off : ℕ}
    {d : Dinode} (hs : Spliced sb (fs.icache ip).inum fs.content off src d c) :
    FsInv sb (fs.setDinode ip d c) ∧
      Spliced sb (fs.icache ip).inum fs.content off src ((fs.setDinode ip d c).icache ip).toDinode c ∧
      fs.setDinode ip d c = fs.setDinode ip ((fs.setDinode ip d c).icache ip).toDinode c := by
  obtain ⟨hip, hvalid, htype, hd⟩ := h.of_locked hlock
  have hself : ((fs.setDinode ip d c).icache ip).toDinode = d := by
    simp only [Fs.setDinode, update_self]
  rw [hself]
  refine ⟨?_, hs, rfl⟩
  refine h.write hip hs.wellFormed hs.inode rfl ?_ (fun _ => ⟨hip, hvalid⟩)
  intro _ _
  refine ⟨rfl, ?_⟩
  rw [hs.attrs, hd]
  exact htype

lemma writei_file (h : FsInv sb fs) (devsw : Devsw) (hlock : (fs.icache ip).lock = some p)
    (hfile : (fs.icache ip).toDinode.IsFile) (src : List (BitVec 8)) (off n : BitVec 32)
    (hsrc : src.length ≤ n.toNat) (hoff : off ≤ (fs.icache ip).size)
    (hmax : off.toNat + n.toNat ≤ MAXFILE * BSIZE) :
    Spec (fs.writei sb devsw ip src off n)
      (fun r => r.1 = n.toNat ∧ FsInv sb r.2 ∧
        Spliced sb (fs.icache ip).inum fs.content off.toNat src (r.2.icache ip).toDinode r.2.content ∧
        r.2 = fs.setDinode ip (r.2.icache ip).toDinode r.2.content)
      (fun e => e = .ballocOutOfBlocks) := by
  obtain ⟨hip, -, -, hd⟩ := h.of_locked hlock
  unfold Fs.writei
  refine Spec.bind ((writei_spec devsw h.wellFormed (h.range ip hip) hd hfile hsrc hoff hmax).mono
    (fun _ h => h) (fun _ he => he.1)) ?_
  rintro ⟨r, d, c⟩ ⟨hr, hs⟩
  exact ⟨hr, h.spliced hlock hs⟩

lemma writei_cases (h : FsInv sb fs) (devsw : Devsw) (hlock : (fs.icache ip).lock = some p)
    (src : List (BitVec 8)) (off n : BitVec 32) :
    Spec (fs.writei sb devsw ip src off n)
      (fun r => (r.2 = fs ∧ ((fs.icache ip).type ≠ T_DEV → r.1 = -1)) ∨
        (r.1 = n.toNat ∧ off ≤ (fs.icache ip).size ∧ off.toNat + n.toNat ≤ MAXFILE * BSIZE ∧ FsInv sb r.2 ∧
          Spliced sb (fs.icache ip).inum fs.content off.toNat (src.take n.toNat) (r.2.icache ip).toDinode
            r.2.content ∧
          r.2 = fs.setDinode ip (r.2.icache ip).toDinode r.2.content))
      (fun e => e = .ballocOutOfBlocks) := by
  obtain ⟨hip, -, htype, hd⟩ := h.of_locked hlock
  unfold Fs.writei
  refine Spec.bind (Xv6Bfs.writei_cases devsw h.wellFormed (h.range ip hip) hd htype src off n) ?_
  rintro ⟨r, d, c⟩ (⟨hsame, hr⟩ | ⟨hr, hoff, hmax, hs⟩)
  · obtain ⟨rfl, rfl⟩ := Prod.mk.inj hsame
    exact .inl ⟨setDinode_self fs ip, hr⟩
  · exact .inr ⟨hr, hoff, hmax, h.spliced hlock hs⟩

lemma writei (h : FsInv sb fs) (devsw : Devsw) (hlock : (fs.icache ip).lock = some p)
    (src : List (BitVec 8)) (off n : BitVec 32) :
    Spec (fs.writei sb devsw ip src off n) (fun r => FsInv sb r.2) (fun e => e = .ballocOutOfBlocks) := by
  refine (h.writei_cases devsw hlock src off n).imp ?_
  rintro ⟨r, fs'⟩ (⟨rfl, -⟩ | ⟨-, -, -, hinv, -⟩)
  · exact h
  · exact hinv

lemma update (h : FsInv sb fs) (hlock : (fs.icache ip).lock = some p) (major minor nlink : BitVec 16) :
    FsInv sb (fs.update sb ip major minor nlink) := by
  obtain ⟨hip, hvalid, htype, hd⟩ := h.of_locked hlock
  have himage := Content.image_iupdate (c := fs.content) (h.range ip hip)
    { (fs.icache ip).toDinode with major := major, minor := minor, nlink := nlink }
  refine h.write hip ?_ (by rw [himage]) rfl (fun _ _ => ⟨rfl, htype⟩) (fun _ => ⟨hip, hvalid⟩)
  rw [himage]
  exact h.wellFormed.attrs hd htype major minor nlink

lemma exec (h : FsInv sb fs) (devsw : Devsw) {e : FsEvent} (he : e.Enabled sb fs) :
    Spec (e.exec sb devsw fs) (fun fs' => FsInv sb fs') (fun e => e ≠ .freeingFreeBlock) := by
  have hmap : ∀ {α : Type} {r : Except FsPanic (α × Fs)},
      Spec r (fun r => FsInv sb r.2) (fun e => e ≠ .freeingFreeBlock) →
      Spec (r.map Prod.snd) (fun fs' => FsInv sb fs') (fun e => e ≠ .freeingFreeBlock) := by
    intro α r hr
    cases r <;> exact hr
  cases e with
  | iget inum =>
    refine hmap ((h.iget he).mono (fun _ h => h) ?_)
    rintro e rfl
    decide
  | ialloc type => exact hmap (h.ialloc type)
  | idup ip => exact h.idup he
  | ilock p ip => exact h.ilock p
  | iunlock p ip => exact h.iunlock p
  | iput ip => exact h.iput he.1 he.2
  | readi p ip off n =>
    obtain ⟨bytes, hret⟩ := h.readi devsw he off n
    apply hmap
    rw [hret]
    exact h
  | writei p ip src off n =>
    refine hmap ((h.writei devsw he src off n).mono (fun _ h => h) ?_)
    rintro e rfl
    decide
  | update p ip major minor nlink => exact h.update he major minor nlink

end FsInv

/-! ### Runs -/

def fsSystem (sb : FsSuperblock) (devsw : Devsw) : System Fs FsEvent where
  init fs := (fs.content.image sb).WellFormed sb ∧ ∀ ip, (fs.icache ip).ref = 0 ∧ (fs.icache ip).lock = none
  step e fs := if e.Enabled sb fs then (e.exec sb devsw fs).toOption else none

variable {sb : FsSuperblock} {devsw : Devsw} {fs : Fs}

lemma fsInv_of_reachable (hfs : Reachable (fsSystem sb devsw) fs) : FsInv sb fs := by
  apply Reach.invariant (FsInv sb) _ _ hfs
  · rintro fs ⟨hwf, hempty⟩
    have hzero : ∀ {ip}, ¬ 0 < (fs.icache ip).ref := by
      intro ip
      rw [(hempty ip).1]
      exact Nat.lt_irrefl 0
    refine ⟨hwf, ?_, ?_, ?_, ?_⟩
    · intro ip _ hip
      exact absurd hip hzero
    · intro ip hip
      exact absurd hip hzero
    · intro ip hip
      exact absurd hip hzero
    · intro ip hlock
      exact absurd (hempty ip).2 hlock
  · intro fs e fs' h _ hstep
    obtain ⟨he, hexec⟩ := Option.ite_none_right_eq_some.mp hstep
    have hspec := h.exec devsw he
    cases hret : e.exec sb devsw fs with
    | ok r =>
      rw [hret] at hexec hspec
      cases hexec
      exact hspec
    | error e =>
      rw [hret] at hexec
      cases hexec

end Xv6Bfs
