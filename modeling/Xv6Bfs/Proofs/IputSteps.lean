import Xv6Bfs.Proofs.IputRefs

/-!
# The steps of the inode cache

Every step of a process keeps the invariant.
-/

namespace Xv6Bfs

open Function Option Outcome Transition

namespace InodeRun

variable {sb : FsSuperblock} {s s' : InodeRun} {p : Pid} {ip : Fin NINODE}

lemma Inv.disk_eq (h : Inv sb s) (hpos : 0 < (s.fs.icache ip).ref) :
    s.fs.content.dinode sb (s.fs.icache ip).inum = s.disk sb (s.fs.icache ip).inum :=
  (Content.image_inode (h.range ip hpos)).symm

lemma Inv.ilock_step (h : Inv sb s) {l : InodeLabel} (hpc : s.pc p = .inside ip l) (hl : l.puts = false)
    (hstep : s.inside sb p ip l = some s') : Inv sb s' := by
  obtain ⟨b, hb, -⟩ := h.holds p ip l hpc
  have hpos := h.ref_pos hb
  cases l with
  | ilockSleep =>
    obtain ⟨hnone, hs'⟩ := ite_none_right_eq_some.mp hstep
    cases hs'
    exact h.moved_acquire hpc hnone id rfl rfl rfl nofun
  | ilockTest =>
    obtain ⟨-, hfits⟩ := h.inside_locked hpc rfl
    rw [inside, goto_eq_moved s p ip] at hstep
    cases hstep
    split
    · rename_i hvalid
      exact h.moved_locked hpc rfl rfl rfl rfl ⟨hvalid, hfits hvalid⟩ rfl nofun nofun nofun
    · rename_i hvalid
      exact h.moved_locked hpc rfl rfl rfl rfl (by simpa [Fits] using hvalid) rfl nofun nofun nofun
  | ilockRead =>
    obtain ⟨-, hfits⟩ := h.inside_locked hpc rfl
    cases hstep
    exact h.moved_locked hpc rfl rfl rfl rfl ⟨hfits, .inr (h.disk_eq hpos)⟩ rfl nofun nofun (fun _ => h.disk_eq hpos)
  | ilockValid =>
    obtain ⟨-, -, hcopy⟩ := h.inside_locked hpc rfl
    obtain ⟨htype, hs'⟩ := ite_none_left_eq_some.mp hstep
    cases hs'
    have hcopy := hcopy.resolve_left htype
    exact h.moved_locked hpc rfl rfl rfl rfl ⟨rfl, hcopy, hcopy ▸ htype⟩ rfl nofun nofun nofun
  | ilockReturn =>
    obtain ⟨hlock, hfits⟩ := h.inside_locked hpc rfl
    cases hstep
    have h' := h.settle (p := p) (i := (s.fs.icache ip).inum) (by rw [hpc]; nofun)
    rw [goto_eq_moved _ p ip]
    apply h'.moved
    constructor
    · exact ⟨b, by rwa [settle_refs], nofun⟩
    · rfl
    · rfl
    · exact .inr ⟨_, by rw [settle_pc, hpc]⟩
    · exact .inl rfl
    · intro q hq
      rw [settle_fs, hlock] at hq
      exact (Option.some.inj hq).symm
    · intro q hq
      rw [settle_fs, hlock] at hq
      exact (Option.some.inj hq).symm
    · exact h'.wellFormed
    · exact fun _ _ => rfl
    · rw [settle_fs, hlock]
      nofun
    · intro _
      rw [settle_fs]
      exact hfits
    · nofun
    · nofun
    · intro l hl' hfin
      rw [settle_pc, hpc] at hl'
      cases hl'
      cases hfin
    · exact fun hfree => .inl hfree
    · intro q type hborn
      rw [settle_fs] at hborn
      exact ⟨rfl, fun hq => absurd hq (born_settle hborn)⟩
  | _ => cases hl

lemma Inv.iputTrunc_step (h : Inv sb s) (hpc : s.pc p = .inside ip .iputTrunc)
    (hstep : s.inside sb p ip .iputTrunc = some s') :
    Inv sb s' ∧ ∃ c, s' = s.moved p ip { s.fs.icache ip with addrs := fun _ => 0, size := 0 } c (.inside ip .iputType) ∧
      c.image sb = (s.fs.content.image sb).truncate (s.fs.icache ip).inum (s.fs.icache ip).toDinode := by
  obtain ⟨b, hb, hputs⟩ := h.holds p ip _ hpc
  obtain rfl := hputs rfl
  have hpos := h.ref_pos hb
  have hrange := h.range ip hpos
  obtain ⟨hlock, hvalid, ⟨hcopy, htype⟩, hnlink⟩ := h.inside_locked hpc rfl
  have hsole := h.sole p ip _ hpc rfl
  have hown := h.wellFormed.owned_patch (i := (s.fs.icache ip).inum)
  change (s.fs.icache ip).toDinode = (s.fs.content.image sb).inode (s.fs.icache ip).inum at hcopy
  rw [← hcopy] at hown
  have htype' : (s.fs.icache ip).type ≠ 0 := by
    rw [hcopy]
    exact htype
  obtain ⟨c, hret, himage⟩ := exists_itrunc hrange hown htype'
  rw [inside, hret] at hstep
  cases hstep
  refine ⟨?_, c, rfl, himage⟩
  have hdisk : (c.image sb).inode (s.fs.icache ip).inum =
      { (s.fs.icache ip).toDinode with addrs := fun _ => 0, size := 0 } := by
    rw [himage]
    exact update_self ..
  refine h.moved_write (d := { (s.fs.icache ip).toDinode with addrs := fun _ => 0, size := 0 }) hb hlock
    (.inr ⟨_, hpc⟩) (.inr ⟨_, rfl⟩) ?_ ?_ ?_ ?_ ?_ ?_ hsole.2.2
  · rw [himage, hcopy]
    exact h.wellFormed.truncated htype
  · intro j hj
    rw [himage]
    exact update_of_ne hj ..
  · rw [InodePc.label_inside, hdisk]
    refine ⟨hvalid, ⟨rfl, htype'⟩, ?_, rfl, rfl⟩
    dsimp only
    rw [hcopy]
    exact hnlink
  · rintro _ ⟨rfl⟩ _
    exact hsole
  · intro l hl
    rw [hpc] at hl
    cases hl
    rfl
  · rw [hdisk]
    exact fun hzero => absurd hzero htype'

lemma Inv.iputUpdate_step (h : Inv sb s) (hpc : s.pc p = .inside ip .iputUpdate)
    (hstep : s.inside sb p ip .iputUpdate = some s') :
    Inv sb s' ∧ s' = s.moved p ip (s.fs.icache ip)
      (iupdate sb (s.fs.icache ip).inum (s.fs.icache ip).toDinode s.fs.content) (.inside ip .iputInvalid) := by
  obtain ⟨b, hb, hputs⟩ := h.holds p ip _ hpc
  obtain rfl := hputs rfl
  have hpos := h.ref_pos hb
  obtain ⟨hlock, -, htype, hcopy, -, hsize, haddrs⟩ := h.inside_locked hpc rfl
  have hsole := h.sole p ip _ hpc rfl
  have himage := Content.image_iupdate (c := s.fs.content) (h.range ip hpos) (s.fs.icache ip).toDinode
  have hs' : s' = s.moved p ip (s.fs.icache ip)
      (iupdate sb (s.fs.icache ip).inum (s.fs.icache ip).toDinode s.fs.content) (.inside ip .iputInvalid) := by
    cases hstep
    unfold goto InodeRun.moved
    rw [update_eq_self]
  refine ⟨?_, hs'⟩
  rw [hs']
  refine h.moved_write (d := (s.fs.icache ip).toDinode) hb hlock (.inr ⟨_, hpc⟩) (.inr ⟨_, rfl⟩) ?_ ?_ ?_ ?_ ?_ ?_
    hsole.2.2
  · rw [himage]
    apply h.wellFormed.patch
    · intro t
      have hnone : ∀ {d : Dinode} {data : Blockno → Block}, d.addrs = (fun _ => 0) → d.ref data t = none := by
        intro d data hd
        cases t <;> simp only [Dinode.ref, hd, nonzero] <;> rfl
      have hold : (s.fs.content.image sb).ref ((s.fs.icache ip).inum, t) = none :=
        (if_neg htype).trans (hnone haddrs)
      rw [hold]
      simp only [Image.ref, Image.patch, update_self, hcopy, if_true]
    · intro hfile
      exact absurd (by rw [hcopy]) hfile.1
  · intro j hj
    rw [himage]
    exact update_of_ne hj ..
  · rw [InodePc.label_inside]
    trivial
  · rintro _ ⟨rfl⟩ hl
    cases hl
  · intro l hl
    rw [hpc] at hl
    cases hl
    rfl
  · exact fun _ => ⟨hsole, _, rfl, rfl⟩

lemma Inv.iput_step (h : Inv sb s) {l : InodeLabel} (hpc : s.pc p = .inside ip l) (hl : l.puts = true)
    (hstep : s.inside sb p ip l = some s') : Inv sb s' := by
  cases l with
  | iputSleep =>
    obtain ⟨hnone, hs'⟩ := ite_none_right_eq_some.mp hstep
    cases hs'
    exact h.moved_acquire hpc hnone id rfl rfl rfl nofun
  | iputTest =>
    obtain ⟨-, hfits⟩ := h.inside_locked hpc rfl
    rw [inside, goto_eq_moved s p ip] at hstep
    cases hstep
    split
    · rename_i hunlinked
      have hclean := hfits hunlinked.1
      exact h.moved_locked hpc rfl rfl rfl rfl ⟨hunlinked.1, hclean, hclean.1 ▸ hunlinked.2⟩ rfl nofun nofun nofun
    · exact h.moved_locked hpc rfl rfl rfl rfl hfits rfl nofun nofun nofun
  | iputRef =>
    obtain ⟨-, hfits⟩ := h.inside_locked hpc rfl
    rw [inside, goto_eq_moved s p ip] at hstep
    cases hstep
    split
    · rename_i href
      exact h.moved_locked hpc rfl rfl rfl rfl hfits rfl (fun _ => h.sole_of_ref hpc href) nofun nofun
    · exact h.moved_locked hpc rfl rfl rfl rfl (fun _ => hfits.2.1) rfl nofun nofun nofun
  | iputTrunc => exact (h.iputTrunc_step hpc hstep).1
  | iputType =>
    obtain ⟨-, hvalid, ⟨hcopy, htype⟩, hrest⟩ := h.inside_locked hpc rfl
    cases hstep
    refine h.moved_locked hpc rfl rfl rfl rfl ⟨hvalid, htype, ?_, hrest⟩ rfl (fun _ => h.sole p ip _ hpc rfl) nofun nofun
    rw [← hcopy]
  | iputUpdate => exact (h.iputUpdate_step hpc hstep).1
  | iputInvalid =>
    cases hstep
    exact h.moved_locked hpc rfl rfl rfl rfl nofun rfl nofun (fun _ => rfl) nofun
  | iputUnlock =>
    obtain ⟨hlock, hfits⟩ := h.inside_locked hpc rfl
    cases hstep
    exact h.moved (Move.of_inside h hpc rfl rfl (.inr hlock) (.inl rfl) (fun _ => hfits) nofun nofun rfl nofun
      (fun _ => rfl) nofun)
  | iputDrop =>
    obtain ⟨b, hb, hputs⟩ := h.holds p ip _ hpc
    obtain rfl := hputs rfl
    rw [inside, decide_eq_true hb] at hstep
    cases hstep
    exact h.dropped hpc
  | _ => cases hl

/-! ### The beginning of a call -/

def Enters (s : InodeRun) (p : Pid) : InodePc → Prop
  | .ialloc type _ => type ≠ 0
  | .inside ip .ilockSleep => ∃ b, ⟨p, ip, b⟩ ∈ s.refs
  | .inside ip .iputSleep => ⟨p, ip, true⟩ ∈ s.refs ∧ ∀ type, s.born (s.fs.icache ip).inum ≠ some (p, type)
  | _ => False

lemma Inv.goto (h : Inv sb s) {m : InodePc} (hsrc : s.pc p = .idle ∨ ∃ type j, s.pc p = .ialloc type j)
    (hm : s.Enters p m) : Inv sb (s.goto p m) := by
  have hself : (s.goto p m).pc p = m := update_self ..
  have hnot : ∀ {jp l}, s.pc p ≠ .inside jp l := by
    intro jp l hq
    rw [hq] at hsrc
    obtain hidle | ⟨_, _, hialloc⟩ := hsrc
    · cases hidle
    · cases hialloc
  refine h.change (p := p) ⟨h.wellFormed, h.count, h.unique, h.range, fun _ => .inl ⟨_, rfl, id⟩, fun _ _ => rfl,
    fun q hq => update_of_ne hq .., fun _ _ _ => hnot, ?_, ?_, fun _ _ _ hmem _ => hmem, fun _ _ => rfl, ?_,
    fun _ => .inl, fun _ _ => id, fun _ _ _ => .inl, fun _ _ _ _ _ => id, ?_, ?_⟩
  · -- a process that locks an inode again waits for itself
    intro jp x d hfits
    rw [hself]
    cases m with
    | idle | iget _ => exact hm.elim
    | ialloc _ _ => exact hfits
    | inside ip l =>
      rw [InodePc.label]
      split
      · cases l <;> first | exact hfits | exact hm.elim
      · exact hfits
  · rw [hself]
    rintro jp l rfl
    cases l with
    | ilockSleep =>
      obtain ⟨b, hb⟩ := hm
      exact ⟨rfl, rfl, ⟨b, hb, by simp [InodeLabel.puts]⟩, by simp [InodeLabel.puts]⟩
    | iputSleep => exact ⟨rfl, rfl, ⟨true, hm.1, fun _ => rfl⟩, fun _ => hm.2⟩
    | _ => exact hm.elim
  · rintro r - - ⟨⟨l, hl, -⟩, -⟩ rfl
    exact hnot hl
  · rw [hself]
    rintro i rfl
    exact hm.elim
  · rw [hself]
    rintro type i rfl
    exact hm

lemma gets_of_iget {i : ℕ} {fs : Fs} (hret : s.fs.iget i = .ok (ip, fs)) :
    ∃ x, s.Gets i ip x ∧ fs = s.fs.setInode ip x := by
  unfold Fs.iget at hret
  split at hret
  · rename_i jp hfind
    have hjp := List.find?_some hfind
    rw [Bool.and_eq_true, decide_eq_true_eq, decide_eq_true_eq] at hjp
    cases hret
    exact ⟨_, .inl ⟨hjp.1, hjp.2, rfl⟩, rfl⟩
  · rename_i hnone
    split at hret
    · rename_i jp hfind
      have hjp := List.find?_some hfind
      rw [decide_eq_true_eq] at hjp
      cases hret
      refine ⟨_, .inr ⟨hjp, ?_, rfl⟩, rfl⟩
      intro kp hkp heq
      have := List.find?_eq_none.mp hnone kp (List.mem_finRange kp)
      simp [hkp, heq] at this
    · cases hret

lemma exists_added {i : ℕ} {b : Bool} (hget : (s.get p i b).map (·.goto p .idle) = some s') :
    ∃ ip x, s.Gets i ip x ∧ s' = s.added p ip x b := by
  unfold InodeRun.get at hget
  split at hget
  · rename_i ip fs hret
    obtain ⟨x, hx, rfl⟩ := gets_of_iget hret
    cases hget
    exact ⟨ip, x, hx, rfl⟩
  · cases hget

lemma goto_self (hpc : s.pc p = .idle) : s.goto p .idle = s := by
  unfold InodeRun.goto
  rw [← hpc, update_eq_self]

section Idle

variable (h : Inv sb s) (hpc : s.pc p = .idle)

include h hpc

lemma Inv.of_named (hb : ⟨p, ip, true⟩ ∈ s.refs) :
    (s.disk sb (s.fs.icache ip).inum).type ≠ 0 ∧
      (∀ q jp l, s.pc q = .inside jp l → l.sole = true → (s.fs.icache jp).inum ≠ (s.fs.icache ip).inum) ∧
      ∀ q type, s.born (s.fs.icache ip).inum = some (q, type) → q = p := by
  have hpos := h.ref_pos hb
  have hnot : ¬ Leaving s.pc s.refs ⟨p, ip, true⟩ := by
    rintro ⟨⟨l, hl, -⟩, -⟩
    rw [hpc] at hl
    cases hl
  refine ⟨?_, ?_, ?_⟩
  · intro hfree
    exact (h.free ip hpos hfree _ hb rfl rfl).elim nofun hnot
  · intro q jp l hq hl heq
    obtain ⟨b', hb', -⟩ := h.holds q jp l hq
    obtain rfl := h.unique jp ip (h.ref_pos hb') hpos heq
    obtain ⟨rfl, -⟩ := Reference.mk.inj ((h.sole q jp l hq hl).1 _ hb rfl rfl)
    rw [hpc] at hq
    cases hq
  · intro q type hborn
    obtain hq | hleaving := (h.born _ _ _ hborn).refs ip hpos rfl _ hb rfl rfl
    · exact Option.some.inj hq
    · exact absurd hleaving hnot

lemma Inv.of_use (hb : ⟨p, ip, true⟩ ∈ s.refs) (hlock : (s.fs.icache ip).lock = some p) :
    s.born (s.fs.icache ip).inum = none ∧ (s.fs.icache ip).valid = true ∧
      (s.fs.icache ip).toDinode = s.disk sb (s.fs.icache ip).inum ∧ (s.fs.icache ip).type ≠ 0 := by
  have hfits := (h.locked ip p hlock).2
  rw [hpc] at hfits
  obtain ⟨hvalid, hcopy, htype⟩ := hfits
  refine ⟨?_, hvalid, hcopy, by rwa [hcopy]⟩
  cases hborn : s.born (s.fs.icache ip).inum with
  | none => rfl
  | some o =>
    obtain rfl := (h.of_named hpc hb).2.2 o.1 o.2 hborn
    obtain ⟨l, hl⟩ := (h.born _ _ _ hborn).lock ip (h.ref_pos hb) rfl hlock
    rw [hpc] at hl
    cases hl

lemma Inv.moved_use (hb : ⟨p, ip, true⟩ ∈ s.refs) (hlock : (s.fs.icache ip).lock = some p) {d : Dinode} {c : Content}
    (hwf : (c.image sb).WellFormed sb)
    (hinode : (c.image sb).inode = update (s.fs.content.image sb).inode (s.fs.icache ip).inum d)
    (htype : d.type = (s.fs.icache ip).type) : Inv sb { s with fs := s.fs.setDinode ip d c } := by
  obtain ⟨hborn, hvalid, hcopy, htype₀⟩ := h.of_use hpc hb hlock
  have hd : (c.image sb).inode (s.fs.icache ip).inum = d := by
    rw [hinode, update_self]
  have hne : d.type ≠ 0 := by rwa [htype]
  have hmoved := h.moved_write (d := d) (m := .idle) hb hlock (.inl hpc) (.inl rfl) hwf ?_ ?_ nofun ?_ ?_ hborn
  · unfold InodeRun.moved at hmoved
    rw [← hpc, update_eq_self] at hmoved
    exact hmoved
  · intro j hj
    rw [hinode]
    exact update_of_ne hj ..
  · rw [hd]
    exact ⟨hvalid, rfl, hne⟩
  · intro l hl
    rw [hpc] at hl
    cases hl
  · rw [hd]
    exact fun hzero => absurd hzero hne

lemma Inv.iunlock (hlock : (s.fs.icache ip).lock = some p) :
    Inv sb { s with fs := s.fs.setInode ip { s.fs.icache ip with lock := none } } := by
  obtain ⟨⟨b, hb⟩, hfits⟩ := h.locked ip p hlock
  rw [hpc] at hfits
  have hmove : Move sb s p ip { s.fs.icache ip with lock := none } s.fs.content .idle := by
    constructor
    · exact ⟨b, hb, nofun⟩
    · rfl
    · rfl
    · exact .inl hpc
    · exact .inl rfl
    · exact fun q hq => Option.some.inj (hq.symm.trans hlock)
    · nofun
    · exact h.wellFormed
    · exact fun _ _ => rfl
    · exact fun _ _ => hfits.2
    · nofun
    · nofun
    · nofun
    · intro l hl
      rw [hpc] at hl
      cases hl
    · exact fun hfree => .inl hfree
    · exact fun q type hborn => ⟨rfl, fun _ => ⟨nofun, nofun, nofun⟩⟩
  have hmoved := h.moved hmove
  unfold InodeRun.moved at hmoved
  rw [← hpc, update_eq_self] at hmoved
  exact hmoved

lemma Inv.call_iget {i : ℕ} (hi : i < sb.ninodes) (hget : s.get p i (s.Linked sb i) = some s') : Inv sb s' := by
  have hidle : s'.pc p = .idle := by
    unfold InodeRun.get at hget
    split at hget
    · cases hget
      exact hpc
    · cases hget
  have hadded : (s.get p i (decide (s.Linked sb i))).map (·.goto p .idle) = some s' := by
    rw [hget, map_some, goto_self hidle]
  obtain ⟨ip, x, hx, rfl⟩ := exists_added hadded
  have hlinked : decide (s.Linked sb i) = true → (s.disk sb i).type ≠ 0 ∧ (s.disk sb i).nlink ≠ 0 := by
    intro hb
    have hlinked := of_decide_eq_true hb
    rwa [Linked, ← Content.image_inode hi] at hlinked
  refine h.added hx hi (.inl hpc) (fun hb => (hlinked hb).1) ?_ ?_
  · rintro hb q jp l hq hl rfl
    exact (hlinked hb).2 ((h.inside_locked hq (InodeLabel.critical_of_sole hl)).2.of_sole hl).2
  · intro hb q type hborn
    refine absurd ?_ (hlinked hb).2
    rw [(h.born _ _ _ hborn).disk]
    rfl

lemma Inv.call_writei (devsw : Devsw) (hb : ⟨p, ip, true⟩ ∈ s.refs) (hlock : (s.fs.icache ip).lock = some p)
    (src : List (BitVec 8)) (off n : BitVec 32) :
    Spec (s.fs.writei sb devsw ip src off n) (fun r => Inv sb { s with fs := r.2 }) (· = .ballocOutOfBlocks) := by
  obtain ⟨-, -, hcopy, htype⟩ := h.of_use hpc hb hlock
  unfold Fs.writei
  refine Spec.bind (writei_cases devsw h.wellFormed (h.range ip (h.ref_pos hb)) hcopy.symm htype src off n) ?_
  rintro ⟨r, d, c⟩ (⟨hsame, -⟩ | ⟨-, -, -, hsplice⟩)
  · obtain ⟨rfl, rfl⟩ := Prod.mk.inj hsame
    rwa [spec_ok, FsInv.setDinode_self]
  · refine h.moved_use hpc hb hlock hsplice.wellFormed hsplice.inode ?_
    dsimp only at hsplice
    rw [hsplice.attrs, hcopy]
    rfl

lemma Inv.call (devsw : Devsw) {e : InodeCall} (hnamed : s.Named (.call p e)) (hcall : s.call sb devsw p e = some s') :
    Inv sb s' := by
  cases e with
  | iget i =>
    obtain ⟨hi, hget⟩ := ite_none_right_eq_some.mp hcall
    exact h.call_iget hpc hi hget
  | ialloc type =>
    obtain ⟨htype, hs'⟩ := ite_none_right_eq_some.mp hcall
    cases hs'
    exact h.goto (.inl hpc) htype
  | idup ip b =>
    obtain ⟨hb, hs'⟩ := ite_none_right_eq_some.mp hcall
    have hpos := h.ref_pos hb
    have hadd : s' = s.added p ip { s.fs.icache ip with ref := (s.fs.icache ip).ref + 1 } b := by
      cases hs'
      unfold InodeRun.added
      rw [← hpc, update_eq_self]
      rfl
    rw [hadd]
    refine h.added (i := (s.fs.icache ip).inum) (.inl ⟨hpos, rfl, rfl⟩) (h.range ip hpos) (.inl hpc) ?_ ?_ ?_
    · rintro rfl
      exact (h.of_named hpc hb).1
    · rintro rfl
      exact (h.of_named hpc hb).2.1
    · rintro rfl
      exact (h.of_named hpc hb).2.2
  | ilock ip =>
    obtain ⟨hb, hs'⟩ := ite_none_right_eq_some.mp hcall
    cases hs'
    refine h.goto (.inl hpc) ?_
    obtain hb | hb := hb
    · exact ⟨true, hb⟩
    · exact ⟨false, hb⟩
  | iunlock ip =>
    rw [InodeRun.call] at hcall
    split at hcall
    · rename_i fs hret
      cases hcall
      unfold Fs.iunlock at hret
      dsimp only at hret
      split at hret
      · cases hret
      · rename_i hheld
        cases hret
        rw [not_or, not_not] at hheld
        exact h.iunlock hpc hheld.1
    · cases hcall
  | iput ip =>
    obtain ⟨-, hs'⟩ := ite_none_right_eq_some.mp hcall
    have hb : ⟨p, ip, true⟩ ∈ s.refs := hnamed
    cases hs'
    refine (h.settle (i := (s.fs.icache ip).inum) (by rw [hpc]; nofun)).goto (.inl (by rw [settle_pc, hpc])) ?_
    refine ⟨by rwa [settle_refs], ?_⟩
    intro type hborn
    rw [settle_fs] at hborn
    exact born_settle hborn rfl
  | writei ip src off n =>
    obtain ⟨⟨-, hlock⟩, hs'⟩ := ite_none_right_eq_some.mp hcall
    split at hs'
    · rename_i hret
      cases hs'
      exact (h.call_writei hpc devsw hnamed hlock src off n).of_ok hret
    · cases hs'
  | update ip major minor nlink =>
    obtain ⟨⟨-, hlock⟩, hs'⟩ := ite_none_right_eq_some.mp hcall
    have hb : ⟨p, ip, true⟩ ∈ s.refs := hnamed
    cases hs'
    obtain ⟨-, -, hcopy, htype⟩ := h.of_use hpc hb hlock
    have himage := Content.image_iupdate (c := s.fs.content) (h.range ip (h.ref_pos hb))
      { (s.fs.icache ip).toDinode with major := major, minor := minor, nlink := nlink }
    refine h.moved_use hpc hb hlock ?_ ?_ rfl
    · rw [himage]
      exact h.wellFormed.attrs hcopy.symm htype major minor nlink
    · rw [himage]

end Idle

/-- A step of a run in which references are used as they should keeps the invariant. -/
lemma Inv.step (h : Inv sb s) (devsw : Devsw) {e : InodeEvent} (hnamed : s.Named e) (hstep : step sb devsw e s = some s') :
    Inv sb s' := by
  cases e with
  | call p c =>
    obtain ⟨hpc, hcall⟩ := ite_none_right_eq_some.mp hstep
    exact h.call hpc devsw hnamed hcall
  | step p =>
    rw [InodeRun.step] at hstep
    split at hstep
    · cases hstep
    · rename_i type i hpc
      obtain ⟨hi, hround⟩ := ite_none_right_eq_some.mp hstep
      split at hround
      · rename_i hfree
        cases hround
        rw [← Content.image_inode hi] at hfree
        exact h.marked hpc hi hfree
      · cases hround
        exact h.goto (.inr ⟨type, i, hpc⟩) (h.ialloc p type i hpc)
    · rename_i i hpc
      obtain ⟨ip, x, hx, rfl⟩ := exists_added hstep
      obtain ⟨type, hborn⟩ := h.iget p i hpc
      have hb := h.born i p type hborn
      refine h.added hx hb.range (.inr hpc) ?_ ?_ ?_
      · rw [hb.disk]
        exact fun _ => hb.type_ne
      · rintro - q jp l hq hl rfl
        have hnone := (h.sole q jp l hq hl).2.2
        rw [hborn] at hnone
        cases hnone
      · intro _ q type' hborn'
        rw [hborn] at hborn'
        cases hborn'
        rfl
    · rename_i ip l hpc
      cases hl : l.puts with
      | false => exact h.ilock_step hpc hl hstep
      | true => exact h.iput_step hpc hl hstep

end InodeRun

end Xv6Bfs
