import Xv6Bfs.Proofs.IputMoves

/-!
# Steps that change the references

A process gets an entry or drops it, begins a call, or allocates an inode.
-/

namespace Xv6Bfs

open Function Multiset

namespace InodeRun

variable {sb : FsSuperblock} {s : InodeRun} {p : Pid} {ip : Fin NINODE}

/-- A step of `p` that takes or drops a reference, begins a call or allocates an inode. The other processes stay where they are, and
an entry keeps what it holds unless it is recycled. -/
structure Change (sb : FsSuperblock) (s s' : InodeRun) (p : Pid) : Prop where
  wellFormed : (s'.fs.content.image sb).WellFormed sb
  count : ∀ ip, (s'.fs.icache ip).ref = s'.refs.countP (·.ip = ip)
  unique : ∀ ip jp, 0 < (s'.fs.icache ip).ref → 0 < (s'.fs.icache jp).ref →
    (s'.fs.icache ip).inum = (s'.fs.icache jp).inum → ip = jp
  range : ∀ ip, 0 < (s'.fs.icache ip).ref → (s'.fs.icache ip).inum < sb.ninodes
  entry : ∀ ip, (∃ n, s'.fs.icache ip = { s.fs.icache ip with ref := n } ∧ (0 < n → 0 < (s.fs.icache ip).ref)) ∨
    (s.fs.icache ip).ref = 0 ∧ (s'.fs.icache ip).lock = none ∧ (s'.fs.icache ip).valid = false
  disk : ∀ i, (s.disk sb i).type ≠ 0 → s'.disk sb i = s.disk sb i
  pc : ∀ q, q ≠ p → s'.pc q = s.pc q
  outside : ∀ ip l, (s.fs.icache ip).lock = some p → s.pc p ≠ .inside ip l
  label : ∀ ip x d, Fits x d none → Fits x d ((s'.pc p).label ip)
  inside : ∀ ip l, s'.pc p = .inside ip l → l.critical = false ∧ l.sole = false ∧
    (∃ b, ⟨p, ip, b⟩ ∈ s'.refs ∧ (l.puts = true → b = true)) ∧
    (l.puts = true → ∀ type, s'.born (s'.fs.icache ip).inum ≠ some (p, type))
  kept : ∀ q ip b, ⟨q, ip, b⟩ ∈ s.refs → (q = p → (s.fs.icache ip).lock = some p) → ⟨q, ip, b⟩ ∈ s'.refs
  counts : ∀ r : Reference, r.pid ≠ p → s'.refs.count r = s.refs.count r
  leaves : ∀ r ∈ s'.refs, r.named = true → Leaving s.pc s.refs r → r.pid ≠ p
  new : ∀ r ∈ s'.refs, r ∈ s.refs ∨ r.pid = p ∧ (r.named = true → (s'.disk sb (s'.fs.icache r.ip).inum).type ≠ 0 ∧
    (∀ q type, s'.born (s'.fs.icache r.ip).inum = some (q, type) → q = p) ∧
    ∀ q l, s.pc q = .inside r.ip l → l.sole = false)
  keep : ∀ i o, s.born i = some o → s'.born i = some o
  born : ∀ i q type, s'.born i = some (q, type) → s.born i = some (q, type) ∨ Born sb s' i q type
  unborn : ∀ q ip l, s.pc q = .inside ip l → l.sole = true → s.born (s.fs.icache ip).inum = none →
    s'.born (s.fs.icache ip).inum = none
  iget : ∀ i, s'.pc p = .iget i → ∃ type, s'.born i = some (p, type)
  ialloc : ∀ type i, s'.pc p = .ialloc type i → type ≠ 0

section Change

variable {s' : InodeRun}

lemma Change.entry_of_pos (hc : Change sb s s' p) (hpos : 0 < (s.fs.icache ip).ref) :
    ∃ n, s'.fs.icache ip = { s.fs.icache ip with ref := n } := by
  obtain ⟨n, hn, -⟩ | ⟨hzero, -⟩ := hc.entry ip
  · exact ⟨n, hn⟩
  · omega

lemma Change.pos_of_lock (hc : Change sb s s' p) {q : Pid} (hlock : (s'.fs.icache ip).lock = some q) :
    ∃ n, s'.fs.icache ip = { s.fs.icache ip with ref := n } ∧ (s.fs.icache ip).lock = some q := by
  obtain ⟨n, hn, -⟩ | ⟨-, hnone, -⟩ := hc.entry ip
  · rw [hn] at hlock
    exact ⟨n, hn, hlock⟩
  · rw [hnone] at hlock
    cases hlock

lemma Change.inside_cases (hc : Change sb s s' p) {q : Pid} {l : InodeLabel} (hq : s'.pc q = .inside ip l) :
    q = p ∨ q ≠ p ∧ s.pc q = .inside ip l := by
  by_cases hqp : q = p
  · exact .inl hqp
  · exact .inr ⟨hqp, hc.pc q hqp ▸ hq⟩

lemma Change.onlyLeaving (hc : Change sb s s' p) {owner : Option Pid} (hold : s.OnlyLeaving owner ip)
    (hnew : (s'.disk sb (s'.fs.icache ip).inum).type ≠ 0 →
      (∀ q type, s'.born (s'.fs.icache ip).inum = some (q, type) → q = p) → owner = some p) :
    s'.OnlyLeaving owner ip := by
  intro r hr hip hnamed
  obtain hr₀ | ⟨hrp, hfine⟩ := hc.new r hr
  · refine (hold r hr₀ hip hnamed).imp_right ?_
    intro hleaving
    have hrp := hc.leaves r hr hnamed hleaving
    obtain ⟨⟨l, hl, hfin⟩, hcount⟩ := hleaving
    exact ⟨⟨l, (hc.pc _ hrp).trans hl, hfin⟩, (hc.counts r hrp).trans hcount⟩
  · obtain ⟨htype, hborn, -⟩ := hfine hnamed
    rw [hip] at htype hborn
    exact .inl (hrp ▸ hnew htype hborn)

lemma Change.onlyLeaving_of_pos (hc : Change sb s s' p) (h : Inv sb s) {owner : Option Pid}
    (hpos : 0 < (s'.fs.icache ip).ref)
    (hold : 0 < (s.fs.icache ip).ref → (s'.fs.icache ip).inum = (s.fs.icache ip).inum → s.OnlyLeaving owner ip)
    (hnew : (s'.disk sb (s'.fs.icache ip).inum).type ≠ 0 →
      (∀ q type, s'.born (s'.fs.icache ip).inum = some (q, type) → q = p) → owner = some p) :
    s'.OnlyLeaving owner ip := by
  refine hc.onlyLeaving ?_ hnew
  obtain ⟨n, hn, hn₀⟩ | ⟨hzero, -⟩ := hc.entry ip
  · rw [hn] at hpos
    exact hold (hn₀ hpos) (by rw [hn])
  · intro r hr hip
    have hr := h.ref_pos hr
    rw [hip] at hr
    omega

lemma Born.change (hc : Change sb s s' p) (h : Inv sb s) {i : ℕ} {q : Pid} {type : BitVec 16}
    (hborn : s.born i = some (q, type)) : Born sb s' i q type := by
  have hb := h.born i q type hborn
  have hold := hc.keep i _ hborn
  have hinside : ∀ {ip l}, q ≠ p → (s'.fs.icache ip).inum = i → s.pc q = .inside ip l →
      0 < (s.fs.icache ip).ref ∧ (s.fs.icache ip).inum = i ∧ (s'.fs.icache ip).toDinode = (s.fs.icache ip).toDinode := by
    intro ip l _ hinum hq
    obtain ⟨b, hb, -⟩ := h.holds q ip l hq
    obtain ⟨n, hn⟩ := hc.entry_of_pos (h.ref_pos hb)
    rw [hn] at hinum
    exact ⟨h.ref_pos hb, hinum, by rw [hn]⟩
  refine ⟨hb.range, hb.type_ne, ?_, ?_, ?_, ?_, ?_⟩
  · rw [hc.disk i (by rw [hb.disk]; exact hb.type_ne), hb.disk]
  · intro ip hpos hinum
    refine hc.onlyLeaving_of_pos h hpos (fun hpos₀ heq => hb.refs ip hpos₀ (heq ▸ hinum)) ?_
    intro _ howner
    rw [hinum] at howner
    rw [howner q type hold]
  · intro ip l _ hinum hq
    obtain rfl | ⟨hqp, hq⟩ := hc.inside_cases hq
    · obtain ⟨-, -, -, hputs⟩ := hc.inside ip l hq
      rw [hinum] at hputs
      exact Bool.eq_false_iff.mpr fun hl => hputs hl type hold
    · obtain ⟨hpos₀, hinum₀, -⟩ := hinside hqp hinum hq
      exact hb.ilock ip l hpos₀ hinum₀ hq
  · intro ip _ hinum hlock
    obtain ⟨n, hn, hlock⟩ := hc.pos_of_lock hlock
    rw [hn] at hinum
    obtain ⟨l, hl⟩ := hb.lock ip (h.ref_pos_of_lock hlock) hinum hlock
    have hqp : q ≠ p := by
      rintro rfl
      exact hc.outside ip l hlock hl
    exact ⟨l, (hc.pc q hqp).trans hl⟩
  · intro ip _ hinum hq
    obtain rfl | ⟨hqp, hq⟩ := hc.inside_cases hq
    · cases (hc.inside ip _ hq).1
    · obtain ⟨hpos₀, hinum₀, hcopy⟩ := hinside hqp hinum hq
      rw [hcopy]
      exact hb.read ip hpos₀ hinum₀ hq

lemma Inv.change (h : Inv sb s) (hc : Change sb s s' p) : Inv sb s' := by
  refine ⟨hc.wellFormed, hc.count, hc.unique, hc.range, ?_, ?_, ?_, ?_, ?_, ?_, ?_, ?_, ?_⟩
  · intro ip hpos hlock hvalid
    obtain ⟨n, hn, hn₀⟩ | ⟨-, -, hinvalid⟩ := hc.entry ip
    · rw [hn] at hpos hlock hvalid ⊢
      have hclean := h.unlocked ip (hn₀ hpos) hlock hvalid
      rw [hc.disk _ hclean.2]
      exact hclean
    · rw [hinvalid] at hvalid
      cases hvalid
  · intro ip q hlock
    obtain ⟨n, hn, hlock⟩ := hc.pos_of_lock hlock
    obtain ⟨⟨b, hb⟩, hfits⟩ := h.locked ip q hlock
    refine ⟨⟨b, hc.kept q ip b hb (fun hqp => hqp ▸ hlock)⟩, ?_⟩
    have hlabel : Fits (s.fs.icache ip) (s.disk sb (s.fs.icache ip).inum) ((s'.pc q).label ip) := by
      by_cases hqp : q = p
      · subst hqp
        have hnone : (s.pc q).label ip = none := by
          cases hpc : s.pc q with
          | inside jp l =>
            refine if_neg ?_
            rintro rfl
            exact hc.outside jp l hlock hpc
          | _ => rfl
        rw [hnone] at hfits
        exact hc.label ip _ _ hfits
      · rwa [hc.pc q hqp]
    rw [hn]
    by_cases htype : (s.disk sb (s.fs.icache ip).inum).type = 0
    · exact hlabel.of_free htype _
    · change Fits (s.fs.icache ip) (s'.disk sb (s.fs.icache ip).inum) _
      rwa [hc.disk _ htype]
  · intro q ip l hq hl
    obtain rfl | ⟨-, hq⟩ := hc.inside_cases hq
    · rw [(hc.inside ip l hq).1] at hl
      cases hl
    · have hlock := h.critical q ip l hq hl
      obtain ⟨n, hn⟩ := hc.entry_of_pos (h.ref_pos_of_lock hlock)
      rwa [hn]
  · intro q ip l hq
    obtain rfl | ⟨hqp, hq⟩ := hc.inside_cases hq
    · exact (hc.inside ip l hq).2.2.1
    · obtain ⟨b, hb, hputs⟩ := h.holds q ip l hq
      exact ⟨b, hc.kept q ip b hb (fun heq => absurd heq hqp), hputs⟩
  · intro q ip l hq hl
    obtain rfl | ⟨hqp, hq⟩ := hc.inside_cases hq
    · rw [(hc.inside ip l hq).2.1] at hl
      cases hl
    · obtain ⟨hrefs, hcount, hborn⟩ := h.sole q ip l hq hl
      obtain ⟨b, hb, -⟩ := h.holds q ip l hq
      obtain ⟨n, hn⟩ := hc.entry_of_pos (h.ref_pos hb)
      refine ⟨?_, (hc.counts _ hqp).trans hcount, ?_⟩
      · intro r hr hip hnamed
        obtain hr | ⟨-, hfine⟩ := hc.new r hr
        · exact hrefs r hr hip hnamed
        · rw [← hip] at hq
          rw [(hfine hnamed).2.2 q l hq] at hl
          cases hl
      · rw [hn]
        exact hc.unborn q ip l hq hl hborn
  · intro ip hpos hfree
    refine hc.onlyLeaving_of_pos h hpos ?_ (fun htype => absurd hfree htype)
    intro hpos₀ hinum
    apply h.free ip hpos₀
    by_contra htype
    rw [hinum, hc.disk _ htype] at hfree
    exact htype hfree
  · intro i q type hborn
    obtain hborn | hb := hc.born i q type hborn
    · exact Born.change hc h hborn
    · exact hb
  · intro q i hq
    by_cases hqp : q = p
    · exact hqp ▸ hc.iget i (hqp ▸ hq)
    · obtain ⟨type, htype⟩ := h.iget q i (hc.pc q hqp ▸ hq)
      exact ⟨type, hc.keep i _ htype⟩
  · intro q type i hq
    by_cases hqp : q = p
    · exact hc.ialloc type i (hqp ▸ hq)
    · exact h.ialloc q type i (hc.pc q hqp ▸ hq)

end Change

def added (s : InodeRun) (p : Pid) (ip : Fin NINODE) (x : Inode) (b : Bool) : InodeRun :=
  { s with fs := s.fs.setInode ip x, refs := ⟨p, ip, b⟩ ::ₘ s.refs, pc := update s.pc p .idle }

def Gets (s : InodeRun) (i : ℕ) (ip : Fin NINODE) (x : Inode) : Prop :=
  0 < (s.fs.icache ip).ref ∧ (s.fs.icache ip).inum = i ∧
      x = { s.fs.icache ip with ref := (s.fs.icache ip).ref + 1 } ∨
    (s.fs.icache ip).ref = 0 ∧ (∀ jp, 0 < (s.fs.icache jp).ref → (s.fs.icache jp).inum ≠ i) ∧
      x = { s.fs.icache ip with inum := i, ref := 1, valid := false }

section Added

variable {i : ℕ} {x : Inode} {b : Bool}

@[simp] lemma added_icache_self : (s.added p ip x b).fs.icache ip = x :=
  update_self ..

@[simp] lemma added_icache_of_ne {jp : Fin NINODE} (hjp : jp ≠ ip) : (s.added p ip x b).fs.icache jp = s.fs.icache jp :=
  update_of_ne hjp ..

lemma Gets.inum_eq (hx : s.Gets i ip x) : x.inum = i := by
  obtain ⟨-, hinum, rfl⟩ | ⟨-, -, rfl⟩ := hx
  · exact hinum
  · rfl

lemma Inv.added_cases (h : Inv sb s) (hx : s.Gets i ip x) (jp : Fin NINODE) :
    (∃ n, (s.added p ip x b).fs.icache jp = { s.fs.icache jp with ref := n } ∧ (0 < n → 0 < (s.fs.icache jp).ref)) ∨
      jp = ip ∧ (s.fs.icache ip).ref = 0 ∧ x.lock = none ∧ x.valid = false := by
  by_cases hjp : jp = ip
  · subst hjp
    obtain ⟨hold, -, rfl⟩ | ⟨hzero, -, rfl⟩ := hx
    · exact .inl ⟨_, added_icache_self, fun _ => hold⟩
    · refine .inr ⟨rfl, hzero, ?_, rfl⟩
      cases hlock : (s.fs.icache jp).lock with
      | none => rfl
      | some q =>
        have := h.ref_pos_of_lock hlock
        omega
  · exact .inl ⟨_, added_icache_of_ne hjp, id⟩

lemma Inv.added (h : Inv sb s) (hx : s.Gets i ip x) (hi : i < sb.ninodes) (hpc : s.pc p = .idle ∨ s.pc p = .iget i)
    (htype : b = true → (s.disk sb i).type ≠ 0)
    (hsole : b = true → ∀ q jp l, s.pc q = .inside jp l → l.sole = true → (s.fs.icache jp).inum ≠ i)
    (hborn : b = true → ∀ q type, s.born i = some (q, type) → q = p) : Inv sb (s.added p ip x b) := by
  have hnot : ∀ {jp l}, s.pc p ≠ .inside jp l := by
    intro jp l hq
    rw [hq] at hpc
    obtain hpc | hpc := hpc <;> cases hpc
  have hidle : (s.added p ip x b).pc p = .idle := update_self ..
  have hself : ((s.added p ip x b).fs.icache ip).inum = i := by
    rw [added_icache_self]
    exact hx.inum_eq
  have hcases := fun jp => h.added_cases (p := p) (b := b) hx jp
  have hrecycled : (s.fs.icache ip).ref = 0 → ∀ jp, 0 < (s.fs.icache jp).ref → (s.fs.icache jp).inum ≠ i := by
    intro hzero
    obtain ⟨hold, -, -⟩ | ⟨-, hother, -⟩ := hx
    · omega
    · exact hother
  refine h.change (p := p) ?_
  constructor
  · exact h.wellFormed
  · intro jp
    have hcount := h.count jp
    change _ = Multiset.countP _ (_ ::ₘ s.refs)
    by_cases hjp : jp = ip
    · subst hjp
      rw [added_icache_self, countP_cons_of_pos (p := fun r : Reference => r.ip = jp) _ rfl, ← hcount]
      obtain ⟨-, -, rfl⟩ | ⟨hzero, -, rfl⟩ := hx
      · rfl
      · rw [hzero]
    · rw [added_icache_of_ne hjp, countP_cons_of_neg (p := fun r : Reference => r.ip = jp) _ (Ne.symm hjp)]
      exact hcount
  · intro jp kp hj hk heq
    obtain ⟨n, hn, hj₀⟩ | ⟨rfl, hzero, -⟩ := hcases jp <;> obtain ⟨m, hm, hk₀⟩ | ⟨rfl, hzero', -⟩ := hcases kp
    · rw [hn] at hj heq
      rw [hm] at hk heq
      exact h.unique jp kp (hj₀ hj) (hk₀ hk) heq
    · rw [hn] at hj
      rw [hself, hn] at heq
      exact absurd heq (hrecycled hzero' jp (hj₀ hj))
    · rw [hm] at hk
      rw [hself, hm] at heq
      exact absurd heq.symm (hrecycled hzero kp (hk₀ hk))
    · rfl
  · intro jp hj
    obtain ⟨n, hn, hj₀⟩ | ⟨rfl, -⟩ := hcases jp
    · rw [hn] at hj ⊢
      exact h.range jp (hj₀ hj)
    · rwa [hself]
  · intro jp
    obtain hkept | ⟨rfl, hzero, hnone, hvalid⟩ := hcases jp
    · exact .inl hkept
    · rw [added_icache_self]
      exact .inr ⟨hzero, hnone, hvalid⟩
  · exact fun _ _ => rfl
  · exact fun q hq => update_of_ne hq ..
  · exact fun _ _ _ => hnot
  · rw [hidle]
    exact fun _ _ _ => id
  · rw [hidle]
    nofun
  · exact fun _ _ _ hmem _ => mem_cons_of_mem hmem
  · intro r hr
    have hne : r ≠ ⟨p, ip, b⟩ := fun heq => hr (congrArg Reference.pid heq)
    exact count_cons_of_ne hne ..
  · rintro r - - ⟨⟨l, hl, -⟩, -⟩ rfl
    exact hnot hl
  · intro r hr
    obtain rfl | hr := mem_cons.mp hr
    · refine .inr ⟨rfl, fun hb => ?_⟩
      dsimp only at hb ⊢
      rw [hself]
      refine ⟨htype hb, hborn hb, fun q l hq => Bool.eq_false_iff.mpr fun hl => ?_⟩
      obtain ⟨b', hb', -⟩ := h.holds q ip l hq
      have hpos := h.ref_pos hb'
      obtain ⟨n, hn, -⟩ | ⟨-, hzero, -⟩ := hcases ip
      · rw [hn] at hself
        exact hsole hb q ip l hq hl hself
      · exact hpos.ne' hzero
    · exact .inl hr
  · exact fun _ _ => id
  · exact fun _ _ _ => .inl
  · exact fun _ _ _ _ _ => id
  · rw [hidle]
    nofun
  · rw [hidle]
    nofun

end Added

def dropped (s : InodeRun) (p : Pid) (ip : Fin NINODE) : InodeRun :=
  { s.setInode ip { s.fs.icache ip with ref := (s.fs.icache ip).ref - 1 } with
    refs := s.refs.erase ⟨p, ip, true⟩
    pc := update s.pc p .idle }

lemma dropped_icache (s : InodeRun) (p : Pid) (ip jp : Fin NINODE) : ∃ n ≤ (s.fs.icache jp).ref,
    (s.dropped p ip).fs.icache jp = { s.fs.icache jp with ref := n } := by
  by_cases hjp : jp = ip
  · subst hjp
    exact ⟨_, Nat.sub_le _ 1, update_self ..⟩
  · exact ⟨_, le_rfl, update_of_ne hjp ..⟩

section Dropped

variable (h : Inv sb s) (hpc : s.pc p = .inside ip .iputDrop)

include h hpc

lemma Inv.lock_ne_of_drop : (s.fs.icache ip).lock ≠ some p := by
  intro hlock
  have hfits := (h.locked ip p hlock).2
  rw [hpc, InodePc.label_inside] at hfits
  exact hfits

lemma Inv.dropped : Inv sb (s.dropped p ip) := by
  obtain ⟨b, hb, hputs⟩ := h.holds p ip _ hpc
  obtain rfl := hputs rfl
  have hlockp := h.lock_ne_of_drop hpc
  have hidle : (s.dropped p ip).pc p = .idle := update_self ..
  have hpos : ∀ {jp}, 0 < ((s.dropped p ip).fs.icache jp).ref → 0 < (s.fs.icache jp).ref := by
    intro jp hj
    obtain ⟨n, hn, heq⟩ := s.dropped_icache p ip jp
    rw [heq] at hj
    exact hj.trans_le hn
  have hinum : ∀ jp, ((s.dropped p ip).fs.icache jp).inum = (s.fs.icache jp).inum := by
    intro jp
    obtain ⟨n, -, heq⟩ := s.dropped_icache p ip jp
    rw [heq]
  refine h.change (p := p) ?_
  constructor
  · exact h.wellFormed
  · intro jp
    have hcount := h.count jp
    change _ = (s.refs.erase ⟨p, ip, true⟩).countP _
    rw [← cons_erase hb] at hcount
    by_cases hjp : jp = ip
    · subst hjp
      rw [countP_cons_of_pos (p := fun r : Reference => r.ip = jp) _ rfl] at hcount
      simp only [InodeRun.dropped, setInode, Fs.setInode, update_self]
      omega
    · rw [countP_cons_of_neg (p := fun r : Reference => r.ip = jp) _ (Ne.symm hjp)] at hcount
      simp only [InodeRun.dropped, setInode, Fs.setInode, update_of_ne hjp]
      exact hcount
  · intro jp kp hj hk heq
    rw [hinum, hinum] at heq
    exact h.unique jp kp (hpos hj) (hpos hk) heq
  · intro jp hj
    rw [hinum]
    exact h.range jp (hpos hj)
  · intro jp
    obtain ⟨n, hn, heq⟩ := s.dropped_icache p ip jp
    exact .inl ⟨n, heq, fun hlt => hlt.trans_le hn⟩
  · exact fun _ _ => rfl
  · exact fun q hq => update_of_ne hq ..
  · intro jp l hlock hq
    obtain ⟨rfl, -⟩ := InodePc.inside.inj (hpc.symm.trans hq)
    exact hlockp hlock
  · rw [hidle]
    exact fun _ _ _ => id
  · rw [hidle]
    nofun
  · intro q jp b' hmem hlock
    refine (mem_erase_of_ne ?_).mpr hmem
    intro heq
    cases heq
    exact hlockp (hlock rfl)
  · intro r hr
    have hne : r ≠ ⟨p, ip, true⟩ := fun heq => hr (congrArg Reference.pid heq)
    exact count_erase_of_ne hne ..
  · -- the only reference of the process that leaves is the one that is gone
    rintro ⟨_, jp, _⟩ hr rfl ⟨⟨l, hl, -⟩, hcount⟩ rfl
    obtain ⟨rfl, -⟩ := InodePc.inside.inj (hpc.symm.trans hl)
    have hgone := Multiset.count_pos.mpr hr
    change 0 < (s.refs.erase _).count _ at hgone
    rw [count_erase_self, hcount] at hgone
    cases hgone
  · exact fun r hr => .inl (mem_of_mem_erase hr)
  · exact fun _ _ => id
  · exact fun _ _ _ => .inl
  · exact fun _ _ _ _ _ => id
  · rw [hidle]
    nofun
  · rw [hidle]
    nofun

end Dropped

def marked (sb : FsSuperblock) (s : InodeRun) (p : Pid) (type : BitVec 16) (i : ℕ) : InodeRun :=
  { s with
    fs := { s.fs with content := iupdate sb i (fresh type) s.fs.content }
    pc := update s.pc p (.iget i)
    born := update s.born i (some (p, type)) }

lemma Inv.marked (h : Inv sb s) {type : BitVec 16} {i : ℕ} (hpc : s.pc p = .ialloc type i) (hi : i < sb.ninodes)
    (hfree : (s.disk sb i).type = 0) : Inv sb (s.marked sb p type i) := by
  have htype := h.ialloc p type i hpc
  have himage := Content.image_iupdate (c := s.fs.content) hi (fresh type)
  have hself : (s.marked sb p type i).disk sb i = fresh type := by
    rw [disk, InodeRun.marked, himage]
    exact update_self ..
  have higet : (s.marked sb p type i).pc p = .iget i := update_self ..
  have hnot : ∀ {jp l}, s.pc p ≠ .inside jp l := by
    intro jp l hq
    rw [hpc] at hq
    cases hq
  have hleaves : ∀ {r}, Leaving s.pc s.refs r → r.pid ≠ p := by
    rintro r ⟨⟨l, hl, -⟩, -⟩ rfl
    exact hnot hl
  have hnone : s.born i = none := by
    cases hborn : s.born i with
    | none => rfl
    | some o =>
      have hb := h.born i o.1 o.2 hborn
      rw [hb.disk] at hfree
      exact absurd hfree hb.type_ne
  refine h.change (p := p) ?_
  constructor
  · change (Content.image sb (iupdate sb i (fresh type) s.fs.content)).WellFormed sb
    rw [himage]
    exact h.wellFormed.allocate hfree rfl rfl
  · exact h.count
  · exact h.unique
  · exact h.range
  · exact fun jp => .inl ⟨_, rfl, id⟩
  · intro j hj
    have hne : j ≠ i := by
      rintro rfl
      exact hj hfree
    rw [disk, InodeRun.marked, himage]
    exact update_of_ne hne ..
  · exact fun q hq => update_of_ne hq ..
  · exact fun _ _ _ => hnot
  · rw [higet]
    exact fun _ _ _ => id
  · rw [higet]
    nofun
  · exact fun _ _ _ hmem _ => hmem
  · exact fun _ _ => rfl
  · exact fun _ _ _ => hleaves
  · exact fun _ => .inl
  · intro j o ho
    have hj : j ≠ i := by
      rintro rfl
      rw [hnone] at ho
      cases ho
    exact (update_of_ne hj ..).trans ho
  · intro j q t hborn
    by_cases hj : j = i
    · subst hj
      simp only [InodeRun.marked, update_self] at hborn
      cases hborn
      refine .inr ⟨hi, htype, hself, ?_, ?_, ?_, ?_⟩
      · intro jp hjpos hji r hr hjp hnamed
        have hzero : (s.disk sb (s.fs.icache jp).inum).type = 0 := hji ▸ hfree
        obtain hsome | hleaving := h.free jp hjpos hzero r hr hjp hnamed
        · cases hsome
        · obtain ⟨⟨l, hl, hfin⟩, hcount⟩ := hleaving
          have hrp := hleaves ⟨⟨l, hl, hfin⟩, hcount⟩
          exact .inr ⟨⟨l, (update_of_ne hrp ..).trans hl, hfin⟩, hcount⟩
      · intro jp l _ _ hq
        rw [higet] at hq
        cases hq
      · intro jp hjpos hji hlock
        -- the process that allocates the inode does not use an entry of it
        have hfits := (h.locked jp p hlock).2
        have hinum : (s.fs.icache jp).inum = j := hji
        rw [hpc, hinum] at hfits
        exact absurd hfree hfits.2.2
      · intro jp _ _ hq
        rw [higet] at hq
        cases hq
    · exact .inl ((update_of_ne hj ..).symm.trans hborn)
  · intro q jp l hq hl hborn
    have hne : (s.fs.icache jp).inum ≠ i := by
      intro heq
      have hfits := (h.inside_locked hq (InodeLabel.critical_of_sole hl)).2
      rw [heq] at hfits
      exact (hfits.of_sole hl).1 hfree
    exact (update_of_ne hne ..).trans hborn
  · intro j hj
    rw [higet] at hj
    cases hj
    exact ⟨type, update_self ..⟩
  · rw [higet]
    nofun

end InodeRun

end Xv6Bfs
