import Xv6Bfs.Proofs.IputInv

/-!
# Steps that leave the references alone

A process works on an entry that it refers to: it takes or gives up the lock, copies the inode or writes it.
-/

namespace Xv6Bfs

open Function

namespace InodeRun

variable {sb : FsSuperblock} {s : InodeRun} {p : Pid} {ip : Fin NINODE}

/-- A step of `p` with the entry `ip`, which becomes `x`, while the disk becomes `c`; `p` is at `m`
afterwards. -/
structure Move (sb : FsSuperblock) (s : InodeRun) (p : Pid) (ip : Fin NINODE) (x : Inode) (c : Content) (m : InodePc) :
    Prop where
  holds : ∃ b, ⟨p, ip, b⟩ ∈ s.refs ∧ ∀ l, m = .inside ip l → l.puts = true → b = true
  ref : x.ref = (s.fs.icache ip).ref
  inum : x.inum = (s.fs.icache ip).inum
  src : s.pc p = .idle ∨ ∃ l, s.pc p = .inside ip l
  dst : m = .idle ∨ ∃ l, m = .inside ip l
  lock : ∀ q, (s.fs.icache ip).lock = some q → q = p
  lock' : ∀ q, x.lock = some q → q = p
  wellFormed : (c.image sb).WellFormed sb
  disk : ∀ j, j ≠ (s.fs.icache ip).inum → (c.image sb).inode j = s.disk sb j
  unlocked : x.lock = none → x.valid = true → Clean x ((c.image sb).inode (s.fs.icache ip).inum)
  locked : x.lock = some p → Fits x ((c.image sb).inode (s.fs.icache ip).inum) (m.label ip)
  critical : ∀ l, m = .inside ip l → l.critical = true → x.lock = some p
  sole : ∀ l, m = .inside ip l → l.sole = true → s.Sole p ip
  finishing : ∀ l, s.pc p = .inside ip l → l.finishing = true → ∃ l', m = .inside ip l' ∧ l'.finishing = true
  free : ((c.image sb).inode (s.fs.icache ip).inum).type = 0 → (s.disk sb (s.fs.icache ip).inum).type = 0 ∨
    s.Sole p ip ∧ ∃ l, m = .inside ip l ∧ l.finishing = true
  born : ∀ q type, s.born (s.fs.icache ip).inum = some (q, type) →
    (c.image sb).inode (s.fs.icache ip).inum = s.disk sb (s.fs.icache ip).inum ∧
      (q = p → (∀ l, m = .inside ip l → l.puts = false) ∧ (x.lock = some p → ∃ l, m = .inside ip l) ∧
        (m = .inside ip .ilockValid → x.toDinode = s.disk sb (s.fs.icache ip).inum))

section Move

variable {x : Inode} {c : Content} {m : InodePc}

def moved (s : InodeRun) (p : Pid) (ip : Fin NINODE) (x : Inode) (c : Content) (m : InodePc) : InodeRun :=
  { s with fs := ⟨c, update s.fs.icache ip x⟩, pc := update s.pc p m }

@[simp] lemma moved_icache_self : (s.moved p ip x c m).fs.icache ip = x :=
  update_self ..

@[simp] lemma moved_icache_of_ne {jp : Fin NINODE} (hjp : jp ≠ ip) :
    (s.moved p ip x c m).fs.icache jp = s.fs.icache jp :=
  update_of_ne hjp ..

@[simp] lemma moved_pc_self : (s.moved p ip x c m).pc p = m :=
  update_self ..

@[simp] lemma moved_pc_of_ne {q : Pid} (hq : q ≠ p) : (s.moved p ip x c m).pc q = s.pc q :=
  update_of_ne hq ..

namespace Move

variable (hm : Move sb s p ip x c m)

include hm

variable {jp : Fin NINODE}

lemma label_src (hjp : jp ≠ ip) : (s.pc p).label jp = none := by
  obtain hpc | ⟨l, hpc⟩ := hm.src <;> rw [hpc]
  · rfl
  · exact if_neg hjp.symm

lemma label_dst (hjp : jp ≠ ip) : m.label jp = none := by
  obtain hpc | ⟨l, hpc⟩ := hm.dst <;> rw [hpc]
  · rfl
  · exact if_neg hjp.symm

lemma label_eq (q : Pid) (hjp : jp ≠ ip) :
    ((s.moved p ip x c m).pc q).label jp = (s.pc q).label jp := by
  by_cases hq : q = p
  · subst hq
    rw [moved_pc_self, hm.label_src hjp, hm.label_dst hjp]
  · rw [moved_pc_of_ne hq]

lemma inside_cases {q : Pid} {l : InodeLabel} (hq : (s.moved p ip x c m).pc q = .inside jp l) :
    q = p ∧ jp = ip ∧ m = .inside ip l ∨ q ≠ p ∧ s.pc q = .inside jp l := by
  by_cases hqp : q = p
  · subst hqp
    rw [moved_pc_self] at hq
    obtain hdst | ⟨l', hdst⟩ := hm.dst
    · rw [hdst] at hq
      cases hq
    · rw [hdst] at hq
      cases hq
      exact .inl ⟨rfl, rfl, hdst⟩
  · rw [moved_pc_of_ne hqp] at hq
    exact .inr ⟨hqp, hq⟩

lemma entry_eq (jp : Fin NINODE) : ((s.moved p ip x c m).fs.icache jp).inum = (s.fs.icache jp).inum ∧
    ((s.moved p ip x c m).fs.icache jp).ref = (s.fs.icache jp).ref := by
  by_cases hjp : jp = ip
  · subst hjp
    rw [moved_icache_self]
    exact ⟨hm.inum, hm.ref⟩
  · rw [moved_icache_of_ne hjp]
    exact ⟨rfl, rfl⟩

lemma leaving {r : Reference} (hr : Leaving s.pc s.refs r) :
    Leaving (s.moved p ip x c m).pc (s.moved p ip x c m).refs r := by
  obtain ⟨⟨l, hl, hfin⟩, hcount⟩ := hr
  refine ⟨?_, hcount⟩
  by_cases hp : r.pid = p
  · have hip : r.ip = ip := by
      obtain hsrc | ⟨l', hsrc⟩ := hm.src
      · rw [hp, hsrc] at hl
        cases hl
      · rw [hp, hsrc] at hl
        cases hl
        rfl
    rw [hp, hip] at hl
    obtain ⟨l', hl', hfin'⟩ := hm.finishing l hl hfin
    exact ⟨l', by rw [hp, moved_pc_self, hip, hl'], hfin'⟩
  · exact ⟨l, by rw [moved_pc_of_ne hp, hl], hfin⟩

lemma onlyLeaving {owner : Option Pid} (h : s.OnlyLeaving owner jp) :
    (s.moved p ip x c m).OnlyLeaving owner jp := by
  intro r hr hjp hnamed
  exact (h r hr hjp hnamed).imp_right hm.leaving

lemma disk_of_ne (h : Inv sb s) (hjp : jp ≠ ip) (hpos : 0 < (s.fs.icache jp).ref) :
    (s.moved p ip x c m).disk sb (s.fs.icache jp).inum = s.disk sb (s.fs.icache jp).inum := by
  apply hm.disk
  obtain ⟨b, hb, -⟩ := hm.holds
  exact fun heq => hjp (h.unique jp ip hpos (h.ref_pos hb) heq)

end Move

lemma Inv.forall_moved (h : Inv sb s) (hm : Move sb s p ip x c m) {Q : Fin NINODE → Prop}
    (hself : Q ip) (hother : ∀ jp, jp ≠ ip → 0 < (s.fs.icache jp).ref →
      (s.moved p ip x c m).fs.icache jp = s.fs.icache jp →
      (s.moved p ip x c m).disk sb (s.fs.icache jp).inum = s.disk sb (s.fs.icache jp).inum → Q jp) :
    ∀ jp, 0 < ((s.moved p ip x c m).fs.icache jp).ref → Q jp := by
  intro jp hpos
  by_cases hjp : jp = ip
  · exact hjp ▸ hself
  · rw [moved_icache_of_ne hjp] at hpos
    exact hother jp hjp hpos (moved_icache_of_ne hjp) (hm.disk_of_ne h hjp hpos)

lemma Born.moved (h : Inv sb s) (hm : Move sb s p ip x c m) {i : ℕ} {q : Pid} {type : BitVec 16}
    (hborn : s.born i = some (q, type)) : Born sb (s.moved p ip x c m) i q type := by
  have hb := h.born i q type hborn
  have hpos : 0 < (s.fs.icache ip).ref := by
    obtain ⟨b, hb, -⟩ := hm.holds
    exact h.ref_pos hb
  have hinum := hm.entry_eq
  refine ⟨hb.range, hb.type_ne, ?_, ?_, ?_, ?_, ?_⟩
  · by_cases hi : i = (s.fs.icache ip).inum
    · rw [hi] at hborn
      rw [← hb.disk, hi]
      exact (hm.born q type hborn).1
    · rw [← hb.disk]
      exact hm.disk i hi
  · intro jp hjpos hji
    rw [(hinum jp).2] at hjpos
    rw [(hinum jp).1] at hji
    exact hm.onlyLeaving (hb.refs jp hjpos hji)
  · intro jp l hjpos hji hpc
    rw [(hinum jp).2] at hjpos
    rw [(hinum jp).1] at hji
    obtain ⟨rfl, rfl, hl⟩ | ⟨-, hpc⟩ := hm.inside_cases hpc
    · rw [← hji] at hborn
      exact ((hm.born q type hborn).2 rfl).1 l hl
    · exact hb.ilock jp l hjpos hji hpc
  · intro jp hjpos hji hlock
    rw [(hinum jp).2] at hjpos
    rw [(hinum jp).1] at hji
    by_cases hjp : jp = ip
    · subst hjp
      rw [moved_icache_self] at hlock
      obtain rfl := hm.lock' q hlock
      rw [← hji] at hborn
      rw [moved_pc_self]
      exact ((hm.born q type hborn).2 rfl).2.1 hlock
    · rw [moved_icache_of_ne hjp] at hlock
      obtain ⟨l, hl⟩ := hb.lock jp hjpos hji hlock
      have hqp : q ≠ p := by
        rintro rfl
        have hlabel := hm.label_src hjp
        rw [hl] at hlabel
        simp [InodePc.label] at hlabel
      exact ⟨l, by rw [moved_pc_of_ne hqp, hl]⟩
  · intro jp hjpos hji hpc
    rw [(hinum jp).2] at hjpos
    rw [(hinum jp).1] at hji
    obtain ⟨rfl, rfl, hl⟩ | ⟨hqp, hq⟩ := hm.inside_cases hpc
    · subst hji
      rw [moved_icache_self, ← hb.disk]
      exact ((hm.born q type hborn).2 rfl).2.2 hl
    · have hjp : jp ≠ ip := by
        rintro rfl
        exact hqp (hm.lock q (h.critical q jp _ hq rfl))
      rw [moved_icache_of_ne hjp]
      exact hb.read jp hjpos hji hq

lemma Inv.moved (h : Inv sb s) (hm : Move sb s p ip x c m) : Inv sb (s.moved p ip x c m) := by
  obtain ⟨b, hb, hputs⟩ := hm.holds
  have hpos := h.ref_pos hb
  dsimp only at hpos
  have href := fun jp => (hm.entry_eq jp).2
  have hinum := fun jp => (hm.entry_eq jp).1
  constructor
  · exact hm.wellFormed
  · intro jp
    rw [href]
    exact h.count jp
  · intro jp kp hj hk heq
    rw [href] at hj hk
    rw [hinum, hinum] at heq
    exact h.unique jp kp hj hk heq
  · intro jp hj
    rw [href] at hj
    rw [hinum]
    exact h.range jp hj
  · refine h.forall_moved hm ?_ ?_
    · rw [moved_icache_self, hm.inum]
      exact hm.unlocked
    · intro jp hjp hj hsame hdisk
      rw [hsame, hdisk]
      exact h.unlocked jp hj
  · intro jp q hlock
    by_cases hjp : jp = ip
    · subst hjp
      rw [moved_icache_self] at hlock ⊢
      obtain rfl := hm.lock' q hlock
      rw [moved_pc_self, hm.inum]
      exact ⟨⟨b, hb⟩, hm.locked hlock⟩
    · rw [moved_icache_of_ne hjp] at hlock ⊢
      rw [hm.label_eq q hjp, hm.disk_of_ne h hjp (h.ref_pos_of_lock hlock)]
      exact h.locked jp q hlock
  · intro q jp l hq hl
    obtain ⟨rfl, rfl, hdst⟩ | ⟨hqp, hq⟩ := hm.inside_cases hq
    · rw [moved_icache_self]
      exact hm.critical l hdst hl
    · have hlock := h.critical q jp l hq hl
      have hjp : jp ≠ ip := by
        rintro rfl
        exact hqp (hm.lock q hlock)
      rwa [moved_icache_of_ne hjp]
  · intro q jp l hq
    obtain ⟨rfl, rfl, hdst⟩ | ⟨-, hq⟩ := hm.inside_cases hq
    · exact ⟨b, hb, hputs l hdst⟩
    · exact h.holds q jp l hq
  · intro q jp l hq hl
    rw [Sole, hinum]
    obtain ⟨rfl, rfl, hdst⟩ | ⟨-, hq⟩ := hm.inside_cases hq
    · exact hm.sole l hdst hl
    · exact h.sole q jp l hq hl
  · refine h.forall_moved hm ?_ ?_
    · rw [moved_icache_self, hm.inum]
      intro hfree
      obtain hfree | ⟨hsole, l, hl, hfin⟩ := hm.free hfree
      · exact hm.onlyLeaving (h.free ip hpos hfree)
      · intro r hr hip hnamed
        obtain rfl := hsole.1 r hr hip hnamed
        exact .inr ⟨⟨l, by rw [moved_pc_self, hl], hfin⟩, hsole.2.1⟩
    · intro jp _ hj hsame hdisk
      rw [hsame, hdisk]
      intro hfree
      exact hm.onlyLeaving (h.free jp hj hfree)
  · intro i q type hborn
    exact Born.moved h hm hborn
  · intro q i hq
    have hqp : q ≠ p := by
      rintro rfl
      rw [moved_pc_self] at hq
      obtain hdst | ⟨l, hdst⟩ := hm.dst <;> rw [hdst] at hq <;> cases hq
    rw [moved_pc_of_ne hqp] at hq
    exact h.iget q i hq
  · intro q type i hq
    have hqp : q ≠ p := by
      rintro rfl
      rw [moved_pc_self] at hq
      obtain hdst | ⟨l, hdst⟩ := hm.dst <;> rw [hdst] at hq <;> cases hq
    rw [moved_pc_of_ne hqp] at hq
    exact h.ialloc q type i hq

end Move

@[simp] lemma settle_fs (i : ℕ) : (s.settle p i).fs = s.fs := by
  unfold settle
  split <;> rfl

@[simp] lemma settle_pc (i : ℕ) : (s.settle p i).pc = s.pc := by
  unfold settle
  split <;> rfl

@[simp] lemma settle_refs (i : ℕ) : (s.settle p i).refs = s.refs := by
  unfold settle
  split <;> rfl

lemma Inv.settle (h : Inv sb s) {i : ℕ} (hpc : s.pc p ≠ .iget i) : Inv sb (s.settle p i) := by
  unfold InodeRun.settle
  split
  · rename_i howner
    refine ⟨h.wellFormed, h.count, h.unique, h.range, h.unlocked, h.locked, h.critical, h.holds, ?_, h.free, ?_, ?_,
      h.ialloc⟩
    · intro q jp l hq hl
      obtain ⟨hrefs, hcount, hborn⟩ := h.sole q jp l hq hl
      refine ⟨hrefs, hcount, ?_⟩
      by_cases hi : (s.fs.icache jp).inum = i
      · exact hi ▸ update_self ..
      · exact (update_of_ne hi ..).trans hborn
    · intro j q type hborn
      have hj : j ≠ i := by
        rintro rfl
        simp at hborn
      dsimp only at hborn
      rw [update_of_ne hj] at hborn
      obtain ⟨h₁, h₂, h₃, h₄, h₅, h₆, h₇⟩ := h.born j q type hborn
      exact ⟨h₁, h₂, h₃, h₄, h₅, h₆, h₇⟩
    · intro q j hq
      obtain ⟨type, hborn⟩ := h.iget q j hq
      refine ⟨type, ?_⟩
      have hj : j ≠ i := by
        rintro rfl
        rw [hborn] at howner
        obtain rfl : q = p := by simpa using howner
        exact hpc hq
      exact (update_of_ne hj ..).trans hborn
  · exact h

lemma born_settle {i : ℕ} {q : Pid} {type : BitVec 16} (hborn : (s.settle p i).born i = some (q, type)) : q ≠ p := by
  rintro rfl
  unfold InodeRun.settle at hborn
  split at hborn
  · simp at hborn
  · rename_i hne
    simp [hborn] at hne

section Inside

variable {l l' : InodeLabel} {x : Inode}

lemma Move.of_inside (h : Inv sb s) (hpc : s.pc p = .inside ip l) (href : x.ref = (s.fs.icache ip).ref)
    (hinum : x.inum = (s.fs.icache ip).inum)
    (hlock : (s.fs.icache ip).lock = none ∨ (s.fs.icache ip).lock = some p) (hlock' : x.lock = none ∨ x.lock = some p)
    (hunlocked : x.lock = none → x.valid = true → Clean x (s.disk sb (s.fs.icache ip).inum))
    (hlocked : x.lock = some p → Fits x (s.disk sb (s.fs.icache ip).inum) (some l'))
    (hcritical : l'.critical = true → x.lock = some p) (hputs : l'.puts = l.puts)
    (hsole : l'.sole = true → s.Sole p ip) (hfin : l.finishing = true → l'.finishing = true)
    (hread : l' = .ilockValid → x.toDinode = s.disk sb (s.fs.icache ip).inum) :
    Move sb s p ip x s.fs.content (.inside ip l') := by
  obtain ⟨b, hb, hbputs⟩ := h.holds p ip l hpc
  have hpos := h.ref_pos hb
  constructor
  · refine ⟨b, hb, ?_⟩
    rintro _ ⟨rfl⟩ hl
    exact hbputs (hputs ▸ hl)
  · exact href
  · exact hinum
  · exact .inr ⟨l, hpc⟩
  · exact .inr ⟨l', rfl⟩
  · intro q hq
    obtain hnone | hsome := hlock
    · rw [hnone] at hq
      cases hq
    · exact Option.some.inj (hq.symm.trans hsome)
  · intro q hq
    obtain hnone | hsome := hlock'
    · rw [hnone] at hq
      cases hq
    · exact Option.some.inj (hq.symm.trans hsome)
  · exact h.wellFormed
  · exact fun j _ => rfl
  · exact hunlocked
  · rw [InodePc.label_inside]
    exact hlocked
  · rintro _ ⟨rfl⟩
    exact hcritical
  · rintro _ ⟨rfl⟩
    exact hsole
  · intro l₀ hl₀ hfin₀
    obtain ⟨-, rfl⟩ := InodePc.inside.inj (hpc.symm.trans hl₀)
    exact ⟨l', rfl, hfin hfin₀⟩
  · exact fun hfree => .inl hfree
  · intro q type hborn
    refine ⟨rfl, ?_⟩
    rintro rfl
    refine ⟨?_, fun _ => ⟨l', rfl⟩, ?_⟩
    · rintro _ ⟨rfl⟩
      rw [hputs]
      exact (h.born _ _ _ hborn).ilock ip l hpos rfl hpc
    · rintro ⟨rfl⟩
      exact hread rfl

lemma Inv.inside_locked (h : Inv sb s) (hpc : s.pc p = .inside ip l) (hl : l.critical = true) :
    (s.fs.icache ip).lock = some p ∧ Fits (s.fs.icache ip) (s.disk sb (s.fs.icache ip).inum) (some l) := by
  have hlock := h.critical p ip l hpc hl
  have hfits := (h.locked ip p hlock).2
  rw [hpc, InodePc.label_inside] at hfits
  exact ⟨hlock, hfits⟩

lemma Inv.moved_acquire (h : Inv sb s) (hpc : s.pc p = .inside ip l) (hnone : (s.fs.icache ip).lock = none)
    (hfits : ((s.fs.icache ip).valid = true → Clean (s.fs.icache ip) (s.disk sb (s.fs.icache ip).inum)) →
      Fits { s.fs.icache ip with lock := some p } (s.disk sb (s.fs.icache ip).inum) (some l'))
    (hputs : l'.puts = l.puts) (hsole : l'.sole = false) (hfin : l.finishing = false)
    (hread : l' ≠ .ilockValid) :
    Inv sb (s.moved p ip { s.fs.icache ip with lock := some p } s.fs.content (.inside ip l')) := by
  obtain ⟨b, hb, -⟩ := h.holds p ip l hpc
  refine h.moved (Move.of_inside h hpc rfl rfl (.inl hnone) (.inr rfl) nofun ?_ (fun _ => rfl) hputs ?_ ?_
    (fun heq => absurd heq hread))
  · exact fun _ => hfits (h.unlocked ip (h.ref_pos hb) hnone)
  · simp [hsole]
  · simp [hfin]

lemma Inv.moved_locked (h : Inv sb s) (hpc : s.pc p = .inside ip l) (hl : l.critical = true)
    (href : x.ref = (s.fs.icache ip).ref) (hinum : x.inum = (s.fs.icache ip).inum)
    (hlock : x.lock = (s.fs.icache ip).lock) (hfits : Fits x (s.disk sb (s.fs.icache ip).inum) (some l'))
    (hputs : l'.puts = l.puts) (hsole : l'.sole = true → s.Sole p ip)
    (hfin : l.finishing = true → l'.finishing = true)
    (hread : l' = .ilockValid → x.toDinode = s.disk sb (s.fs.icache ip).inum) :
    Inv sb (s.moved p ip x s.fs.content (.inside ip l')) := by
  have hp := h.critical p ip l hpc hl
  have hp' := hlock.trans hp
  refine h.moved (Move.of_inside h hpc href hinum (.inr hp) (.inr hp') ?_ (fun _ => hfits) (fun _ => hp') hputs hsole
    hfin hread)
  rw [hp']
  nofun

lemma goto_eq_moved (s : InodeRun) (p : Pid) (ip : Fin NINODE) (m : InodePc) :
    s.goto p m = s.moved p ip (s.fs.icache ip) s.fs.content m := by
  unfold goto moved
  rw [update_eq_self]

lemma Inv.sole_of_ref (h : Inv sb s) (hpc : s.pc p = .inside ip .iputRef) (href : (s.fs.icache ip).ref = 1) :
    s.Sole p ip := by
  obtain ⟨b, hb, hputs⟩ := h.holds p ip _ hpc
  obtain rfl := hputs rfl
  have hpos := h.ref_pos hb
  have hcount := h.count ip
  rw [href, ← Multiset.cons_erase hb, Multiset.countP_cons_of_pos (p := fun r : Reference => r.ip = ip) _ rfl] at hcount
  have hnone : ∀ r ∈ s.refs.erase ⟨p, ip, true⟩, r.ip ≠ ip := by
    apply Multiset.countP_eq_zero.mp
    omega
  refine ⟨?_, ?_, ?_⟩
  · intro r hr hip _
    by_contra hne
    exact hnone r ((Multiset.mem_erase_of_ne hne).mpr hr) hip
  · rw [← Multiset.cons_erase hb, Multiset.count_cons_self, Multiset.count_eq_zero_of_notMem]
    exact fun hmem => hnone _ hmem rfl
  · cases hborn : s.born (s.fs.icache ip).inum with
    | none => rfl
    | some o =>
      obtain ⟨q, type⟩ := o
      have hb' := h.born _ _ _ hborn
      obtain hq | ⟨⟨l, hl, hfin⟩, -⟩ := hb'.refs ip hpos rfl _ hb rfl rfl
      · obtain rfl := Option.some.inj hq
        have hputs := hb'.ilock ip _ hpos rfl hpc
        cases hputs
      · obtain ⟨-, rfl⟩ := InodePc.inside.inj (hpc.symm.trans hl)
        cases hfin

lemma Inv.moved_write (h : Inv sb s) (hb : ⟨p, ip, true⟩ ∈ s.refs) (hlock : (s.fs.icache ip).lock = some p)
    {d : Dinode} {c : Content} {m : InodePc} (hsrc : s.pc p = .idle ∨ ∃ l, s.pc p = .inside ip l)
    (hdst : m = .idle ∨ ∃ l, m = .inside ip l) (hwf : (c.image sb).WellFormed sb)
    (hdisk : ∀ j, j ≠ (s.fs.icache ip).inum → (c.image sb).inode j = s.disk sb j)
    (hfits : Fits { s.fs.icache ip with toDinode := d } ((c.image sb).inode (s.fs.icache ip).inum) (m.label ip))
    (hsole : ∀ l, m = .inside ip l → l.sole = true → s.Sole p ip)
    (hfin : ∀ l, s.pc p = .inside ip l → l.finishing = false)
    (hfree : ((c.image sb).inode (s.fs.icache ip).inum).type = 0 → s.Sole p ip ∧ ∃ l, m = .inside ip l ∧ l.finishing = true)
    (hborn : s.born (s.fs.icache ip).inum = none) :
    Inv sb (s.moved p ip { s.fs.icache ip with toDinode := d } c m) := by
  apply h.moved
  constructor
  · exact ⟨true, hb, fun _ _ _ => rfl⟩
  · rfl
  · rfl
  · exact hsrc
  · exact hdst
  · intro q hq
    exact Option.some.inj (hq.symm.trans hlock)
  · intro q hq
    exact Option.some.inj (hq.symm.trans hlock)
  · exact hwf
  · exact hdisk
  · intro hnone
    dsimp only at hnone
    rw [hlock] at hnone
    cases hnone
  · exact fun _ => hfits
  · exact fun _ _ _ => hlock
  · exact hsole
  · intro l hl hl'
    rw [hfin l hl] at hl'
    cases hl'
  · exact fun hzero => .inr (hfree hzero)
  · intro q type hsome
    rw [hborn] at hsome
    cases hsome

end Inside

end InodeRun

end Xv6Bfs
