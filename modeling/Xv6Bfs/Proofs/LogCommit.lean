import Xv6Bfs.Proofs.LogDisk

/-!
# The block writes of a commit and of a recovery

Each of them leads from one stage to the next, and at every stage what a crash leaves can
be recovered to the committed transactions.
-/

namespace Xv6Bfs

open Function List RedoLog

variable {sb : Superblock} {io io' : Io} {b : Blockno} {data : Block}

namespace LogStore

variable {st st' : LogStore} {tail : ℕ} {c c' : CommitPc} {f : Block → Block}

/-- The header in memory lists each block that the open transaction has logged, once. -/
structure Matches (st : LogStore) : Prop where
  nodup : st.lh.Nodup
  mem_iff : ∀ b, b ∈ st.lh ↔ b ∈ st.logged

lemma Matches.toFinset_logged (hm : st.Matches) : st.logged.toFinset = st.lh.toFinset := by
  ext b
  rw [mem_toFinset, mem_toFinset, hm.mem_iff]

lemma Matches.card_logged (hm : st.Matches) : st.logged.toFinset.card = st.lh.length := by
  rw [hm.toFinset_logged, toFinset_card_of_nodup hm.nodup]

lemma head_update (hb : b ≠ sb.logstart) (hdisk : io'.disk = update io.disk b data)
    (hhead : ((io.disk sb.logstart).word 0).toInt ≤ LOGSIZE) :
    ((io'.disk sb.logstart).word 0).toInt ≤ LOGSIZE := by
  rw [hdisk, update_of_ne (Ne.symm hb)]
  exact hhead

/-! ### The steps of a commit and of a recovery -/

inductive CommitStep (sb : Superblock) (st : LogStore) : CommitPc → LogStore → CommitPc → Prop
  | log {tail : ℕ} {b : Blockno} {io' : Io} : st.lh[tail]? = some b → st.io.Written (sb.slot tail) (st.io.content b) io' →
      CommitStep sb st (.writeLog tail) { st with io := io' } (.writeLog (tail + 1))
  | logged {tail : ℕ} : st.lh.length ≤ tail → CommitStep sb st (.writeLog tail) st .writeHead
  | head {hb : Block} {io' : Io} : st.io.Written sb.logstart (fillHead hb st.lh) io' →
      CommitStep sb st .writeHead
        { st with io := io', committed := st.committed ++ [st.current], current := [] } (.installTrans 0)
  | install {tail : ℕ} {b : Blockno} {io' : Io} : st.lh[tail]? = some b → st.io.Written b (st.io.content (sb.slot tail)) io' →
      CommitStep sb st (.installTrans tail) { st with io := io' } (.installTrans (tail + 1))
  | installed {tail : ℕ} : st.lh.length ≤ tail → CommitStep sb st (.installTrans tail) st .clear
  | clear {hb : Block} {io' : Io} : st.io.Written sb.logstart (fillHead hb []) io' →
      CommitStep sb st .clear { st with io := io', lh := [] } .done

inductive RecoverStep (sb : Superblock) (st : LogStore) : Boot → LogStore → Boot → Prop
  | read {lh : List Blockno} {io' : Io} : readHead sb st.io = some (lh, io') →
      RecoverStep sb st .readHead { st with io := io', lh := lh } (.installTrans 0)
  | install {tail : ℕ} {b : Blockno} {io' : Io} : st.lh[tail]? = some b → st.io.Written b (st.io.content (sb.slot tail)) io' →
      RecoverStep sb st (.installTrans tail) { st with io := io' } (.installTrans (tail + 1))
  | installed {tail : ℕ} : st.lh.length ≤ tail → RecoverStep sb st (.installTrans tail) st .clear
  | clear {hb : Block} {io' : Io} : st.io.Written sb.logstart (fillHead hb []) io' →
      RecoverStep sb st .clear { st with io := io', lh := [] } .up

lemma commit_eq_some (hst : st.io.Coherent) (h : st.commit sb c = some (st', c')) :
    CommitStep sb st c st' c' := by
  cases c with
  | writeLog tail =>
    simp only [LogStore.commit] at h
    split at h
    · rename_i b hget
      obtain ⟨io', hwrite, hio⟩ := exists_writeLogBlock sb hst tail b
      rw [hwrite] at h
      cases h
      exact .log hget hio
    · rename_i hget
      cases h
      exact .logged (getElem?_eq_none_iff.mp hget)
  | writeHead =>
    obtain ⟨io', hb, hwrite, hio⟩ := exists_writeHead sb hst st.lh
    simp only [LogStore.commit, hwrite] at h
    cases h
    exact .head hio
  | installTrans tail =>
    simp only [LogStore.commit] at h
    split at h
    · rename_i b hget
      obtain ⟨io', hwrite, hio⟩ := exists_installBlock sb hst tail b
      rw [hwrite] at h
      cases h
      exact .install hget hio
    · rename_i hget
      cases h
      exact .installed (getElem?_eq_none_iff.mp hget)
  | clear =>
    obtain ⟨io', hb, hwrite, hio⟩ := exists_writeHead sb hst []
    simp only [LogStore.commit, hwrite] at h
    cases h
    exact .clear hio
  | done => cases h

lemma recover_eq_some {c c' : Boot} (hst : st.io.Coherent) (h : st.recover sb c = some (st', c')) :
    RecoverStep sb st c st' c' := by
  cases c with
  | readHead =>
    obtain ⟨⟨lh, io'⟩, hread, h⟩ := Option.bind_eq_some_iff.mp h
    cases h
    exact .read hread
  | installTrans tail =>
    simp only [LogStore.recover] at h
    split at h
    · rename_i b hget
      obtain ⟨io', hwrite, hio⟩ := exists_installBlock sb hst tail b
      rw [hwrite] at h
      cases h
      exact .install hget hio
    · rename_i hget
      cases h
      exact .installed (getElem?_eq_none_iff.mp hget)
  | clear =>
    obtain ⟨io', hb, hwrite, hio⟩ := exists_writeHead sb hst []
    simp only [LogStore.recover, hwrite] at h
    cases h
    exact .clear hio
  | up => cases h

lemma CommitStep.coherent (hst : st.io.Coherent) (h : CommitStep sb st c st' c') :
    st'.io.Coherent := by
  cases h with
  | log _ hio => exact hio.coherent
  | logged _ => exact hst
  | head hio => exact hio.coherent
  | install _ hio => exact hio.coherent
  | installed _ => exact hst
  | clear hio => exact hio.coherent

lemma RecoverStep.coherent {c c' : Boot} (hst : st.io.Coherent) (h : RecoverStep sb st c st' c') :
    st'.io.Coherent := by
  cases h with
  | read hread => exact (readHead_same hst hread).coherent
  | install _ hio => exact hio.coherent
  | installed _ => exact hst
  | clear hio => exact hio.coherent

/-! ### Logging a block -/

lemma logWrite_eq_some (hst : st.io.Coherent) (h : st.logWrite b f = some st') :
    ∃ io', st.io.Modified b (f (st.io.content b)) io' ∧
      ((b ∈ st.lh ∧ st' = { st with io := io', current := st.current ++ [(b, f (st.io.content b))] }) ∨
       (b ∉ st.lh ∧ st.lh.length < LOGSIZE ∧
        st' = { st with io := io', lh := st.lh ++ [b]
                        current := st.current ++ [(b, f (st.io.content b))] })) := by
  obtain ⟨io₁, hread, h₁⟩ := Io.exists_bread hst b
  obtain ⟨io₂, hdirty, h₂⟩ := Io.exists_setDirty h₁.coherent h₁.cached (f (st.io.content b))
  refine ⟨io₂, h₁.toSame.modified h₂, ?_⟩
  unfold logWrite at h
  simp only [hread, Option.bind_eq_bind, Option.bind_some] at h
  rw [← Option.bind_assoc] at h
  rw [show ((io₁.store b (f (st.io.content b))).bind fun io => io.setDirty b) = some io₂ from hdirty,
    Option.bind_some] at h
  split at h
  · rename_i hmem
    exact .inl ⟨hmem, (Option.some.inj h).symm⟩
  · rename_i hmem
    obtain ⟨hlt, h⟩ := Option.ite_none_right_eq_some.mp h
    exact .inr ⟨hmem, hlt, (Option.some.inj h).symm⟩

lemma Matches.logWrite (hm : st.Matches) (hst : st.io.Coherent)
    (h : st.logWrite b f = some st') : st'.Matches := by
  obtain ⟨io', -, ⟨hmem, rfl⟩ | ⟨hmem, -, rfl⟩⟩ := logWrite_eq_some hst h
  · refine ⟨hm.nodup, ?_⟩
    intro c
    have := hm.mem_iff c
    simp only [logged, map_append, map_cons, map_nil, mem_append,
      mem_singleton] at this ⊢
    rw [this]
    constructor
    · exact .inl
    · rintro (hc | rfl)
      · exact hc
      · exact this.mp hmem
  · constructor
    · rw [nodup_append]
      refine ⟨hm.nodup, nodup_singleton b, ?_⟩
      intro c hc d hd
      rintro rfl
      rw [mem_singleton] at hd
      exact hmem (hd ▸ hc)
    · intro c
      have := hm.mem_iff c
      simp only [logged, map_append, map_cons, map_nil, mem_append,
        mem_singleton] at this ⊢
      rw [this]

lemma Open.logWrite (h : st.Open sb) (hb : sb.layout.Home b)
    (hfits : b ∉ st.lh → st.lh.length < sb.layout.capacity) (hstep : st.logWrite b f = some st') :
    st'.Open sb := by
  obtain ⟨io', hio, hst⟩ := logWrite_eq_some h.coherent hstep
  have hcontent : ∀ c, sb.layout.Home c → io'.content c =
      apply st.stable (st.current ++ [(b, f (st.io.content b))]) c := by
    intro c hc
    rw [hio.content, apply_append_singleton]
    by_cases hcb : c = b
    · rw [hcb, update_self, update_self]
    · rw [update_of_ne hcb, update_of_ne hcb]
      exact h.content c hc
  have hrec : sb.layout.Recoverable io'.disk st.stable := by
    rw [hio.disk]
    exact h.recoverable
  have hhead : ((io'.disk sb.logstart).word 0).toInt ≤ LOGSIZE := by
    rw [hio.disk]
    exact h.head
  have hclear : sb.layout.pending io'.disk = [] := by
    rw [hio.disk]
    exact h.clear
  obtain ⟨hmem, rfl⟩ | ⟨hmem, hlt, rfl⟩ := hst
  · refine ⟨⟨hio.coherent, hrec, hhead⟩, hclear, ?_, h.home, h.fits, h.small, hcontent⟩
    intro c hc
    obtain rfl | hc := (hio.dirty c).mp hc
    · exact hmem
    · exact h.dirty c hc
  · refine ⟨⟨hio.coherent, hrec, hhead⟩, hclear, ?_, ?_, ?_, ?_, hcontent⟩
    · intro c hc
      rw [mem_append, mem_singleton]
      obtain rfl | hc := (hio.dirty c).mp hc
      · exact .inr rfl
      · exact .inl (h.dirty c hc)
    · intro c hc
      rw [mem_append, mem_singleton] at hc
      obtain hc | rfl := hc
      · exact h.home c hc
      · exact hb
    · have := hfits hmem
      simp only [length_append, length_singleton]
      omega
    · simp only [length_append, length_singleton]
      omega

/-! ### Writing the log -/

lemma Logged.writeLog (h : st.Logged sb tail) (hget : st.lh[tail]? = some b)
    (hio : st.io.Written (sb.slot tail) (st.io.content b) io') :
    ({ st with io := io' } : LogStore).Logged sb (tail + 1) := by
  have hlt : tail < sb.layout.capacity := by
    have := (List.getElem?_eq_some_iff.mp hget).1
    have := h.fits
    omega
  have hne : sb.slot tail ≠ sb.logstart := sb.layout.slot_ne_head tail hlt
  have hcontent : ∀ c, sb.layout.Home c → io'.content c = st.io.content c := by
    intro c hc
    have hslot : c ≠ sb.slot tail := hc.2 tail hlt
    rw [hio.content, update_of_ne hslot]
  refine ⟨⟨⟨hio.coherent, ?_, ?_⟩, ?_, ?_, h.home, h.fits, h.small, ?_⟩, ?_⟩
  · rw [hio.disk]
    exact h.recoverable.write_slot h.clear hlt _
  · exact head_update hne hio.disk h.head
  · rw [hio.disk, Layout.pending_update_of_ne _ hne]
    exact h.clear
  · intro c hc
    exact h.dirty c ((hio.dirty c).mp hc).2
  · intro c hc
    rw [hcontent c hc]
    exact h.content c hc
  · intro i c hi hc
    have hmem : c ∈ st.lh := mem_of_getElem? hc
    rw [hcontent c (h.home c hmem), hio.disk]
    by_cases hit : i = tail
    · subst hit
      obtain rfl : b = c := Option.some.inj (hget.symm.trans hc)
      rw [update_self]
    · have hi' : i < sb.layout.capacity := by
        have := (List.getElem?_eq_some_iff.mp hc).1
        have := h.fits
        omega
      have hslot : sb.slot i ≠ sb.slot tail := fun he => hit (sb.layout.slot_inj i tail hi' hlt he)
      rw [update_of_ne hslot]
      exact h.copied i c (by omega) hc

lemma Logged.writeHead {hb : Block} (h : st.Logged sb st.lh.length) (hm : st.Matches)
    (hio : st.io.Written sb.logstart (fillHead hb st.lh) io') :
    ({ st with io := io', committed := st.committed ++ [st.current], current := [] } :
      LogStore).Installing sb 0 := by
  have hhomes : sb.layout.homes (fillHead hb st.lh) = st.lh := headerBlocks_fillHead hb h.small
  refine ⟨⟨hio.coherent, ?_, ?_⟩, ?_, ?_, ?_, rfl⟩
  · rw [hio.disk]
    show sb.layout.Recoverable _ (replay st.base (st.committed ++ [st.current]))
    rw [replay_append_singleton]
    apply h.recoverable.commit h.clear
    · rw [hhomes]
      exact h.fits
    · rw [hhomes]
      exact h.home
    · intro i c hc
      rw [hhomes] at hc
      have hi := (List.getElem?_eq_some_iff.mp hc).1
      rw [show sb.layout.slot i = sb.slot i from rfl, h.copied i c (by omega) hc]
      exact h.content c (h.home c (mem_of_getElem? hc))
    · intro c _ hc
      rw [hhomes, hm.mem_iff] at hc
      exact apply_of_notMem _ hc
  · show ((io'.disk sb.logstart).word 0).toInt ≤ LOGSIZE
    rw [hio.disk, update_self, word_fillHead_zero hb h.small]
    exact_mod_cast h.small
  · show sb.layout.pending io'.disk = st.lh
    rw [hio.disk, show sb.logstart = sb.layout.head from rfl, Layout.pending_update_head, hhomes]
  · intro i c hi
    omega
  · intro c hc
    exact h.dirty c ((hio.dirty c).mp hc).2

/-! ### Installing -/

lemma Installing.install (h : st.Installing sb tail) (hget : st.lh[tail]? = some b)
    (hio : st.io.Written b (st.io.content (sb.slot tail)) io') :
    ({ st with io := io' } : LogStore).Installing sb (tail + 1) := by
  have hpend : (sb.layout.pending st.io.disk)[tail]? = some b := by
    rw [h.pending]
    exact hget
  have hhome : ∀ c ∈ st.lh, sb.layout.Home c := by
    rw [← h.pending]
    exact h.recoverable.home
  have hb : sb.layout.Home b := hhome b (mem_of_getElem? hget)
  have hlt : tail < sb.layout.capacity := by
    have := (List.getElem?_eq_some_iff.mp hpend).1
    have := h.recoverable.fits
    omega
  -- the copy in the log is read from the disk: only the logged blocks are dirty
  have hslot : st.io.content (sb.slot tail) = st.io.disk (sb.layout.slot tail) := by
    apply Io.content_eq_disk h.coherent
    intro hd
    exact (hhome _ (mem_of_mem_drop (h.dirty _ hd))).2 tail hlt rfl
  have hdisk : io'.disk = update st.io.disk b (st.io.disk (sb.layout.slot tail)) := by
    rw [hio.disk, hslot]
  refine ⟨⟨hio.coherent, ?_, head_update hb.1 hio.disk h.head⟩, ?_, ?_, ?_, h.current⟩
  · rw [hdisk]
    exact h.recoverable.install hpend
  · show sb.layout.pending io'.disk = st.lh
    rw [hdisk, Layout.pending_update_of_ne _ hb.1, h.pending]
  · show sb.layout.Installed io'.disk st.stable (tail + 1)
    rw [hdisk]
    exact h.recoverable.installed_succ hpend h.installed
  · intro c hc
    obtain ⟨hcb, hc⟩ := (hio.dirty c).mp hc
    have hmem := h.dirty c hc
    have hlen := (List.getElem?_eq_some_iff.mp hget)
    rw [drop_eq_getElem_cons hlen.1, mem_cons, hlen.2] at hmem
    exact hmem.resolve_left hcb

lemma Installing.end (h : st.Installing sb tail) (htail : st.lh.length ≤ tail) :
    st.Installing sb st.lh.length where
  toDurable := h.toDurable
  pending := h.pending
  installed i c hi hc := h.installed i c (by omega) hc
  dirty c hc := by
    have := h.dirty c hc
    rw [drop_eq_nil_of_le htail] at this
    cases this
  current := h.current

lemma Installing.disk_eq (h : st.Installing sb st.lh.length) (hb : sb.layout.Home b) :
    st.io.disk b = st.stable b := by
  apply h.recoverable.eq_of_installed _ h.installed hb
  rw [h.pending]

lemma Installing.clear {hb : Block} (h : st.Installing sb st.lh.length)
    (hio : st.io.Written sb.logstart (fillHead hb []) io') :
    ({ st with io := io', lh := [] } : LogStore).Open sb := by
  have hhomes : sb.layout.homes (fillHead hb []) = [] := headerBlocks_fillHead hb (Nat.zero_le _)
  have hclean : ∀ c, ¬ io'.Dirty c := by
    intro c hc
    have := h.dirty c ((hio.dirty c).mp hc).2
    rw [drop_length] at this
    cases this
  have hrec : sb.layout.Recoverable io'.disk st.stable := by
    rw [hio.disk]
    exact Layout.recoverable_clear (fun c hc => h.disk_eq hc) hhomes
  have hclear : sb.layout.pending io'.disk = [] := by
    rw [hio.disk, show sb.logstart = sb.layout.head from rfl, Layout.pending_update_head, hhomes]
  refine ⟨⟨hio.coherent, hrec, ?_⟩, hclear, ?_, ?_, Nat.zero_le _, Nat.zero_le _, ?_⟩
  · show ((io'.disk sb.logstart).word 0).toInt ≤ LOGSIZE
    rw [hio.disk, update_self, word_fillHead_zero hb (Nat.zero_le _)]
    simp
  · intro c hc
    exact absurd hc (hclean c)
  · intro c hc
    cases hc
  · intro c hc
    show io'.content c = apply st.stable st.current c
    rw [Io.content_eq_disk hio.coherent (hclean c), h.current]
    exact hrec.eq_of_clear hclear hc

lemma Open.disk_eq (h : st.Open sb) (hb : sb.layout.Home b) : st.io.disk b = st.stable b :=
  h.recoverable.eq_of_clear h.clear hb

/-! ### Recovery -/

lemma Crashed.readHead (h : st.Crashed sb) :
    ∃ lh io', Xv6Bfs.readHead sb st.io = some (lh, io') ∧
      ({ st with io := io', lh := lh } : LogStore).Installing sb 0 := by
  have hcontent : st.io.content sb.logstart = st.io.disk sb.logstart :=
    Io.content_eq_disk h.coherent (h.dirty _)
  have hfits : ((st.io.content sb.logstart).word 0).toInt ≤ LOGSIZE := by
    rw [hcontent]
    exact h.head
  obtain ⟨io', hread, hio⟩ := exists_readHead h.coherent hfits
  rw [hcontent] at hread
  have hd := h.toDurable.same hio
  refine ⟨_, io', hread, ⟨hd.coherent, hd.recoverable, hd.head⟩, ?_, ?_, ?_, h.current⟩
  · show sb.layout.pending io'.disk = _
    rw [hio.disk]
    rfl
  · intro i c hi
    omega
  · intro c hc
    exact absurd ((hio.dirty c).mp hc) (h.dirty c)

lemma Installing.installTrans {rest : List Blockno} (h : st.Installing sb tail)
    (hrest : st.lh.drop tail = rest) :
    ∃ io', (rest.zipIdx tail).foldlM (fun io entry => installBlock sb entry.2 entry.1 io) st.io = some io' ∧
      ({ st with io := io' } : LogStore).Installing sb st.lh.length := by
  induction rest generalizing st tail with
  | nil =>
    exact ⟨st.io, rfl, h.end (drop_eq_nil_iff.mp hrest)⟩
  | cons b rest ih =>
    have hget : st.lh[tail]? = some b := by
      rw [← head?_drop, hrest, head?_cons]
    have hdrop : st.lh.drop (tail + 1) = rest := by
      rw [← tail_drop, hrest, tail_cons]
    obtain ⟨io₁, hinstall, hio⟩ := exists_installBlock sb h.coherent tail b
    obtain ⟨io', hloop, h'⟩ := ih (h.install hget hio) hdrop
    refine ⟨io', ?_, h'⟩
    rw [zipIdx_cons, foldlM_cons, hinstall]
    exact hloop

theorem Crashed.recoverFromLog (h : st.Crashed sb) :
    ∃ io', Xv6Bfs.recoverFromLog sb st.io = some io' ∧ ∀ b, sb.layout.Home b → io'.disk b = st.stable b := by
  obtain ⟨lh, io₁, hread, h₁⟩ := h.readHead
  obtain ⟨io₂, hinstall, h₂⟩ := h₁.installTrans rfl
  obtain ⟨io₃, hb, hwrite, hio⟩ := exists_writeHead sb h₂.coherent []
  refine ⟨io₃, ?_, fun b hb => (h₂.clear hio).disk_eq hb⟩
  unfold Xv6Bfs.recoverFromLog Xv6Bfs.installTrans
  simp only [hread, Option.bind_eq_bind, Option.bind_some]
  rw [show lh.zipIdx.foldlM _ io₁ = some io₂ from hinstall]
  exact hwrite

/-! ### Stages -/

/-- What holds of log and disk at each point of `commit`. -/
def At (sb : Superblock) (st : LogStore) : CommitPc → Prop
  | .writeLog tail => st.Logged sb tail
  | .writeHead => st.Logged sb st.lh.length
  | .installTrans tail => st.Installing sb tail
  | .clear => st.Installing sb st.lh.length
  | .done => st.Open sb

/-- What holds of log and disk at each point of recovery. -/
def BootAt (sb : Superblock) (st : LogStore) : Boot → Prop
  | .readHead => st.Crashed sb
  | .installTrans tail => st.Installing sb tail
  | .clear => st.Installing sb st.lh.length
  | .up => st.Open sb

lemma Logged.end (h : st.Logged sb tail) (htail : st.lh.length ≤ tail) : st.Logged sb st.lh.length where
  toOpen := h.toOpen
  copied i c hi hc := h.copied i c (by omega) hc

lemma At.commit (h : st.At sb c) (hm : c = .writeHead → st.Matches)
    (hstep : CommitStep sb st c st' c') : st'.At sb c' := by
  cases hstep with
  | log hget hio => exact Logged.writeLog h hget hio
  | logged htail => exact Logged.end h htail
  | head hio => exact Logged.writeHead h (hm rfl) hio
  | install hget hio => exact Installing.install h hget hio
  | installed htail => exact Installing.end h htail
  | clear hio => exact Installing.clear h hio

lemma BootAt.recover {c c' : Boot} (h : st.BootAt sb c) (hstep : RecoverStep sb st c st' c') :
    st'.BootAt sb c' := by
  cases hstep with
  | read hread =>
    obtain ⟨lh, io', hread', h'⟩ := Crashed.readHead h
    cases hread.symm.trans hread'
    exact h'
  | install hget hio => exact Installing.install h hget hio
  | installed htail => exact Installing.end h htail
  | clear hio => exact Installing.clear h hio

lemma At.durable {c : CommitPc} (h : st.At sb c) : st.Durable sb := by
  cases c with
  | writeLog tail => exact (Logged.toOpen h).toDurable
  | writeHead => exact (Logged.toOpen h).toDurable
  | installTrans tail => exact Installing.toDurable h
  | clear => exact Installing.toDurable h
  | done => exact Open.toDurable h

lemma At.same {c : CommitPc} (h : st.At sb c) (hio : st.io.Same io') :
    ({ st with io := io' } : LogStore).At sb c := by
  cases c with
  | writeLog tail => exact Logged.same h hio
  | writeHead => exact Logged.same h hio
  | installTrans tail => exact Installing.same h hio
  | clear => exact Installing.same h hio
  | done => exact Open.same h hio

lemma BootAt.durable {c : Boot} (h : st.BootAt sb c) : st.Durable sb := by
  cases c with
  | readHead => exact Crashed.toDurable h
  | installTrans tail => exact Installing.toDurable h
  | clear => exact Installing.toDurable h
  | up => exact Open.toDurable h

lemma BootAt.same {c : Boot} (h : st.BootAt sb c) (hio : st.io.Same io') :
    ({ st with io := io' } : LogStore).BootAt sb c := by
  cases c with
  | readHead => exact Crashed.same h hio
  | installTrans tail => exact Installing.same h hio
  | clear => exact Installing.same h hio
  | up => exact Open.same h hio

end LogStore

end Xv6Bfs
