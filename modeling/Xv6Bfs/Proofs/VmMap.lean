import Xv6Bfs.Proofs.VmFree

/-!
# `mappages`

The loop of `mappages` writes the entries of its range one after the other, and stops at the last one also if that is the
last page of the address space.
-/

namespace Xv6Bfs

open Ledger Program

namespace Vm

variable {P : ℕ} {s s₁ s' : Vm P} {d t : Addr P} {lo i j n : ℕ} {I : Vm P → Prop}

/-- `walkpgdir` and writing an entry from page `lo` on keep `I`, and they change no other entry. -/
structure Maps (d : Addr P) (lo : ℕ) (I : Vm P → Prop) : Prop where
  walk : ∀ {s} (va : BitVec 32), I s → Wp (walkpgdir d va true) s
    (fun r s' => I s' ∧ (∀ n < 2 ^ 20, pte s'.content d n = pte s.content d n) ∧
      ∀ t j, r = some (t, j) → j = ptx va ∧ IsTable s'.content d (pdx va) t) (fun _ _ => False)
  set : ∀ {s s' t i j w}, I s → IsTable s.content d i t → j < 1024 → lo ≤ 1024 * i + j →
    s' = s.write t ((s.content t).setWord j w) →
      I s' ∧ ∀ n < 2 ^ 20, pte s'.content d n = if n = 1024 * i + j then w else pte s.content d n

def rangeEntry (pa perm : BitVec 32) (first n : ℕ) : BitVec 32 :=
  (pa + BitVec.ofNat 32 ((n - first) * 4096)) ||| perm ||| PTE_P

lemma rangeEntry_self (pa perm : BitVec 32) (n : ℕ) : rangeEntry pa perm n n = pa ||| perm ||| PTE_P := by
  rw [rangeEntry, Nat.sub_self, Nat.zero_mul, BitVec.add_zero]

lemma rangeEntry_succ (pa perm : BitVec 32) {first : ℕ} (hn : first < n) :
    rangeEntry (pa + 0x1000) perm (first + 1) n = rangeEntry pa perm first n := by
  have hsucc : n - first = n - (first + 1) + 1 := by omega
  rw [rangeEntry, rangeEntry, hsucc, Nat.add_mul, Nat.one_mul, BitVec.ofNat_add, BitVec.add_assoc,
    BitVec.add_comm (BitVec.ofNat 32 ((n - (first + 1)) * 4096))]
  rfl

lemma pageVa_inj {n' : ℕ} (hn : n < 2 ^ 20) (hn' : n' < 2 ^ 20) : pageVa n = pageVa n' ↔ n = n' := by
  rw [← BitVec.toNat_inj, toNat_pageVa hn, toNat_pageVa hn']
  omega

def Mapped (s s' : Vm P) (d : Addr P) (pa perm : BitVec 32) (n stop : ℕ) : Prop :=
  ∀ n' < 2 ^ 20, pte s'.content d n' = if n ≤ n' ∧ n' < stop then rangeEntry pa perm n n' else pte s.content d n'

/-- The loop over entries that are not in use: it stops behind the last page, or earlier if there is no memory for a table. -/
lemma mapLoop_spec (hI : Maps d lo I) {last : ℕ} (hlast : last < 2 ^ 20) (perm : BitVec 32) (fuel : ℕ) :
    ∀ n pa s, lo ≤ n → n ≤ last → last - n < fuel → I s →
      (∀ n', n ≤ n' → n' ≤ last → ¬ present (pte s.content d n') = true) →
      Wp (mapLoop d (pageVa last) perm fuel (pageVa n) pa) s
        (fun ok s' => I s' ∧ ∃ stop, (if ok then stop = last + 1 else n ≤ stop ∧ stop ≤ last) ∧ Mapped s s' d pa perm n stop)
        (fun _ _ => False) := by
  induction fuel with
  | zero => intro n pa s _ _ hfuel; omega
  | succ fuel ih =>
    intro n pa s hn hle hfuel hs hunused
    unfold mapLoop
    refine Wp.bind (hI.walk (pageVa n) hs) ?_ (fun _ _ h => h)
    rw [pdx_pageVa (by omega), ptx_pageVa (by omega)]
    rintro (_ | ⟨t, j⟩) s₁ ⟨hs₁, hpte₁, hfound⟩
    · refine ⟨hs₁, n, ⟨le_rfl, hle⟩, ?_⟩
      intro n' hn'
      rw [if_neg (by omega), hpte₁ n' hn']
    · obtain ⟨rfl, ht⟩ := hfound t j rfl
      have hold : ¬ present ((s₁.content t).word (n % 1024)) = true := by
        rw [← ht.pte, hpte₁ n (by omega)]
        exact hunused n (le_refl n) hle
      simp only [page, setWord, setPage, wp_bind, wp_get, wp_pure]
      rw [if_neg hold]
      simp only [wp_bind, wp_get, wp_pure, wp_modify]
      obtain ⟨hs₂, hpte₂⟩ := hI.set (w := pa ||| perm ||| PTE_P) hs₁ ht (Nat.mod_lt n (by decide)) (by omega) rfl
      have hnum : 1024 * (n / 1024) + n % 1024 = n := by omega
      rw [hnum] at hpte₂
      set s₂ := s₁.write t ((s₁.content t).setWord (n % 1024) (pa ||| perm ||| PTE_P)) with hdef
      by_cases heq : n = last
      · rw [if_pos (by rw [heq])]
        refine ⟨hs₂, last + 1, rfl, ?_⟩
        intro n' hn'
        rw [hpte₂ n' hn', hpte₁ n' hn']
        by_cases hsame : n' = n
        · rw [if_pos hsame, if_pos (by omega), hsame, rangeEntry_self]
        · rw [if_neg hsame, if_neg (by omega)]
      · rw [if_neg (mt (pageVa_inj (by omega) (by omega)).mp heq), pageVa_succ]
        refine (ih (n + 1) (pa + 0x1000) s₂ (by omega) (by omega) (by omega) hs₂ ?_).imp ?_
        · intro n' hlo hhi
          rw [hpte₂ n' (by omega), if_neg (by omega), hpte₁ n' (by omega)]
          exact hunused n' (by omega) hhi
        · rintro ok s' ⟨hs', stop, hstop, hmapped⟩
          refine ⟨hs', stop, ?_, ?_⟩
          · cases ok with
            | true => exact hstop
            | false => exact ⟨(Nat.le_succ n).trans hstop.1, hstop.2⟩
          · have hbehind : n + 1 ≤ stop := by
              cases ok with
              | true =>
                have hstop' : stop = last + 1 := hstop
                omega
              | false => exact hstop.1
            intro n' hn'
            rw [hmapped n' hn', hpte₂ n' hn', hpte₁ n' hn']
            by_cases hsame : n' = n
            · rw [if_neg (by omega), if_pos hsame, if_pos (by omega), hsame, rangeEntry_self]
            · rw [if_neg hsame]
              by_cases hin : n + 1 ≤ n' ∧ n' < stop
              · rw [if_pos hin, if_pos (by omega), rangeEntry_succ pa perm (by omega)]
              · rw [if_neg hin, if_neg (by omega)]

lemma pgRoundDown_eq (a : BitVec 32) : pgRoundDown a = pageVa (a.toNat / 4096) := by
  have := a.isLt
  apply BitVec.eq_of_toNat_eq
  rw [toNat_pgRoundDown, toNat_pageVa (by omega)]

/-- `mappages` maps the range, or the part of it before a page table could not be had. -/
lemma mappages_spec (hI : Maps d lo I) (hs : I s) {va size : BitVec 32} (pa perm : BitVec 32) (hlo : lo ≤ va.toNat / 4096)
    (hle : va.toNat / 4096 ≤ (va + size - 1).toNat / 4096)
    (hunused : ∀ n, va.toNat / 4096 ≤ n → n ≤ (va + size - 1).toNat / 4096 → ¬ present (pte s.content d n) = true) :
    Wp (mappages d va size pa perm) s
      (fun ok s' => I s' ∧ ∃ stop, (if ok then stop = (va + size - 1).toNat / 4096 + 1
        else va.toNat / 4096 ≤ stop ∧ stop ≤ (va + size - 1).toNat / 4096) ∧ Mapped s s' d pa perm (va.toNat / 4096) stop)
      (fun _ _ => False) := by
  have hlast := (va + size - 1).isLt
  unfold mappages
  rw [pgRoundDown_eq, pgRoundDown_eq]
  exact mapLoop_spec hI (by omega) perm (2 ^ 20) _ pa s hlo hle (by omega) hs hunused

/-! ### Any directory -/

/-- A directory and its tables: the entries in use point to tables, and all of them and the free pages are different. -/
structure Tables (s : Vm P) (d : Addr P) : Prop extends Apart s.content d where
  tables : ∀ i < 1024, present ((s.content d).word i) = true → ∃ t : Addr P, target ((s.content d).word i) = some t
  free : s.free.Nodup
  dir_used : d ∉ s.free
  used : ∀ {i t}, IsTable s.content d i t → t ∉ s.free

lemma Tables.addTable (hP : P ≤ 2 ^ 19) (h : Tables s d) {va : BitVec 32}
    (hnone : (target ((s.content d).word (pdx va)) : Ptr P) = none) (hfree : s.free = t :: s₁.free)
    (hcontent : s₁.content = s.content)
    (hs' : s' = (s₁.write t (Page.fill 0)).write d (((s₁.write t (Page.fill 0)).content d).setWord (pdx va)
      (v2p t ||| PTE_P ||| PTE_W ||| PTE_U))) :
    Tables s' d ∧ (∀ n < 2 ^ 20, pte s'.content d n = pte s.content d n) ∧ IsTable s'.content d (pdx va) t := by
  have htfree : t ∈ s.free := by
    rw [hfree]
    exact List.mem_cons_self
  have hne : d ≠ t := by
    rintro rfl
    exact h.dir_used htfree
  have htarget := target_newTable hP t
  obtain ⟨hd, hzero, hother⟩ := content_newTable hne hcontent hs'
  have hs'free : s'.free = s₁.free := by
    rw [hs', free_write, free_write]
  have hnodup := h.free
  rw [hfree, List.nodup_cons] at hnodup
  -- the tables are the old ones and the new one
  have hiff : ∀ {i t'}, IsTable s'.content d i t' → i = pdx va ∧ t' = t ∨ i ≠ pdx va ∧ IsTable s.content d i t' := by
    rintro i t' ⟨hi, ht'⟩
    rw [hd, Page.word_setWord _ _ hi] at ht'
    split at ht'
    · rename_i heq
      exact .inl ⟨heq, Option.some.inj (ht'.symm.trans htarget)⟩
    · rename_i hne'
      exact .inr ⟨hne', hi, ht'⟩
  have hold : ∀ i, ¬ IsTable s.content d i t := fun i ht => h.used ht htfree
  refine ⟨⟨⟨?_, ?_⟩, ?_, ?_, ?_, ?_⟩, ?_, pdx_lt va, ?_⟩
  · intro i t' ht'
    rcases hiff ht' with ⟨-, rfl⟩ | ⟨-, ht'⟩
    · exact hne.symm
    · exact h.ne_dir ht'
  · intro i j t' hi hj
    rcases hiff hi with ⟨hi', rfl⟩ | ⟨-, hi'⟩
    · rcases hiff hj with ⟨hj', -⟩ | ⟨-, hj'⟩
      · rw [hi', hj']
      · exact absurd hj' (hold j)
    · rcases hiff hj with ⟨-, rfl⟩ | ⟨-, hj'⟩
      · exact absurd hi' (hold i)
      · exact h.inj hi' hj'
  · intro i hi hp
    rw [hd, Page.word_setWord _ _ hi] at hp ⊢
    split
    · exact ⟨t, htarget⟩
    · rename_i hne'
      rw [if_neg hne'] at hp
      exact h.tables i hi hp
  · rw [hs'free]
    exact hnodup.2
  · rw [hs'free]
    exact fun hmem => h.dir_used (hfree ▸ List.mem_cons_of_mem t hmem)
  · intro i t' ht'
    rw [hs'free]
    rcases hiff ht' with ⟨-, rfl⟩ | ⟨-, ht'⟩
    · exact hnodup.1
    · exact fun hmem => h.used ht' (hfree ▸ List.mem_cons_of_mem t hmem)
  · intro n hn
    exact h.toApart.pte_addTable hnone hold htarget (fun j _ => by rw [hzero, Page.word_fill_zero]) hd hother hn
  · rw [hd, Page.word_setWord _ _ (pdx_lt va), if_pos rfl, htarget]

lemma maps_tables (hP : P ≤ 2 ^ 19) (d : Addr P) : Maps d 0 (Tables · d) where
  walk {s} va := by
    intro h
    unfold walkpgdir
    simp only [page, wp_bind, wp_get, wp_pure]
    by_cases hpresent : present ((s.content d).word (pdx va)) = true
    · obtain ⟨t, ht⟩ := h.tables (pdx va) (pdx_lt va) hpresent
      rw [if_pos hpresent, wp_bind]
      refine (p2v_spec s ht).imp ?_
      rintro _ s' ⟨rfl, rfl⟩
      refine ⟨h, fun _ _ => rfl, ?_⟩
      rintro _ _ ⟨⟩
      exact ⟨rfl, pdx_lt va, ht⟩
    · rw [if_neg hpresent]
      refine Wp.bind (kalloc_spec s) ?_ (fun _ _ h => h)
      rintro (_ | t) s₁ h₁
      · obtain ⟨rfl, -⟩ := h₁
        exact ⟨h, fun _ _ => rfl, by rintro _ _ ⟨⟩⟩
      · simp only [setPage, setWord, page, wp_bind, wp_modify, wp_get, wp_pure]
        obtain ⟨htables, hpte, ht⟩ := h.addTable hP (target_of_not_present hpresent) h₁.1 h₁.2 rfl
        refine ⟨htables, hpte, ?_⟩
        rintro _ _ ⟨⟩
        exact ⟨rfl, ht⟩
  set {s s' t i j w} := by
    intro h ht hj _ hs'
    have hc : s'.content = Function.update s.content t ((s.content t).setWord j w) := by
      rw [hs', content_write]
    have hdir : s'.content d = s.content d := by
      rw [hc, Function.update_of_ne (h.ne_dir ht).symm]
    have hold : ∀ {i t'}, IsTable s'.content d i t' → IsTable s.content d i t' := by
      rintro i t' ⟨hi, ht'⟩
      exact ⟨hi, hdir ▸ ht'⟩
    refine ⟨⟨⟨fun h' => h.ne_dir (hold h'), fun hi hj => h.inj (hold hi) (hold hj)⟩, ?_, ?_, ?_, ?_⟩, ?_⟩
    · rw [hdir]
      exact h.tables
    · rw [hs', free_write]
      exact h.free
    · rw [hs', free_write]
      exact h.dir_used
    · intro i t' h'
      rw [hs', free_write]
      exact h.used (hold h')
    · exact fun n hn => h.toApart.pte_setPte ht hj hc hn

lemma rangeEntry_page {pa perm : BitVec 32} (hperm : perm.toNat < 4096) (first n : ℕ) :
    pteAddr (rangeEntry pa perm first n) = pgRoundDown pa + BitVec.ofNat 32 ((n - first) * 4096) ∧
      (pa.toNat % 4096 = 0 → pteFlags (rangeEntry pa perm first n) = perm ||| PTE_P) := by
  have hflags : (perm ||| PTE_P).toNat < 4096 := by
    rw [BitVec.toNat_or]
    exact Nat.or_lt_two_pow (n := 12) hperm (by decide)
  have hlow : ∀ a : BitVec 32, (a ||| (perm ||| PTE_P)).toNat / 4096 = a.toNat / 4096 := by
    intro a
    rw [BitVec.toNat_or, show 4096 = 2 ^ 12 from rfl, ← Nat.shiftRight_eq_div_pow, Nat.shiftRight_or_distrib,
      Nat.shiftRight_eq_div_pow (perm ||| PTE_P).toNat, Nat.div_eq_of_lt hflags, Nat.or_zero, Nat.shiftRight_eq_div_pow]
  rw [rangeEntry, BitVec.or_assoc]
  constructor
  · apply BitVec.eq_of_toNat_eq
    rw [toNat_pteAddr, hlow, BitVec.toNat_add, BitVec.toNat_add, toNat_pgRoundDown, BitVec.toNat_ofNat]
    omega
  · intro hpa
    apply pteFlags_or _ hflags
    rw [BitVec.toNat_add, BitVec.toNat_ofNat]
    omega

/-- `mappages` of a range of unmapped pages that may end at the top of the address space. It returns; on success the pages of
the range are mapped to the pages from `pa` on, otherwise the first ones of them, and no other page is mapped differently. -/
theorem mappages_maps_range (hP : P ≤ 2 ^ 19) (h : Tables s d) (va size pa perm : BitVec 32) (hsize : 0 < size.toNat)
    (hfits : va.toNat + size.toNat ≤ 2 ^ 32)
    (hunused : ∀ n, va.toNat / 4096 ≤ n → n ≤ (va.toNat + size.toNat - 1) / 4096 → ¬ present (pte s.content d n) = true) :
    ∃ ok s' stop, mappages d va size pa perm s = .ok ok s' ∧
      (if ok then stop = (va.toNat + size.toNat - 1) / 4096 + 1
        else va.toNat / 4096 ≤ stop ∧ stop ≤ (va.toNat + size.toNat - 1) / 4096) ∧
      (∀ n < 2 ^ 20, ¬ (va.toNat / 4096 ≤ n ∧ n < stop) → pte s'.content d n = pte s.content d n) ∧
      ∀ n, va.toNat / 4096 ≤ n → n < stop →
        pte s'.content d n = (pa + BitVec.ofNat 32 ((n - va.toNat / 4096) * 4096)) ||| perm ||| PTE_P ∧
          (perm.toNat < 4096 →
            pteAddr (pte s'.content d n) = pgRoundDown pa + BitVec.ofNat 32 ((n - va.toNat / 4096) * 4096) ∧
              (pa.toNat % 4096 = 0 → pteFlags (pte s'.content d n) = perm ||| PTE_P)) := by
  have hlast : (va + size - 1).toNat = va.toNat + size.toNat - 1 := by
    bv_omega
  rw [← hlast] at hunused ⊢
  have hle : va.toNat / 4096 ≤ (va + size - 1).toNat / 4096 := by
    apply Nat.div_le_div_right
    omega
  obtain ⟨ok, s', hrun, -, stop, hstop, hmapped⟩ :=
    (mappages_spec (maps_tables hP d) h pa perm (Nat.zero_le _) hle hunused).exists_ok
  refine ⟨ok, s', stop, hrun, hstop, fun n hn hout => by rw [hmapped n hn, if_neg hout], ?_⟩
  intro n hlo hhi
  have hn : n < 2 ^ 20 := by
    have := (va + size - 1).isLt
    cases ok with
    | true =>
      have hstop' : stop = (va + size - 1).toNat / 4096 + 1 := hstop
      omega
    | false =>
      have := hstop.2
      omega
  rw [hmapped n hn, if_pos ⟨hlo, hhi⟩]
  exact ⟨rfl, fun hperm => rangeEntry_page hperm _ _⟩

def emptyDir : Vm 4 :=
  ⟨[2, 3], fun _ => Page.fill 0⟩

lemma target_emptyDir (i : ℕ) : (target ((emptyDir.content 1).word i) : Ptr 4) = none := by
  rw [show emptyDir.content 1 = Page.fill 0 from rfl, Page.word_fill_zero, target_zero]

lemma tables_emptyDir : Tables emptyDir 1 := by
  have hno : ∀ {i t}, ¬ IsTable emptyDir.content 1 i t := by
    rintro i t ⟨-, ht⟩
    rw [target_emptyDir] at ht
    cases ht
  refine ⟨⟨fun h => absurd h hno, fun h => absurd h hno⟩, ?_, by decide, by decide, fun h => absurd h hno⟩
  intro i _ hp
  rw [show emptyDir.content 1 = Page.fill 0 from rfl, Page.word_fill_zero] at hp
  exact absurd hp (by decide)

/-- The last page of the address space. -/
theorem mappages_maps_last_page : ∃ s', mappages 1 0xFFFFF000 0x1000 0x5000 PTE_W emptyDir = .ok true s' ∧
    pte s'.content 1 (2 ^ 20 - 1) = 0x5003 := by
  obtain ⟨ok, s', stop, hrun, hstop, -, hin⟩ := mappages_maps_range (by decide) tables_emptyDir 0xFFFFF000 0x1000 0x5000 PTE_W
    (by decide) (by decide) (fun n _ _ => by rw [pte_of_none (target_emptyDir _)]; decide)
  have hok : ∃ s', mappages 1 0xFFFFF000 0x1000 0x5000 PTE_W emptyDir = .ok true s' := ⟨_, rfl⟩
  obtain ⟨s'', hok⟩ := hok
  rw [hrun] at hok
  obtain ⟨rfl, rfl⟩ := EStateM.Result.ok.inj hok
  have hlast : stop = 2 ^ 20 := hstop
  exact ⟨s', hrun, (hin (2 ^ 20 - 1) (by decide) (by omega)).1⟩

end Vm

end Xv6Bfs
