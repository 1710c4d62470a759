import Xv6Bfs.Proofs.VmPages

/-!
# Giving pages back

`deallocuvm` skips the rest of a page table that is not there. The plain loop tests every page of
the range; on the states of memory it is the same program.
-/

namespace Xv6Bfs

open Function Ledger List Program

namespace Vm

variable {P : ℕ} {s s₁ s' : Vm P} {d t u m : Addr P} {X : Multiset (Addr P)} {k : KernelLayout} {n lo hi : ℕ}
  {oldsz : BitVec 32}

/-! ### The plain loop -/

def pageVa (n : ℕ) : BitVec 32 :=
  BitVec.ofNat 32 (n * 4096)

def pageCeil (sz : BitVec 32) : ℕ :=
  (sz.toNat + 4095) / 4096

lemma toNat_pageVa (hn : n < 2 ^ 20) : (pageVa n).toNat = n * 4096 := by
  unfold pageVa
  rw [BitVec.toNat_ofNat, Nat.mod_eq_of_lt (by omega)]

lemma pdx_pageVa (hn : n < 2 ^ 20) : pdx (pageVa n) = n / 1024 := by
  rw [pdx_eq, toNat_pageVa hn]
  omega

lemma ptx_pageVa (hn : n < 2 ^ 20) : ptx (pageVa n) = n % 1024 := by
  rw [ptx_eq, toNat_pageVa hn]
  omega

lemma pageVa_succ (n : ℕ) : pageVa n + 0x1000 = pageVa (n + 1) := by
  apply BitVec.eq_of_toNat_eq
  rw [BitVec.toNat_add, pageVa, pageVa, BitVec.toNat_ofNat, BitVec.toNat_ofNat]
  change (n * 4096 % 2 ^ 32 + 4096) % 2 ^ 32 = _
  omega

lemma pgRoundUp_eq {sz : BitVec 32} (hsz : sz ≤ KERNBASE) : pgRoundUp sz = pageVa (pageCeil sz) := by
  have hle : sz.toNat ≤ 2 ^ 31 := hsz
  apply BitVec.eq_of_toNat_eq
  rw [toNat_pgRoundUp (by omega), toNat_pageVa (by unfold pageCeil; omega)]
  rfl

lemma pageVa_lt_iff {sz : BitVec 32} (hn : n < 2 ^ 20) : pageVa n < sz ↔ n < pageCeil sz := by
  rw [BitVec.lt_def, toNat_pageVa hn]
  unfold pageCeil
  omega

lemma pageCeil_le {sz : BitVec 32} (hsz : sz ≤ KERNBASE) : pageCeil sz ≤ 2 ^ 19 := by
  have hle : sz.toNat ≤ 2 ^ 31 := hsz
  unfold pageCeil
  omega

lemma pageCeil_zero : pageCeil 0 = 0 := by decide

lemma pageCeil_kernbase : pageCeil KERNBASE = 2 ^ 19 := by decide

def deallocPage (k : KernelLayout) (pgdir : Addr P) (n : ℕ) : VmM P Unit := do
  match ← walkpgdir pgdir (pageVa n) false with
  | none => return ()
  | some (pgtab, i) => do
    let pte := (← page pgtab).word i
    if present pte then
      if pteAddr pte = 0 then throw .kfree
      else do
        kfree k (← p2v (pteAddr pte))
        setWord pgtab i 0
    else return ()

def deallocPages (k : KernelLayout) (pgdir : Addr P) (oldsz newsz : BitVec 32) : VmM P (BitVec 32) := do
  (List.range' (pageCeil newsz) (pageCeil oldsz - pageCeil newsz)).forM (deallocPage k pgdir)
  return if newsz < oldsz then newsz else oldsz

lemma walkpgdir_absent {va : BitVec 32} (h : ¬ present ((s.content d).word (pdx va)) = true) :
    walkpgdir d va false s = .ok none s := by
  have hs : Wp (walkpgdir d va false) s (fun r s' => r = none ∧ s' = s) (fun _ _ => False) := by
    unfold walkpgdir
    simp only [page, wp_bind, wp_get, wp_pure]
    rw [if_neg h]
    exact ⟨rfl, rfl⟩
  obtain ⟨r, s', hrun, rfl, rfl⟩ := hs.exists_ok
  exact hrun

lemma deallocPage_absent (hn : n < 2 ^ 20) (h : ¬ present ((s.content d).word (n / 1024)) = true) :
    deallocPage k d n s = .ok () s := by
  unfold deallocPage
  rw [bind_of_ok (walkpgdir_absent (by rwa [pdx_pageVa hn]))]
  rfl

lemma forM_deallocPage_absent {i : ℕ} (hi : i < 1024) (h : ¬ present ((s.content d).word i) = true) (count : ℕ) :
    ∀ n, 1024 * i ≤ n → n + count ≤ 1024 * (i + 1) →
      (List.range' n count).forM (deallocPage k d) s = .ok ⟨⟩ s := by
  induction count with
  | zero => intros; rfl
  | succ count ih =>
    intro n hlow hhigh
    have hdiv : n / 1024 = i := by omega
    rw [range'_succ]
    change (deallocPage k d n >>= fun _ => (List.range' (n + 1) count).forM (deallocPage k d)) s = _
    rw [bind_of_ok (deallocPage_absent (by omega) (by rwa [hdiv]))]
    exact ih (n + 1) (by omega) (by omega)

lemma deallocLoop_present {fuel : ℕ} (hlt : pageVa n < oldsz) (hn : n < 2 ^ 20)
    (h : present ((s.content d).word (n / 1024)) = true) :
    deallocLoop k d oldsz (fuel + 1) (pageVa n) s =
      (deallocPage k d n >>= fun _ => deallocLoop k d oldsz fuel (pageVa (n + 1))) s := by
  unfold deallocPage
  rw [deallocLoop, if_pos hlt, bind_assoc, pageVa_succ]
  cases hwalk : walkpgdir d (pageVa n) false s with
  | error e s₁ => rw [bind_of_error hwalk, bind_of_error hwalk]
  | ok r s₁ =>
    rw [bind_of_ok hwalk, bind_of_ok hwalk]
    cases r with
    | none =>
      -- the walk does not miss a table that is there
      exfalso
      have hmiss : Returns (walkpgdir d (pageVa n) false) s (fun r _ => r ≠ none) := by
        unfold walkpgdir
        simp only [page, wp_bind, wp_get, wp_pure, pdx_pageVa hn]
        rw [if_pos h]
        unfold p2v
        cases frame (pteAddr ((s.content d).word (n / 1024))) with
        | none => trivial
        | some t => exact Option.some_ne_none _
      exact Returns.of_ok hmiss hwalk rfl
    | some e =>
      simp only [bind_assoc]
      refine congrArg (fun y : VmM P Unit => y s₁) (bind_congr fun x => ?_)
      by_cases hp : present (x.word e.2) = true
      · rw [if_pos hp, if_pos hp]
        by_cases hz : pteAddr (x.word e.2) = 0
        · rw [if_pos hz, if_pos hz]
          rfl
        · rw [if_neg hz, if_neg hz]
          simp only [bind_assoc]
      · rw [if_neg hp, if_neg hp]
        rfl

lemma pgAddr_succ (hn : n < 2 ^ 19) : pgAddr (pdx (pageVa n) + 1) - 0x1000 + 0x1000 = pageVa (1024 * (n / 1024 + 1)) := by
  rw [pdx_pageVa (by omega)]
  have hval : (pgAddr (n / 1024 + 1)).toNat = (n / 1024 + 1) * 2 ^ 22 := by
    unfold pgAddr
    rw [BitVec.toNat_shiftLeft, BitVec.toNat_ofNat, Nat.mod_eq_of_lt (a := n / 1024 + 1) (by omega),
      Nat.shiftLeft_eq, Nat.mod_eq_of_lt (by omega)]
  have hva := toNat_pageVa (n := 1024 * (n / 1024 + 1)) (by omega)
  apply BitVec.eq_of_toNat_eq
  rw [hva]
  bv_omega

lemma deallocLoop_eq (hold : oldsz ≤ KERNBASE) (fuel : ℕ) :
    ∀ n (s : Vm P), n ≤ 2 ^ 19 → pageCeil oldsz - n < fuel → deallocLoop k d oldsz fuel (pageVa n) s =
        (List.range' n (pageCeil oldsz - n)).forM (deallocPage k d) s := by
  have hceil := pageCeil_le hold
  induction fuel with
  | zero => intro n s _ hfuel; omega
  | succ fuel ih =>
    intro n s hn hfuel
    by_cases hlt : n < pageCeil oldsz
    · have hlt' := (pageVa_lt_iff (by omega)).mpr hlt
      by_cases hp : present ((s.content d).word (n / 1024)) = true
      · have hcount : pageCeil oldsz - n = pageCeil oldsz - (n + 1) + 1 := by omega
        rw [deallocLoop_present hlt' (by omega) hp, hcount, range'_succ]
        change _ = (deallocPage k d n >>= fun _ => (List.range' (n + 1) _).forM (deallocPage k d)) s
        cases hpage : deallocPage k d n s with
        | error e s₁ => rw [bind_of_error hpage, bind_of_error hpage]
        | ok r s₁ =>
          rw [bind_of_ok hpage, bind_of_ok hpage]
          exact ih (n + 1) s₁ (by omega) (by omega)
      · -- the pages up to the next table have none either
        set next := 1024 * (n / 1024 + 1) with hnext
        have hwalk : walkpgdir d (pageVa n) false s = .ok none s :=
          walkpgdir_absent (by rwa [pdx_pageVa (by omega)])
        rw [deallocLoop, if_pos hlt', bind_of_ok hwalk]
        change deallocLoop k d oldsz fuel (pgAddr (pdx (pageVa n) + 1) - 0x1000 + 0x1000) s = _
        rw [pgAddr_succ (by omega), ih next s (by omega) (by omega)]
        have hsplit : List.range' n (pageCeil oldsz - n) =
            List.range' n (min (pageCeil oldsz) next - n) ++ List.range' next (pageCeil oldsz - next) := by
          rcases le_total next (pageCeil oldsz) with hle | hle
          · have happend := range'_append_1 (s := n) (m := next - n) (n := pageCeil oldsz - next)
            have hstart : n + (next - n) = next := by omega
            have hlen : next - n + (pageCeil oldsz - next) = pageCeil oldsz - n := by omega
            rw [hstart, hlen] at happend
            rw [Nat.min_eq_right hle, happend]
          · rw [Nat.min_eq_left hle, Nat.sub_eq_zero_of_le hle, range'_zero, append_nil]
        rw [hsplit, forM_eq_forM, forM_append]
        symm
        rw [← forM_eq_forM]
        exact bind_of_ok (forM_deallocPage_absent (by omega) hp _ n (by omega) (by omega))
    · rw [Nat.sub_eq_zero_of_le (by omega), deallocLoop, if_neg]
      · rfl
      · rw [pageVa_lt_iff (by omega)]
        exact hlt

lemma deallocuvm_eq {oldsz newsz : BitVec 32} (hold : oldsz ≤ KERNBASE) :
    deallocuvm k d oldsz newsz s = deallocPages k d oldsz newsz s := by
  have hceil := pageCeil_le hold
  unfold deallocuvm deallocPages
  by_cases hlt : newsz < oldsz
  · have hmono : pageCeil newsz ≤ pageCeil oldsz := by
      have hlt' : newsz.toNat < oldsz.toNat := hlt
      unfold pageCeil
      omega
    have hnot : ¬ newsz ≥ oldsz := BitVec.not_le.mpr hlt
    rw [if_neg hnot, if_pos hlt, pgRoundUp_eq (BitVec.le_trans (BitVec.le_of_lt hlt) hold)]
    have hloop := deallocLoop_eq (k := k) (d := d) hold (2 ^ 20) (pageCeil newsz) s (by omega) (by omega)
    cases hrun : deallocLoop k d oldsz (2 ^ 20) (pageVa (pageCeil newsz)) s with
    | error e s₁ => rw [bind_of_error hrun, bind_of_error (hloop.symm.trans hrun)]
    | ok r s₁ => rw [bind_of_ok hrun, bind_of_ok (hloop.symm.trans hrun)]
  · have hge : newsz ≥ oldsz := BitVec.not_lt.mp hlt
    have hle : oldsz.toNat ≤ newsz.toNat := hge
    have hzero : pageCeil oldsz - pageCeil newsz = 0 := by
      unfold pageCeil
      omega
    rw [if_pos hge, if_neg hlt, hzero]
    rfl

/-! ### What is freed -/

def pagesIn (c : Addr P → Page) (d : Addr P) (lo hi : ℕ) : List (Addr P) :=
  (List.range' lo (hi - lo)).filterMap fun n => target (pte c d n)

lemma mem_pagesIn {c : Addr P → Page} : u ∈ pagesIn c d lo hi ↔ ∃ n, lo ≤ n ∧ n < hi ∧ target (pte c d n) = some u := by
  unfold pagesIn
  rw [mem_filterMap]
  constructor
  · rintro ⟨n, hn, hu⟩
    have hrange := mem_range'_1.mp hn
    exact ⟨n, hrange.1, by omega, hu⟩
  · rintro ⟨n, hlo, hhi, hu⟩
    exact ⟨n, mem_range'_1.mpr ⟨hlo, by omega⟩, hu⟩

lemma pagesIn_append (c : Addr P → Page) (d : Addr P) {mid : ℕ} (hlo : lo ≤ mid) (hhi : mid ≤ hi) :
    pagesIn c d lo hi = pagesIn c d lo mid ++ pagesIn c d mid hi := by
  have happend := range'_append_1 (s := lo) (m := mid - lo) (n := hi - mid)
  have hstart : lo + (mid - lo) = mid := by omega
  have hlen : mid - lo + (hi - mid) = hi - lo := by omega
  rw [hstart, hlen] at happend
  unfold pagesIn
  rw [← happend, filterMap_append]

lemma pagesIn_congr {c c' : Addr P → Page} (h : ∀ n, lo ≤ n → n < hi → pte c' d n = pte c d n) :
    pagesIn c' d lo hi = pagesIn c d lo hi := by
  apply filterMap_congr
  intro n hn
  have hrange := mem_range'_1.mp hn
  rw [h n hrange.1 (by omega)]

lemma pagesIn_single (c : Addr P → Page) (d : Addr P) (n : ℕ) :
    pagesIn c d n (n + 1) = (target (pte c d n)).toList := by
  unfold pagesIn
  rw [Nat.add_sub_cancel_left, range'_one, filterMap_cons]
  cases (target (pte c d n) : Ptr P) <;> rfl

/-- The pages in use from `lo` up to `hi` have been freed, one after the other, and nothing else has
changed. -/
structure Cleared (lo hi : ℕ) (s s' : Vm P) (d : Addr P) : Prop where
  pte : ∀ n < 2 ^ 20, pte s'.content d n =
    if lo ≤ n ∧ n < hi ∧ present (pte s.content d n) = true then 0 else pte s.content d n
  free : s'.free = (pagesIn s.content d lo hi).reverse ++ s.free
  filled : ∀ u ∈ pagesIn s.content d lo hi, s'.content u = Page.fill 1
  dir : s'.content d = s.content d
  other : ∀ a, a ∉ pagesIn s.content d lo hi → (∀ i, ¬ IsTable s.content d i a) → s'.content a = s.content a
  pages : vmPages s.content d = (pagesIn s.content d lo hi : Multiset (Addr P)) + vmPages s'.content d

lemma Cleared.refl (s : Vm P) (d : Addr P) (h : hi ≤ lo) : Cleared lo hi s s d := by
  have hnil : pagesIn s.content d lo hi = [] := by
    unfold pagesIn
    rw [Nat.sub_eq_zero_of_le h]
    rfl
  refine ⟨?_, ?_, ?_, rfl, fun _ _ _ => rfl, ?_⟩
  · intro n _
    rw [if_neg (by omega)]
  · rw [hnil]
    rfl
  · intro u hu
    rw [hnil] at hu
    cases hu
  · rw [hnil, Multiset.coe_nil, zero_add]

lemma Cleared.trans {mid : ℕ} (hsane : Sane k s.content d) (h : Cleared lo mid s s₁ d) (h' : Cleared mid hi s₁ s' d)
    (hlo : lo ≤ mid) (hmid : mid ≤ hi) (hhi : hi ≤ 2 ^ 19) : Cleared lo hi s s' d := by
  have hrest : pagesIn s₁.content d mid hi = pagesIn s.content d mid hi := by
    apply pagesIn_congr
    intro n hn hn'
    rw [h.pte n (by omega), if_neg (by omega)]
  have hsplit := pagesIn_append s.content d hlo hmid
  have htable : ∀ i t, IsTable s₁.content d i t ↔ IsTable s.content d i t := by
    intro i t
    unfold IsTable
    rw [h.dir]
  refine ⟨?_, ?_, ?_, h'.dir.trans h.dir, ?_, ?_⟩
  · intro n hn
    rw [h'.pte n hn, h.pte n hn]
    by_cases hfirst : lo ≤ n ∧ n < mid ∧ present (Vm.pte s.content d n) = true
    · rw [if_pos hfirst, if_neg (by omega), if_pos ⟨hfirst.1, by omega, hfirst.2.2⟩]
    · rw [if_neg hfirst]
      by_cases hsecond : mid ≤ n ∧ n < hi ∧ present (Vm.pte s.content d n) = true
      · rw [if_pos hsecond, if_pos ⟨by omega, hsecond.2⟩]
      · rw [if_neg hsecond, if_neg]
        rintro ⟨hle, hlt, hp⟩
        rcases lt_or_ge n mid with hn' | hn'
        · exact hfirst ⟨hle, hn', hp⟩
        · exact hsecond ⟨hn', hlt, hp⟩
  · rw [h'.free, h.free, hrest, hsplit, reverse_append, append_assoc]
  · intro u hu
    rw [hsplit, mem_append] at hu
    by_cases hu' : u ∈ pagesIn s.content d mid hi
    · exact h'.filled u (hrest ▸ hu')
    · obtain ⟨n, _, hn, htarget⟩ := mem_pagesIn.mp (hu.resolve_right hu')
      rw [h'.other u (hrest ▸ hu'), h.filled u (hu.resolve_right hu')]
      intro i hi
      exact (hsane.user_ne (by omega) htarget).2 i u ((htable i u).mp hi) rfl
  · intro a ha hno
    rw [hsplit, mem_append, not_or] at ha
    rw [h'.other a (hrest ▸ ha.2) (fun i hi => hno i ((htable i a).mp hi)), h.other a ha.1 hno]
  · rw [h.pages, h'.pages, hrest, hsplit, ← Multiset.coe_add, add_assoc]

lemma Sane.clear (h : Sane k s.content d) {i j : ℕ} (ht : IsTable s.content d i t) (hi : i < 512) (hj : j < 1024)
    (hu : target ((s.content t).word j) = some u)
    (hs₁ : s₁ = (s.write u (Page.fill 1)).release u) (hs' : s' = s₁.write t ((s₁.content t).setWord j 0)) :
    Cleared (1024 * i + j) (1024 * i + j + 1) s s' d ∧ Sane k s'.content d := by
  have hdiv : (1024 * i + j) / 1024 = i := by omega
  have hmod : (1024 * i + j) % 1024 = j := by omega
  have hpteu : Vm.pte s.content d (1024 * i + j) = (s.content t).word j := by
    rw [IsTable.pte (hdiv ▸ ht), hmod]
  have hne := h.user_ne (n := 1024 * i + j) (u := u) (by omega) (hpteu ▸ hu)
  have hc₁ : s₁.content = update s.content u (Page.fill 1) := by
    rw [hs₁]
    rfl
  have hdir₁ : s₁.content d = s.content d := by
    rw [hc₁, update_of_ne hne.1.symm]
  have htab₁ : ∀ i t, IsTable s.content d i t → s₁.content t = s.content t := by
    intro i t ht
    rw [hc₁, update_of_ne (hne.2 i t ht).symm]
  have hpages₁ := vmPages_congr hdir₁ htab₁
  have ht₁ : IsTable s₁.content d i t := by
    unfold IsTable
    rw [hdir₁]
    exact ht
  have hc' : s'.content = update s₁.content t ((s₁.content t).setWord j 0) := by
    rw [hs', content_write]
  have hnodup₁ : (vmPages s₁.content d).Nodup := hpages₁ ▸ h.nodup
  have hdir : s'.content d = s.content d := by
    rw [hc', update_of_ne (table_ne_dir hnodup₁ ht₁).symm, hdir₁]
  have hpages := vmPages_setPte hnodup₁ ht₁ hi hj hc'
  rw [htab₁ i t ht, hu, target_zero, hpages₁] at hpages
  have hcons : vmPages s.content d = u ::ₘ vmPages s'.content d := by
    rw [← Multiset.singleton_add, add_comm]
    simpa only [optPages, Option.elim_none, Option.elim_some, add_zero] using hpages.symm
  have hpte : ∀ n < 2 ^ 20, Vm.pte s'.content d n = if n = 1024 * i + j then 0 else Vm.pte s.content d n := by
    intro n hn
    rw [(apart_of_nodup hnodup₁).pte_setPte ht₁ hj hc' hn, pte_congr hdir₁ htab₁ hn]
  have hin : pagesIn s.content d (1024 * i + j) (1024 * i + j + 1) = [u] := by
    rw [pagesIn_single, hpteu, hu]
    rfl
  refine ⟨⟨?_, ?_, ?_, hdir, ?_, ?_⟩, ?_, ?_, ?_⟩
  · intro n hn
    rw [hpte n hn]
    by_cases heq : n = 1024 * i + j
    · have hp : present (Vm.pte s.content d n) = true := by
        rw [heq, hpteu]
        exact present_of_target hu
      rw [if_pos heq, if_pos ⟨by omega, by omega, hp⟩]
    · rw [if_neg heq, if_neg (by omega)]
  · rw [hin, hs', hs₁]
    rfl
  · intro u' hu'
    rw [hin, mem_singleton] at hu'
    rw [hu', hc', update_of_ne (hne.2 i t ht), hc₁, update_self]
  · intro a ha hno
    rw [hin, mem_singleton] at ha
    have hat : a ≠ t := by
      rintro rfl
      exact hno i ht
    rw [hc', update_of_ne hat, hc₁, update_of_ne ha]
  · rw [hin, hcons, Multiset.coe_singleton, Multiset.singleton_add]
  · exact (Multiset.nodup_cons.mp (hcons ▸ h.nodup)).2
  · rw [hdir]
    exact h.tables
  · intro n hn hp
    rw [hpte n (by omega)] at hp ⊢
    split
    · rename_i heq
      rw [if_pos heq] at hp
      exact absurd hp (by decide)
    · rename_i heq
      rw [if_neg heq] at hp
      exact h.users n hn hp

lemma deallocPage_spec (h : Sane k s.content d) (hn : n < 2 ^ 19) :
    Wp (deallocPage k d n) s (fun _ s' => Cleared n (n + 1) s s' d ∧ Sane k s'.content d) (fun _ _ => False) := by
  -- a page that is not in use
  have hkeep : (target (pte s.content d n) : Ptr P) = none → Cleared n (n + 1) s s d := by
    intro hnone
    have hp : ¬ present (pte s.content d n) = true := by
      intro hp
      obtain ⟨u, hu, _⟩ := h.users n hn hp
      rw [hnone] at hu
      cases hu
    have hnil : pagesIn s.content d n (n + 1) = [] := by
      rw [pagesIn_single, hnone]
      rfl
    refine ⟨?_, by rw [hnil]; rfl, ?_, rfl, fun _ _ _ => rfl, by rw [hnil, Multiset.coe_nil, zero_add]⟩
    · intro n' _
      rw [if_neg]
      rintro ⟨hle, hlt, hp'⟩
      have heq : n' = n := by omega
      exact hp (heq ▸ hp')
    · intro u hu
      rw [hnil] at hu
      cases hu
  unfold deallocPage
  refine Wp.bind (walkpgdir_find h (pageVa n)) ?_ (fun _ _ h => h)
  rw [pdx_pageVa (by omega), ptx_pageVa (by omega)]
  rintro (_ | ⟨t, j⟩) s₁ ⟨rfl, hr⟩
  · exact ⟨hkeep (by rw [pte_of_none hr, target_zero]), h⟩
  · obtain ⟨rfl, ht⟩ := hr
    have hpte := ht.pte
    simp only [page, wp_bind, wp_get, wp_pure]
    by_cases hp : present ((s₁.content t).word (n % 1024)) = true
    · obtain ⟨u, hu, hfrees⟩ := h.users n hn (hpte ▸ hp)
      rw [hpte] at hu
      have haddr : ¬ pteAddr ((s₁.content t).word (n % 1024)) = 0 := by
        intro hzero
        rw [target_of_present hp, hzero] at hu
        unfold frame at hu
        split at hu
        · exact hfrees.2 (congrArg Fin.val (Option.some.inj hu)).symm
        · cases hu
      rw [if_pos hp, if_neg haddr]
      refine Wp.bind (p2v_spec s₁ hu) ?_ (fun _ _ h => h)
      rintro _ _ ⟨rfl, rfl⟩
      refine Wp.bind (kfree_spec _ hfrees) ?_ (fun _ _ h => h)
      rintro _ s₂ hs₂
      simp only [setWord, page, setPage, wp_bind, wp_get, wp_pure, wp_modify]
      have hclear := h.clear ht (by omega) (by omega) hu hs₂ rfl
      have hnum : 1024 * (n / 1024) + n % 1024 = n := by omega
      rwa [hnum] at hclear
    · rw [if_neg hp]
      exact ⟨hkeep (by rw [hpte, target_of_not_present hp]), h⟩

/-- `deallocuvm` clears the range and frees its pages. -/
lemma deallocuvm_spec (h : Sane k s.content d) (hold : oldsz ≤ KERNBASE) (newsz : BitVec 32) :
    Wp (deallocuvm k d oldsz newsz) s (fun r s' => r = (if newsz < oldsz then newsz else oldsz) ∧
      Cleared (pageCeil newsz) (pageCeil oldsz) s s' d ∧ Sane k s'.content d) (fun _ _ => False) := by
  have hceil := pageCeil_le hold
  by_cases hlt : newsz < oldsz
  swap
  · have hge : newsz ≥ oldsz := BitVec.not_lt.mp hlt
    have hle : oldsz.toNat ≤ newsz.toNat := hge
    unfold deallocuvm
    rw [if_pos hge, if_neg hlt]
    exact ⟨rfl, Cleared.refl s d (by unfold pageCeil; omega), h⟩
  have hlt' : newsz.toNat < oldsz.toNat := hlt
  have hle : pageCeil newsz ≤ pageCeil oldsz := by
    unfold pageCeil
    omega
  unfold Wp
  rw [deallocuvm_eq hold]
  change Wp (deallocPages k d oldsz newsz) s _ _
  unfold deallocPages
  refine Wp.bind (Wp.forM (fun done s' => Cleared (pageCeil newsz) (pageCeil newsz + done.length) s s' d ∧
    Sane k s'.content d) ?_ ⟨Cleared.refl s d (le_refl _), h⟩) ?_ (fun _ _ h => h)
  · intro done n rest s₁ hl hinv
    have hlen := congrArg List.length hl
    rw [length_range', length_append, length_cons] at hlen
    have hn : n = pageCeil newsz + done.length := by
      have hget := congrArg (fun l => l[done.length]?) hl
      simp only [getElem?_append_right (le_refl _), Nat.sub_self, getElem?_cons_zero] at hget
      rw [getElem?_range' (by omega), Option.some.injEq] at hget
      omega
    refine (deallocPage_spec hinv.2 (by omega)).imp ?_
    rintro _ s₂ ⟨hstep, hsane⟩
    rw [hn] at hstep
    rw [length_append, length_singleton]
    exact ⟨hinv.1.trans h hstep (by omega) (by omega) (by omega), hsane⟩
  · intro _ s' hinv
    rw [length_range'] at hinv
    rw [Nat.add_sub_cancel' hle] at hinv
    exact ⟨rfl, hinv⟩

lemma Cleared.nodup (h : Cleared lo hi s s' d) (hsane : Sane k s.content d) : (pagesIn s.content d lo hi).Nodup := by
  have hnodup := hsane.nodup
  rw [h.pages] at hnodup
  exact Multiset.coe_nodup.mp (Multiset.nodup_add.mp hnodup).1

theorem deallocuvm_frees_range (h : Sane k s.content d) {oldsz : BitVec 32} (hold : oldsz ≤ KERNBASE)
    (newsz : BitVec 32) :
    deallocuvm k d oldsz newsz s = deallocPages k d oldsz newsz s ∧
      ∃ r s', deallocuvm k d oldsz newsz s = .ok r s' ∧ r.toNat = min newsz.toNat oldsz.toNat ∧
        Cleared (pageCeil newsz) (pageCeil oldsz) s s' d ∧
        (pagesIn s.content d (pageCeil newsz) (pageCeil oldsz)).Nodup := by
  obtain ⟨r, s', hrun, hr, hcleared, _⟩ := (deallocuvm_spec h hold newsz).exists_ok
  refine ⟨deallocuvm_eq hold, r, s', hrun, ?_, hcleared, hcleared.nodup h⟩
  rw [hr]
  split
  · rename_i hlt
    exact (Nat.min_eq_left (Nat.le_of_lt hlt)).symm
  · rename_i hlt
    exact (Nat.min_eq_right (BitVec.not_lt.mp hlt)).symm

def onePage : Vm 8 :=
  match mappages 1 0 0x1000 (v2p (3 : Addr 8)) (PTE_W ||| PTE_U) (⟨[2, 4, 5, 6, 7], fun _ => Page.fill 0⟩ : Vm 8) with
  | .ok _ s => s
  | .error _ s => s

lemma space_onePage (kmap : List Kmap) : Space ⟨4096, kmap⟩ onePage 0 1 ∧
    ∀ n < 2 ^ 20, pte onePage.content 1 n = if n = 0 then entryFor (3 : Addr 8) (PTE_W ||| PTE_U) else 0 := by
  have hzero := Space.of_zero (k := ⟨4096, kmap⟩) (s := (⟨[2, 4, 5, 6, 7], fun _ => Page.fill 0⟩ : Vm 8)) (d := 1)
    (X := {3}) rfl (by decide) (by unfold Frees; dsimp only; decide)
  have hva : (0 : BitVec 32).toNat = 0 * 4096 := rfl
  have hperm : (PTE_W ||| PTE_U).toNat < 4096 := by decide
  obtain ⟨ok, s, hrun, hpost⟩ :=
    (mappages_user (by decide) hzero.1 hva (by decide) (by rw [hzero.2.2]; decide) hperm).exists_ok
  have hs : onePage = s := by
    unfold onePage
    rw [hrun]
  cases ok with
  | false => exact absurd hpost.2 (cons_ne_nil _ _)
  | true =>
    rw [hs]
    refine ⟨hpost.2.1, ?_⟩
    intro n hn
    rw [hpost.2.2 n hn, hzero.2.2]

lemma target_onePage : target (pte onePage.content 1 0) = some (3 : Addr 8) := by
  rw [(space_onePage []).2 0 (by decide), if_pos rfl]
  exact target_v2p (by decide) 3 (by decide)

theorem deallocuvm_frees_range_one : ∃ r s', deallocuvm ⟨4096, []⟩ 1 0x1000 0 onePage = .ok r s' ∧ 3 ∈ s'.free := by
  have hold : (0x1000 : BitVec 32) ≤ KERNBASE := by decide
  obtain ⟨_, r, s', hrun, _, hcleared, _⟩ := deallocuvm_frees_range (space_onePage []).1.toSane hold 0
  refine ⟨r, s', hrun, ?_⟩
  rw [hcleared.free, mem_append, mem_reverse]
  exact .inl (mem_pagesIn.mpr ⟨0, by decide, by decide, target_onePage⟩)

/-! ### Whole directories -/

structure Released (s s' : Vm P) (A : Multiset (Addr P)) : Prop where
  free : (s'.free : Multiset (Addr P)) = s.free + A
  other : ∀ a, a ∉ A → s'.content a = s.content a

lemma Released.moves {A : Multiset (Addr P)} (h : Released s s' A) (B : Multiset (Addr P)) :
    Moves s s' (A + B) B := by
  refine ⟨?_, ?_⟩
  · rw [State.within, State.within, h.free, add_assoc]
  · intro a ha
    apply h.other
    intro hmem
    exact ha (Multiset.mem_add.mpr (.inr (Multiset.mem_add.mpr (.inl hmem))))

lemma Released.trans {A B : Multiset (Addr P)} (h : Released s s₁ A) (h' : Released s₁ s' B) :
    Released s s' (A + B) := by
  refine ⟨?_, ?_⟩
  · rw [h'.free, h.free, add_assoc]
  · intro a ha
    rw [Multiset.mem_add, not_or] at ha
    rw [h'.other a ha.2, h.other a ha.1]

lemma kfree_released (hv : Frees k u) : Wp (kfree k u) s (fun _ s' => Released s s' {u}) (fun _ _ => False) := by
  refine (kfree_spec s hv).imp ?_
  rintro _ s' rfl
  refine ⟨?_, ?_⟩
  · change ((u :: s.free : List (Addr P)) : Multiset (Addr P)) = _
    rw [add_comm, Multiset.singleton_add, Multiset.cons_coe]
  · intro a ha
    exact update_of_ne (fun heq => ha (Multiset.mem_singleton.mpr heq)) ..

lemma Space.release (h : Space k s (m ::ₘ X) d) (hr : Released s s' {m}) :
    Space k s' X d ∧ Moves s s' (m ::ₘ X + vmPages s.content d) (X + vmPages s'.content d) ∧
      ∀ n < 2 ^ 20, pte s'.content d n = pte s.content d n := by
  have hmem := h.not_mem
  have hsame : ∀ a ∈ vmPages s.content d, s'.content a = s.content a := by
    intro a ha
    apply hr.other
    rw [Multiset.mem_singleton]
    rintro rfl
    exact hmem ha
  have hpages := vmPages_eq_of_frame hsame
  have hpte : ∀ n < 2 ^ 20, pte s'.content d n = pte s.content d n := fun n hn => pte_eq_of_frame hsame hn
  have hmoves : Moves s s' (m ::ₘ X + vmPages s.content d) (X + vmPages s'.content d) := by
    have hmoves := hr.moves (X + vmPages s.content d)
    rw [← add_assoc, Multiset.singleton_add] at hmoves
    rwa [hpages]
  refine ⟨h.of_moves hmoves ?_ ?_, hmoves, hpte⟩
  · rw [hsame d (dir_mem _ _)]
    exact h.tables
  · intro n hn
    rw [hpte n (by omega)]
    exact h.users n hn

def tablesBelow (c : Addr P → Page) (d : Addr P) (i : ℕ) : List (Addr P) :=
  (List.range i).filterMap fun i => target ((c d).word i)

lemma tablesBelow_succ (c : Addr P → Page) (d : Addr P) (i : ℕ) :
    tablesBelow c d (i + 1) = tablesBelow c d i ++ (target ((c d).word i)).toList := by
  unfold tablesBelow
  rw [range_succ, filterMap_append, filterMap_cons]
  cases (target ((c d).word i) : Ptr P) <;> rfl

lemma vmPages_eq_tablesBelow {c : Addr P → Page} (hclear : ∀ n < 2 ^ 19, (target (pte c d n) : Ptr P) = none) :
    vmPages c d = d ::ₘ (tablesBelow c d 1024 : Multiset (Addr P)) := by
  rw [vmPages_of_clear hclear]
  congr 1
  have hsum : ∀ i, (tablesBelow c d i : Multiset (Addr P)) = ∑ i' ∈ Finset.range i, optPages (target ((c d).word i')) := by
    intro i
    induction i with
    | zero => rfl
    | succ i ih =>
      rw [tablesBelow_succ, ← Multiset.coe_add, ih, Finset.sum_range_succ]
      cases (target ((c d).word i) : Ptr P) <;> rfl
  rw [hsum, Ledger.total_def, Finset.sum_range]

lemma freeTable_spec (h : ∀ i < 1024, present ((s.content d).word i) = true → ∃ t : Addr P, target ((s.content d).word i) = some t)
    (hpool : ∀ i (t : Addr P), IsTable s.content d i t → Frees k t) {i : ℕ} (hi : i < 1024) :
    Wp (freeTable k d i) s (fun _ s' => Released s s' (optPages (target ((s.content d).word i)))) (fun _ _ => False) := by
  unfold freeTable
  simp only [page, wp_bind, wp_get, wp_pure]
  by_cases hp : present ((s.content d).word i) = true
  · obtain ⟨t, ht⟩ := h i hi hp
    rw [if_pos hp]
    refine Wp.bind (p2v_spec s ht) ?_ (fun _ _ h => h)
    rintro _ _ ⟨rfl, rfl⟩
    rw [ht]
    exact kfree_released (hpool i _ ⟨hi, ht⟩)
  · rw [if_neg hp, target_of_not_present hp]
    exact ⟨(add_zero _).symm, fun _ _ => rfl⟩

lemma freeTables_spec (h : ∀ i < 1024, present ((s.content d).word i) = true → ∃ t : Addr P, target ((s.content d).word i) = some t)
    (hpool : ∀ i (t : Addr P), IsTable s.content d i t → Frees k t) (hdir : ∀ i, ¬ IsTable s.content d i d) (count : ℕ)
    (hcount : count ≤ 1024) :
    Wp ((List.range count).forM (freeTable k d)) s (fun _ s' => Released s s' (tablesBelow s.content d count))
      (fun _ _ => False) := by
  have hinit : Released s s (tablesBelow s.content d ([] : List ℕ).length : Multiset (Addr P)) :=
    ⟨(add_zero _).symm, fun _ _ => rfl⟩
  refine (Wp.forM (fun done s' => Released s s' (tablesBelow s.content d done.length)) ?_ hinit).imp ?_
  · intro done i rest s₂ hl hinv
    have hlen := congrArg List.length hl
    rw [length_range, length_append, length_cons] at hlen
    have hi : i = done.length := by
      have hget := congrArg (fun l => l[done.length]?) hl
      simp only [getElem?_append_right (le_refl _), Nat.sub_self, getElem?_cons_zero] at hget
      rw [getElem?_range (by omega), Option.some.injEq] at hget
      exact hget.symm
    have hdir₂ : s₂.content d = s.content d := by
      apply hinv.other
      intro hmem
      obtain ⟨i, hi, ht⟩ := mem_filterMap.mp (Multiset.mem_coe.mp hmem)
      have := mem_range.mp hi
      exact hdir i ⟨by omega, ht⟩
    have htable : ∀ i t, IsTable s₂.content d i t → IsTable s.content d i t := by
      intro i t ht
      unfold IsTable at ht ⊢
      rwa [hdir₂] at ht
    have hstep := freeTable_spec (k := k) (s := s₂) (d := d) (by rw [hdir₂]; exact h)
      (fun i t ht => hpool i t (htable i t ht)) (i := i) (by omega)
    refine hstep.imp ?_
    intro _ s₃ hreleased
    have htotal := hinv.trans hreleased
    rw [hdir₂, hi] at htotal
    rw [length_append, length_singleton, tablesBelow_succ, ← Multiset.coe_add]
    cases hw : (target ((s.content d).word done.length) : Ptr P) with
    | none => rwa [hw] at htotal
    | some t => rwa [hw] at htotal
  · intro _ s' hinv
    rwa [length_range] at hinv

/-- All pages of the directory go to the free list. -/
lemma freevm_spec (h : Sane k s.content d) (hpool : ∀ a ∈ vmPages s.content d, Frees k a) :
    Wp (freevm k d) s (fun _ s' => Released s s' (vmPages s.content d)) (fun _ _ => False) := by
  unfold freevm
  refine Wp.bind (deallocuvm_spec h (BitVec.le_refl _) 0) ?_ (fun _ _ h => h)
  intro r s₁ h₁
  have hcleared := h₁.2.1
  have hsane := h₁.2.2
  rw [pageCeil_zero, pageCeil_kernbase] at hcleared
  have hclear : ∀ n < 2 ^ 19, (target (pte s₁.content d n) : Ptr P) = none := by
    intro n hn
    rw [hcleared.pte n (by omega)]
    split
    · exact target_zero
    · rename_i hp
      exact target_of_not_present (fun hpresent => hp ⟨Nat.zero_le n, hn, hpresent⟩)
  have htable : ∀ i t, IsTable s₁.content d i t → IsTable s.content d i t := by
    intro i t ht
    unfold IsTable at ht ⊢
    rwa [hcleared.dir] at ht
  have hpages := hcleared.pages
  rw [vmPages_eq_tablesBelow hclear] at hpages
  have hfrees : ∀ i t, IsTable s₁.content d i t → Frees k t := fun i t ht => hpool t (htable i t ht).mem
  have hdir : ∀ i, ¬ IsTable s₁.content d i d := fun i hi => table_ne_dir hsane.nodup hi rfl
  -- the list of the entries must not be evaluated
  generalize hcount : NPDENTRIES = count
  have hle : count = 1024 := hcount.symm
  refine Wp.bind (freeTables_spec hsane.tables hfrees hdir count (by omega)) ?_ (fun _ _ h => h)
  intro _ s₂ htables
  refine (kfree_released (hpool d (dir_mem _ _))).imp ?_
  intro _ s' hlast
  have htail := htables.trans hlast
  rw [hle] at htail
  refine ⟨?_, ?_⟩
  · rw [htail.free, hcleared.free, hpages, ← Multiset.coe_add, Multiset.coe_reverse, ← Multiset.singleton_add]
    abel
  · intro a ha
    have hno : ∀ i, ¬ IsTable s.content d i a := fun i hi => ha hi.mem
    rw [hpages, Multiset.mem_add, Multiset.mem_cons, not_or, not_or] at ha
    rw [htail.other, hcleared.other a ha.1 hno]
    rw [Multiset.mem_add, not_or, Multiset.mem_singleton]
    exact ⟨ha.2.2, ha.2.1⟩

end Vm

end Xv6Bfs
