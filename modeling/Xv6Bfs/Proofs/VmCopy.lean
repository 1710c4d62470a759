import Xv6Bfs.Proofs.VmAlloc
import Xv6Bfs.Proofs.VmKernel

/-!
# Copying an address space

`copyuvm` reads the directory of the parent and fills one of its own with pages that were free.
-/

namespace Xv6Bfs

open Ledger Multiset Program

namespace Vm

variable {P : ℕ} {s₀ s s₁ s' : Vm P} {pgdir d u m : Addr P} {X Y : Multiset (Addr P)} {k : KernelLayout} {n : ℕ}

/-! ### Counting -/

lemma Sane.exists_unmapped (hP : P ≤ 2 ^ 19) (h : Sane k s.content d) :
    ∃ n < 2 ^ 19, (target (pte s.content d n) : Ptr P) = none := by
  by_contra hall
  have hmapped : ∀ n : Fin (2 ^ 19), ∃ u : Addr P, target (pte s.content d n) = some u := by
    intro n
    apply Option.ne_none_iff_exists'.mp
    intro hnone
    exact hall ⟨n, n.isLt, hnone⟩
  choose f hf using hmapped
  have hinj : Function.Injective (fun o : Option (Fin (2 ^ 19)) => o.elim d f) := by
    rintro (_ | n) (_ | n') heq
    · rfl
    · exact absurd heq.symm (h.user_ne n'.isLt (hf n')).1
    · exact absurd heq (h.user_ne n.isLt (hf n)).1
    · have hsome : f n = f n' := heq
      have hn := pte_inj h.nodup n.isLt n'.isLt (hf n) (hsome ▸ hf n')
      rw [Fin.ext hn]
  have hcard := Fintype.card_le_of_injective _ hinj
  rw [Fintype.card_option, Fintype.card_fin, Fintype.card_fin] at hcard
  omega

/-! ### The loop -/

structure Copied (k : KernelLayout) (Y : Multiset (Addr P)) (s s' : Vm P) (pgdir d : Addr P) (n : ℕ) : Prop extends
    Made k Y s s' d where
  copied : ∀ n' < n, ∃ u m : Addr P, target (pte s.content pgdir n') = some u ∧
    pte s'.content d n' = entryFor m (pteFlags (pte s.content pgdir n')) ∧ s'.content m = s.content u
  rest : ∀ n', n ≤ n' → n' < 2 ^ 19 → pte s'.content d n' = 0
  kernel : ∀ n', 2 ^ 19 ≤ n' → n' < 2 ^ 20 → pte s'.content d n' = (kernelEntry k.kmap n').getD 0

lemma pteFlags_lt (w : BitVec 32) : (pteFlags w).toNat < 4096 := by
  rw [toNat_pteFlags]
  exact Nat.mod_lt _ (by decide)

lemma Copied.target (hP : P ≤ 2 ^ 19) (h : Copied k Y s₀ s pgdir d n) (n' : ℕ) (hn' : n' < n) :
    ∃ u m : Addr P, Vm.target (pte s₀.content pgdir n') = some u ∧ Vm.target (pte s.content d n') = some m ∧
      pte s.content d n' = entryFor m (pteFlags (pte s₀.content pgdir n')) ∧ s.content m = s₀.content u := by
  obtain ⟨u, m, hu, hentry, hcontent⟩ := h.copied n' hn'
  refine ⟨u, m, hu, ?_, hentry, hcontent⟩
  rw [hentry]
  exact target_v2p hP m (pteFlags_lt _)

lemma Copied.lt (hP : P ≤ 2 ^ 19) (h : Copied k Y s₀ s pgdir d n) : n < 2 ^ 19 := by
  obtain ⟨n', hn', hnone⟩ := h.space.toSane.exists_unmapped hP
  by_contra hge
  obtain ⟨_, m, _, hm, _, _⟩ := h.target hP n' (by omega)
  rw [hnone] at hm
  cases hm

lemma Copied.step (hP : P ≤ 2 ^ 19) (h : Copied k Y s₀ s pgdir d n) (hu : Vm.target (pte s₀.content pgdir n) = some u)
    (hedits : Edits s s₁ Y (m ::ₘ Y) d) (hspace₁ : Space k s₁ (m ::ₘ Y) d)
    (hpte : ∀ n' < 2 ^ 20, pte s₁.content d n' = pte s.content d n') (hcontent : s₁.content m = s₀.content u)
    (hedits' : Edits s₁ s' (m ::ₘ Y) Y d) (hspace' : Space k s' Y d)
    (hpte' : ∀ n' < 2 ^ 20, pte s'.content d n' =
      if n' = n then entryFor m (pteFlags (pte s₀.content pgdir n)) else pte s₁.content d n') :
    Copied k Y s₀ s' pgdir d (n + 1) := by
  have hn := h.lt hP
  have hkeep : s'.content m = s₁.content m := by
    have hmem := hspace₁.not_mem
    apply hedits'.other
    · intro hfree
      have hrest := (nodup_add.mp hspace₁.apart).2.2
      exact disjoint_left.mp hrest (mem_coe.mpr hfree)
        (mem_add.mpr (.inl (mem_cons_self ..)))
    · rintro rfl
      exact hmem (dir_mem _ _)
    · intro i hi
      exact hmem hi.mem
  refine ⟨h.toMade.edit (hedits.trans hedits') hspace', ?_, ?_, ?_⟩
  · intro n' hn'
    by_cases heq : n' = n
    · refine ⟨u, m, heq ▸ hu, ?_, hkeep.trans hcontent⟩
      rw [hpte' n' (by omega), if_pos heq, heq]
    · obtain ⟨u', m', hu', hm', hentry, hcontent'⟩ := h.target hP n' (by omega)
      refine ⟨u', m', hu', ?_, ?_⟩
      · rw [hpte' n' (by omega), if_neg heq, hpte n' (by omega), hentry]
      · obtain ⟨hfree, hdir, htable⟩ := h.space.user_ne (by omega) hm'
        have hm₁ := hm'
        rw [← hpte n' (by omega)] at hm₁
        obtain ⟨hfree₁, hdir₁, htable₁⟩ := hspace₁.user_ne (by omega) hm₁
        rw [hedits'.other m' hfree₁ hdir₁ htable₁, hedits.other m' hfree hdir htable, hcontent']
  · intro n' hle hlt
    rw [hpte' n' (by omega), if_neg (by omega), hpte n' (by omega), h.rest n' (by omega) hlt]
  · intro n' hle hlt
    rw [hpte' n' hlt, if_neg (by omega), hpte n' hlt, h.kernel n' hle hlt]

section Parent

variable (hparent : ∀ a ∈ vmPages s₀.content pgdir, a ∉ s₀.free)

include hparent

lemma Made.parent (h : Made k Y s₀ s d) {a : Addr P} (ha : a ∈ vmPages s₀.content pgdir) :
    s.content a = s₀.content a :=
  h.other a (hparent a ha)

lemma Made.pte_parent (h : Made k Y s₀ s d) (hn : n < 2 ^ 20) : pte s.content pgdir n = pte s₀.content pgdir n :=
  pte_eq_of_frame (fun _ ha => h.parent hparent ha) hn

lemma copyLoop_spec (hP : P ≤ 2 ^ 19) (sz : BitVec 32) (fuel : ℕ) :
    ∀ n s, n ≤ pageCeil sz → min (pageCeil sz) (2 ^ 19) - n < fuel → Copied k Y s₀ s pgdir d n →
      Wp (copyLoop k pgdir d sz fuel (pageVa n)) s (fun ok s' =>
        if ok then Copied k Y s₀ s' pgdir d (pageCeil sz) else Made k Y s₀ s' d)
        (fun _ _ => ∃ n < pageCeil sz, n < 2 ^ 19 ∧ (Vm.target (pte s₀.content pgdir n) : Ptr P) = none) := by
  induction fuel with
  | zero => intro n s _ hfuel; omega
  | succ fuel ih =>
    intro n s hle hfuel hcopied
    have hn := hcopied.lt hP
    have hmade := hcopied.toMade
    unfold copyLoop
    by_cases hlt : n < pageCeil sz
    swap
    · have heq : n = pageCeil sz := by omega
      rw [if_neg (by rwa [pageVa_lt_iff (by omega)])]
      exact heq ▸ hcopied
    rw [if_pos ((pageVa_lt_iff (by omega)).mpr hlt)]
    have hdir : s.content pgdir = s₀.content pgdir := hmade.parent hparent (dir_mem _ _)
    refine Wp.bind (walkpgdir_read s pgdir (pageVa n)) ?_ ?_
    · rw [pdx_pageVa (by omega), ptx_pageVa (by omega), hdir]
      rintro (_ | ⟨t, j⟩) s₁ ⟨rfl, hr⟩
      · exact ⟨n, hlt, hn, by rw [pte_of_none hr, target_zero]⟩
      · obtain ⟨rfl, ht⟩ := hr
        have hpte : (s₁.content t).word (n % 1024) = pte s₀.content pgdir n := by
          rw [← ht.pte, hmade.pte_parent hparent (by omega)]
        simp only [page, wp_bind, wp_get, wp_pure]
        rw [hpte]
        by_cases hp : present (pte s₀.content pgdir n) = true
        swap
        · rw [if_pos (by simpa using hp)]
          exact ⟨n, hlt, hn, target_of_not_present hp⟩
        rw [if_neg (by simpa using hp)]
        refine Wp.bind (kalloc_spec s₁) ?_ (fun _ _ h => h.elim)
        rintro (_ | m) s₂ h₂
        · obtain ⟨rfl, _⟩ := h₂
          exact hmade
        · obtain ⟨hfree, hcontent⟩ := h₂
          cases hu : (Vm.target (pte s₀.content pgdir n) : Ptr P) with
          | none =>
            have hfault : (frame (pteAddr (pte s₀.content pgdir n)) : Ptr P) = none := by
              rw [← target_of_present hp, hu]
            simp only [p2v, hfault, wp_bind, wp_throw]
            exact ⟨n, hlt, hn, hu⟩
          | some u =>
            refine Wp.bind (p2v_spec s₂ hu) ?_ (fun _ _ h => h.elim)
            rintro a s₃ ⟨rfl, rfl⟩
            simp only [setPage, wp_bind, wp_get, wp_pure, wp_modify]
            have hpage : s₃.content a = s₀.content a := by
              rw [hcontent]
              exact hmade.parent hparent (mem_vmPages_of_pte hn hu)
            have hm : m ∈ s₁.free := by
              rw [hfree]
              exact List.mem_cons_self
            rw [← free_write s₃ m (s₃.content a)] at hfree
            obtain ⟨hedits, hspace, hpte₁⟩ := hcopied.space.take hfree (by rw [content_write, hcontent])
            have hzero : ¬ present (pte (s₃.write m (s₃.content a)).content d n) = true := by
              rw [hpte₁ n (by omega), hcopied.rest n (le_refl n) hn]
              decide
            refine (mappages_user hP hspace (toNat_pageVa (by omega)) hn hzero (pteFlags_lt _)).mono ?_ (fun _ _ h => h.elim)
            rintro (_ | _) s₄ h₄
            · obtain ⟨rfl, _⟩ := h₄
              refine Wp.bind (kfree_released ?_) ?_ (fun _ _ h => h.elim)
              · exact hspace.pool m (mem_add.mpr (.inr (mem_add.mpr (.inl (mem_cons_self ..)))))
              · intro _ s' hr
                exact hmade.giveBack hedits hspace hm hr
            · obtain ⟨hedits', hspace', hpte'⟩ := h₄
              simp only [if_true]
              rw [pageVa_succ]
              refine ih (n + 1) s₄ (by omega) (by omega) ?_
              exact hcopied.step hP hu hedits hspace hpte₁ (by rw [content_write, Function.update_self, hpage]) hedits'
                hspace' hpte'
    · rw [pdx_pageVa (by omega), hdir]
      rintro _ _ ⟨_, hnone⟩
      exact ⟨n, hlt, hn, by rw [pte_of_none hnone, target_zero]⟩

/-- `copyuvm` copies every page, or gives all of them back; it panics only at a page that is not there. -/
lemma copyuvm_spec (hP : P ≤ 2 ^ 19) (hk : k.Ok) (hapart : (s₀.within Y).Nodup) (hpool : ∀ a ∈ s₀.within Y, Frees k a)
    (sz : BitVec 32) :
    Wp (copyuvm k pgdir sz) s₀ (fun r s' => match r with
      | none => Restored s₀ s'
      | some d => Copied k Y s₀ s' pgdir d (pageCeil sz) ∧ ∃ s₁, setupkvm k s₀ = .ok (some d) s₁)
      (fun _ _ => ∃ n < pageCeil sz, n < 2 ^ 19 ∧ (Vm.target (pte s₀.content pgdir n) : Ptr P) = none) := by
  obtain ⟨r, s₁, hrun, hpost⟩ := (setupkvm_spec hP hk hapart hpool).exists_ok
  unfold Wp copyuvm
  rw [bind_of_ok hrun]
  cases r with
  | none => exact hpost
  | some d =>
    obtain ⟨hmade, hpte⟩ := hpost
    have hstart : Copied k Y s₀ s₁ pgdir d 0 := by
      refine ⟨hmade, fun n' hn' => absurd hn' (Nat.not_lt_zero n'), ?_, fun n' _ hn' => hpte n' hn'⟩
      intro n' _ hn'
      rw [hpte n' (by omega), kernelEntry_user hk hn', Option.getD_none]
    have hloop := copyLoop_spec hparent hP sz (2 ^ 20) 0 s₁ (Nat.zero_le _) (by omega) hstart
    change Wp (copyLoop k pgdir d sz (2 ^ 20) 0 >>= _) s₁ _ _
    refine Wp.bind hloop ?_ (fun _ _ h => h)
    rintro (_ | _) s₂ h₂
    · exact Wp.bind h₂.freevm_spec (fun _ _ h => h) (fun _ _ h => h.elim)
    · exact ⟨h₂, s₁, hrun⟩

end Parent

lemma pteFlags_entryFor (hP : P ≤ 2 ^ 19) (m : Addr P) {w : BitVec 32} (hw : present w = true) :
    pteFlags (entryFor m (pteFlags w)) = pteFlags w := by
  unfold entryFor
  rw [BitVec.or_assoc, pteFlags_or_present hw, pteFlags_or _ (pteFlags_lt w)]
  rw [toNat_v2p hP]
  exact Nat.mul_mod_left _ _

theorem copyuvm_copies_exactly (hP : P ≤ 2 ^ 19) (hk : k.Ok) (h : Space k s X pgdir) {sz : BitVec 32}
    (hpresent : ∀ n < pageCeil sz, present (pte s.content pgdir n) = true)
    (hrun : copyuvm k pgdir sz s = .ok (some d) s') :
    (∀ n < pageCeil sz, ∃ u m : Addr P, target (pte s.content pgdir n) = some u ∧ target (pte s'.content d n) = some m ∧
      pteFlags (pte s'.content d n) = pteFlags (pte s.content pgdir n) ∧ s'.content m = s.content u) ∧
    (∀ n < 2 ^ 19, ∀ n' < 2 ^ 19, ∀ u : Addr P, target (pte s'.content d n) = some u →
      target (pte s.content pgdir n') ≠ some u ∧ (target (pte s'.content d n') = some u → n' = n)) ∧
    (∀ n, pageCeil sz ≤ n → n < 2 ^ 19 → ¬ present (pte s'.content d n) = true) ∧
    (∃ s₁, setupkvm k s = .ok (some d) s₁ ∧
      ∀ n, 2 ^ 19 ≤ n → n < 2 ^ 20 → pte s'.content d n = pte s₁.content d n) ∧
    ∀ a ∈ vmPages s.content pgdir, s'.content a = s.content a := by
  have hparent : ∀ a ∈ vmPages s.content pgdir, a ∉ s.free := fun a ha hfree => h.not_mem_of_free hfree ha
  have hspec := copyuvm_spec hparent hP hk h.apart h.pool sz
  rw [Wp, hrun] at hspec
  obtain ⟨hcopied, s₁, hsetup⟩ := hspec
  have hfresh : ∀ n < 2 ^ 19, ∀ u : Addr P, target (pte s'.content d n) = some u → u ∈ s.free :=
    fun n hn u hu => hcopied.mem_free (mem_vmPages_of_pte hn hu)
  refine ⟨?_, ?_, ?_, ⟨s₁, hsetup, ?_⟩, fun a ha => hcopied.toMade.parent hparent ha⟩
  · intro n hn
    obtain ⟨u, m, hu, hm, hentry, hcontent⟩ := hcopied.target hP n hn
    refine ⟨u, m, hu, hm, ?_, hcontent⟩
    rw [hentry]
    exact pteFlags_entryFor hP m (hpresent n hn)
  · intro n hn n' hn' u hu
    refine ⟨?_, fun hu' => pte_inj hcopied.space.nodup hn' hn hu' hu⟩
    intro hu'
    exact hparent u (mem_vmPages_of_pte hn' hu') (hfresh n hn u hu)
  · intro n hle hn
    rw [hcopied.rest n hle hn]
    decide
  · intro n hle hn
    obtain ⟨_, hpte⟩ := Returns.of_ok (setupkvm_spec hP hk h.apart h.pool) hsetup
    rw [hcopied.kernel n hle hn, hpte n hn]

/-- A table with a page of the memory of devices and a page of the kernel. -/
def twoPages : KernelLayout :=
  ⟨4096, [⟨KERNBASE, 0, 0x1000, PTE_W⟩, ⟨KERNLINK, EXTMEM, EXTMEM + 0x1000, 0⟩]⟩

lemma twoPages_ok : twoPages.Ok := by
  refine ⟨?_, ?_⟩
  · unfold twoPages Kmap.Ok
    decide
  · unfold twoPages
    decide

theorem copyuvm_copies_exactly_one : ∃ d s', copyuvm twoPages 1 0x1000 onePage = .ok (some d) s' ∧
    ∃ m : Addr 8, target (pte s'.content d 0) = some m ∧ s'.content m = onePage.content 3 := by
  have hsuccess : ((copyuvm twoPages 1 0x1000).run' onePage).join.isSome = true := by
    decide +kernel
  unfold EStateM.run' EStateM.run at hsuccess
  cases hrun : copyuvm twoPages 1 0x1000 onePage with
  | error e s' =>
    rw [hrun] at hsuccess
    cases hsuccess
  | ok r s' =>
    cases r with
    | none =>
      rw [hrun] at hsuccess
      cases hsuccess
    | some d =>
      have hpresent : ∀ n < pageCeil 0x1000, present (pte onePage.content 1 n) = true := by
        intro n hn
        have hn' : n = 0 := by
          have hceil : pageCeil 0x1000 = 1 := by decide
          omega
        rw [hn']
        exact present_of_target target_onePage
      have hcopy := copyuvm_copies_exactly (by decide) twoPages_ok (space_onePage _).1 hpresent hrun
      obtain ⟨u, m, hu, hm, _, hcontent⟩ := hcopy.1 0 (by decide)
      have hthree := Option.some.inj (hu.symm.trans target_onePage)
      exact ⟨d, s', rfl, m, hm, hthree ▸ hcontent⟩

end Vm

end Xv6Bfs
