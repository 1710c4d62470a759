import Xv6Bfs.Proofs.Vm

/-!
# Taking pages and mapping them

Each function is given a directory and some pages next to it, and leaves the directory and some pages to its caller.
-/

namespace Xv6Bfs

open Function Ledger Multiset Program

namespace Vm

variable {P : ℕ} {s s₁ s' : Vm P} {d t u m : Addr P} {X X₁ X' : Multiset (Addr P)} {k : KernelLayout}

/-- A directory and the pages `X` next to it; all of them and the free ones are different. -/
structure Space (k : KernelLayout) (s : Vm P) (X : Multiset (Addr P)) (d : Addr P) : Prop extends
    Sane k s.content d where
  apart : (s.within (X + vmPages s.content d)).Nodup
  pool : ∀ a ∈ s.within (X + vmPages s.content d), Frees k a

/-- Pages have gone from the free list and from `X` to `X'` and to the directory, whose entries stay
apart from those that `f` changes. Nothing else is touched. -/
structure Edits (s s' : Vm P) (X X' : Multiset (Addr P)) (d : Addr P) : Prop where
  moves : Moves s s' (X + vmPages s.content d) (X' + vmPages s'.content d)
  free : ∀ a ∈ s'.free, a ∈ s.free
  tables : ∀ i t, IsTable s'.content d i t → IsTable s.content d i t ∨ t ∈ s.free
  other : ∀ a, a ∉ s.free → a ≠ d → (∀ i, ¬ IsTable s.content d i a) → s'.content a = s.content a

lemma Edits.refl (s : Vm P) (X : Multiset (Addr P)) (d : Addr P) : Edits s s X X d :=
  ⟨Moves.refl _ _, fun _ h => h, fun _ _ h => .inl h, fun _ _ _ _ => rfl⟩

lemma Edits.trans (h : Edits s s₁ X X₁ d) (h' : Edits s₁ s' X₁ X' d) : Edits s s' X X' d := by
  refine ⟨h.moves.trans h'.moves, fun a ha => h.free a (h'.free a ha), ?_, ?_⟩
  · intro i t ht
    rcases h'.tables i t ht with ht | ht
    · exact h.tables i t ht
    · exact .inr (h.free t ht)
  · intro a hfree hd ha
    rw [h'.other a (fun hmem => hfree (h.free a hmem)) hd, h.other a hfree hd ha]
    intro i hi
    exact (h.tables i a hi).elim (ha i) hfree

namespace Space

lemma not_mem (h : Space k s (m ::ₘ X) d) : m ∉ vmPages s.content d := by
  intro hmem
  have hrest := (nodup_add.mp h.apart).2.1
  rw [cons_add] at hrest
  exact (nodup_cons.mp hrest).1 (mem_add.mpr (.inr hmem))

lemma not_mem_of_free (h : Space k s X d) (hm : m ∈ s.free) : m ∉ vmPages s.content d := by
  intro hmem
  exact disjoint_left.mp (nodup_add.mp h.apart).2.2 (mem_coe.mpr hm)
    (mem_add.mpr (.inr hmem))

lemma user_ne (h : Space k s X d) {n : ℕ} (hn : n < 2 ^ 19) (hu : target (pte s.content d n) = some u) :
    u ∉ s.free ∧ u ≠ d ∧ ∀ i, ¬ IsTable s.content d i u := by
  refine ⟨fun hfree => h.not_mem_of_free hfree (mem_vmPages_of_pte hn hu), ?_⟩
  have hne := h.toSane.user_ne hn hu
  exact ⟨hne.1, fun i hi => hne.2 i u hi rfl⟩

lemma of_moves (h : Space k s X d) (hm : Moves s s' (X + vmPages s.content d) (X' + vmPages s'.content d))
    (htables : ∀ i < 1024, present ((s'.content d).word i) = true →
      ∃ t : Addr P, target ((s'.content d).word i) = some t)
    (husers : ∀ n < 2 ^ 19, present (pte s'.content d n) = true →
      ∃ u : Addr P, target (pte s'.content d n) = some u ∧ Frees k u) :
    Space k s' X' d := by
  have hnodup := hm.nodup h.apart
  refine ⟨⟨?_, htables, husers⟩, hnodup, ?_⟩
  · exact (nodup_add.mp (nodup_add.mp hnodup).2.1).2.1
  · rw [hm.balance]
    exact h.pool

lemma of_zero (hzero : s.content d = Page.fill 0) (hapart : (s.within (d ::ₘ X)).Nodup)
    (hpool : ∀ a ∈ s.within (d ::ₘ X), Frees k a) :
    Space k s X d ∧ vmPages s.content d = {d} ∧ ∀ n, pte s.content d n = 0 := by
  have hword : ∀ i, (target ((s.content d).word i) : Ptr P) = none := by
    intro i
    rw [hzero, Page.word_fill_zero, target_zero]
  have hpte : ∀ n, pte s.content d n = 0 := fun n => pte_of_none (hword _)
  have hpages : vmPages s.content d = {d} := by
    rw [vmPages_of_clear (fun n _ => by rw [hpte, target_zero]), Ledger.total_zero]
    · rfl
    · intro i
      rw [hword]
      rfl
  have hwithin : X + vmPages s.content d = d ::ₘ X := by
    rw [hpages, add_comm, singleton_add]
  refine ⟨⟨⟨?_, ?_, ?_⟩, ?_, ?_⟩, hpages, hpte⟩
  · rw [hpages]
    exact nodup_singleton d
  · intro i _ hp
    rw [hzero, Page.word_fill_zero] at hp
    exact absurd hp (by decide)
  · intro n _ hp
    rw [hpte] at hp
    exact absurd hp (by decide)
  · rwa [hwithin]
  · rwa [hwithin]

end Space

/-! ### Single steps -/

lemma kalloc_spec (s : Vm P) :
    Wp kalloc s (fun r s' => match r with
      | none => s' = s ∧ s.free = []
      | some a => s.free = a :: s'.free ∧ s'.content = s.content) (fun _ _ => False) := by
  unfold kalloc
  simp only [wp_bind, wp_get]
  cases hfree : s.free with
  | nil => exact ⟨rfl, rfl⟩
  | cons r l => exact ⟨rfl, rfl⟩

lemma kfree_spec (s : Vm P) {v : Addr P} (hv : Frees k v) :
    Wp (kfree k v) s (fun _ s' => s' = (s.write v (Page.fill 1)).release v) (fun _ _ => False) := by
  unfold kfree
  rw [if_neg (Nat.not_lt.mpr hv.1)]
  simp only [setPage, wp_bind, wp_modify]

lemma p2v_spec (s : Vm P) {w : BitVec 32} (hw : target w = some u) :
    Wp (p2v (pteAddr w)) s (fun a s' => a = u ∧ s' = s) (fun _ _ => False) := by
  rw [target_of_present (present_of_target hw)] at hw
  unfold p2v
  rw [hw]
  exact ⟨rfl, rfl⟩

@[simp]
lemma content_write (s : Vm P) (a : Addr P) (x : Page) :
    (s.write a x).content = update s.content a x := rfl

@[simp]
lemma free_write (s : Vm P) (a : Addr P) (x : Page) : (s.write a x).free = s.free := rfl

lemma pdx_ptx (va : BitVec 32) : 1024 * pdx va + ptx va = va.toNat / 4096 := by
  rw [pdx_eq, ptx_eq]
  omega

lemma Space.take (h : Space k s X d) {x : Page} (hfree : s.free = m :: s'.free)
    (hc : s'.content = update s.content m x) :
    Edits s s' X (m ::ₘ X) d ∧ Space k s' (m ::ₘ X) d ∧ ∀ n < 2 ^ 20, pte s'.content d n = pte s.content d n := by
  have hmfree : m ∈ s.free := by
    rw [hfree]
    exact List.mem_cons_self
  have hother : ∀ a, a ≠ m → s'.content a = s.content a := by
    intro a ha
    rw [hc, update_of_ne ha]
  have hsame : ∀ a ∈ vmPages s.content d, s'.content a = s.content a := by
    intro a ha
    apply hother
    rintro rfl
    exact h.not_mem_of_free hmfree ha
  have hpages := vmPages_eq_of_frame hsame
  have hpte : ∀ n < 2 ^ 20, pte s'.content d n = pte s.content d n := fun n hn => pte_eq_of_frame hsame hn
  have hdir := hsame d (dir_mem _ _)
  have hmoves : Moves s s' (X + vmPages s.content d) (m ::ₘ X + vmPages s'.content d) := by
    refine ⟨?_, ?_⟩
    · rw [State.within, State.within, hpages, hfree, ← cons_coe, cons_add, add_cons, cons_add]
    · intro a ha
      apply hother
      rintro rfl
      exact ha (mem_add.mpr (.inl (mem_coe.mpr hmfree)))
  refine ⟨⟨hmoves, ?_, ?_, ?_⟩, h.of_moves hmoves ?_ ?_, hpte⟩
  · intro a ha
    rw [hfree]
    exact List.mem_cons_of_mem m ha
  · intro i t ht
    unfold IsTable at ht ⊢
    rw [hdir] at ht
    exact .inl ht
  · intro a ha _ _
    apply hother
    rintro rfl
    exact ha hmfree
  · rw [hdir]
    exact h.tables
  · intro n hn
    rw [hpte n (by omega)]
    exact h.users n hn

lemma walkpgdir_read (s : Vm P) (d : Addr P) (va : BitVec 32) :
    Wp (walkpgdir d va false) s (fun r s' => s' = s ∧ match r with
      | none => (target ((s.content d).word (pdx va)) : Ptr P) = none
      | some (t, j) => j = ptx va ∧ IsTable s.content d (pdx va) t)
      (fun _ _ => present ((s.content d).word (pdx va)) = true ∧
        (target ((s.content d).word (pdx va)) : Ptr P) = none) := by
  unfold walkpgdir
  simp only [page, wp_bind, wp_get, wp_pure]
  by_cases hpresent : present ((s.content d).word (pdx va)) = true
  · rw [if_pos hpresent, wp_bind]
    cases ht : (target ((s.content d).word (pdx va)) : Ptr P) with
    | none =>
      rw [target_of_present hpresent] at ht
      unfold p2v
      rw [ht]
      exact ⟨hpresent, rfl⟩
    | some t =>
      refine (p2v_spec s ht).mono ?_ (fun _ _ h => h.elim)
      rintro _ s' ⟨rfl, rfl⟩
      exact ⟨rfl, rfl, pdx_lt va, ht⟩
  · rw [if_neg hpresent]
    exact ⟨rfl, target_of_not_present hpresent⟩

lemma walkpgdir_find (h : Sane k s.content d) (va : BitVec 32) :
    Wp (walkpgdir d va false) s (fun r s' => s' = s ∧ match r with
      | none => (target ((s.content d).word (pdx va)) : Ptr P) = none
      | some (t, j) => j = ptx va ∧ IsTable s.content d (pdx va) t) (fun _ _ => False) := by
  refine (walkpgdir_read s d va).mono (fun _ _ h => h) ?_
  rintro _ _ ⟨hpresent, hnone⟩
  obtain ⟨t, ht⟩ := h.tables (pdx va) (pdx_lt va) hpresent
  rw [hnone] at ht
  cases ht

lemma target_newTable (hP : P ≤ 2 ^ 19) (t : Addr P) : (target (v2p t ||| PTE_P ||| PTE_W ||| PTE_U) : Ptr P) = some t := by
  have horder : v2p t ||| PTE_P ||| PTE_W ||| PTE_U = v2p t ||| (PTE_W ||| PTE_U) ||| PTE_P := by ac_rfl
  rw [horder]
  exact target_v2p hP t (by decide)

lemma content_newTable {i : ℕ} {w : BitVec 32} (hne : d ≠ t) (hcontent : s₁.content = s.content)
    (hs' : s' = (s₁.write t (Page.fill 0)).write d (((s₁.write t (Page.fill 0)).content d).setWord i w)) :
    s'.content d = (s.content d).setWord i w ∧ s'.content t = Page.fill 0 ∧ ∀ a, a ≠ d → a ≠ t → s'.content a = s.content a := by
  refine ⟨?_, ?_, ?_⟩
  · rw [hs', content_write, update_self, content_write, update_of_ne hne, hcontent]
  · rw [hs', content_write, update_of_ne hne.symm, content_write, update_self]
  · intro a hd ht
    rw [hs', content_write, update_of_ne hd, content_write, update_of_ne ht, hcontent]

lemma Space.addTable (hP : P ≤ 2 ^ 19) (h : Space k s X d) {va : BitVec 32}
    (hnone : (target ((s.content d).word (pdx va)) : Ptr P) = none) (hfree : s.free = t :: s₁.free)
    (hcontent : s₁.content = s.content)
    (hs' : s' = (s₁.write t (Page.fill 0)).write d (((s₁.write t (Page.fill 0)).content d).setWord (pdx va)
      (v2p t ||| PTE_P ||| PTE_W ||| PTE_U))) :
    IsTable s'.content d (pdx va) t ∧ Edits s s' X X d ∧ Space k s' X d ∧
      ∀ n < 2 ^ 20, pte s'.content d n = pte s.content d n := by
  have htfree : t ∈ s.free := by
    rw [hfree]
    exact List.mem_cons_self
  have ht := h.not_mem_of_free htfree
  have hne : d ≠ t := by
    rintro rfl
    exact ht (dir_mem _ _)
  have htarget := target_newTable hP t
  obtain ⟨hd, hzero, hother⟩ := content_newTable hne hcontent hs'
  have hpages := vmPages_addTable h.nodup (pdx_lt va) hnone ht htarget
    (fun j _ => by rw [hzero, Page.word_fill_zero, target_zero]) hd hother
  have hpte : ∀ n < 2 ^ 20, pte s'.content d n = pte s.content d n := fun n hn =>
    (apart_of_nodup h.nodup).pte_addTable hnone (fun _ htable => ht htable.mem) htarget
      (fun j _ => by rw [hzero, Page.word_fill_zero]) hd hother hn
  have hs'free : s'.free = s₁.free := by
    rw [hs', free_write, free_write]
  have hmoves : Moves s s' (X + vmPages s.content d) (X + vmPages s'.content d) := by
    refine ⟨?_, ?_⟩
    · rw [hpages, State.within, State.within, hs'free, hfree, add_cons, add_cons, ← cons_coe, cons_add]
    · intro a ha
      apply hother
      · rintro rfl
        exact ha (mem_add.mpr (.inr (mem_add.mpr (.inr (dir_mem _ _)))))
      · rintro rfl
        exact ha (mem_add.mpr (.inl (mem_coe.mpr htfree)))
  refine ⟨⟨pdx_lt va, ?_⟩, ⟨hmoves, ?_, ?_, ?_⟩, ?_, hpte⟩
  · rw [hd, Page.word_setWord _ _ (pdx_lt va), if_pos rfl, htarget]
  · intro a ha
    rw [hfree]
    rw [hs'free] at ha
    exact List.mem_cons_of_mem t ha
  · rintro i t' ⟨hi, ht'⟩
    rw [hd, Page.word_setWord _ _ hi] at ht'
    split at ht'
    · rw [htarget] at ht'
      exact .inr (Option.some.inj ht' ▸ htfree)
    · exact .inl ⟨hi, ht'⟩
  · intro a ha had _
    apply hother a had
    rintro rfl
    exact ha htfree
  · refine h.of_moves hmoves ?_ ?_
    · intro i hi hp
      rw [hd, Page.word_setWord _ _ hi] at hp ⊢
      split
      · exact ⟨t, htarget⟩
      · rename_i hne
        rw [if_neg hne] at hp
        exact h.tables i hi hp
    · intro n hn
      rw [hpte n (by omega)]
      exact h.users n hn

lemma walkpgdir_alloc (hP : P ≤ 2 ^ 19) (h : Space k s X d) (va : BitVec 32) :
    Wp (walkpgdir d va true) s (fun r s' => match r with
      | none => s' = s ∧ s.free = []
      | some (t, j) => j = ptx va ∧ IsTable s'.content d (pdx va) t ∧ Edits s s' X X d ∧ Space k s' X d ∧
          ∀ n < 2 ^ 20, pte s'.content d n = pte s.content d n) (fun _ _ => False) := by
  unfold walkpgdir
  simp only [page, wp_bind, wp_get, wp_pure]
  by_cases hpresent : present ((s.content d).word (pdx va)) = true
  · obtain ⟨t, ht⟩ := h.tables (pdx va) (pdx_lt va) hpresent
    rw [if_pos hpresent, wp_bind]
    refine (p2v_spec s ht).imp ?_
    rintro _ s' ⟨rfl, rfl⟩
    exact ⟨rfl, ⟨pdx_lt va, ht⟩, Edits.refl _ _ _, h, fun _ _ => rfl⟩
  · rw [if_neg hpresent]
    refine Wp.bind (kalloc_spec s) ?_ (fun _ _ h => h)
    rintro (_ | t) s₁ h₁
    · exact h₁
    · simp only [setPage, setWord, page, wp_bind, wp_modify, wp_get, wp_pure]
      exact ⟨trivial, h.addTable hP (target_of_not_present hpresent) h₁.1 h₁.2 rfl⟩

/-! ### Mapping one page -/

section SetPte

variable {i j : ℕ} {w : BitVec 32} (ht : IsTable s.content d i t)
  (hs' : s' = s.write t ((s.content t).setWord j w))

include hs'

lemma content_setPte : s'.content = update s.content t ((s.content t).setWord j w) := by
  rw [hs', content_write]

include ht

lemma Edits.of_setPte (hnodup : (vmPages s.content d).Nodup)
    (hpages : X' + vmPages s'.content d = X + vmPages s.content d) : Edits s s' X X' d := by
  have hdir : s'.content d = s.content d := by
    rw [hs', content_write, update_of_ne (table_ne_dir hnodup ht).symm]
  have hother : ∀ a, a ≠ t → s'.content a = s.content a := by
    intro a ha
    rw [hs', content_write, update_of_ne ha]
  refine ⟨⟨?_, ?_⟩, ?_, ?_, ?_⟩
  · rw [State.within, State.within, hpages, hs', free_write]
  · intro a ha
    apply hother
    rintro rfl
    exact ha (mem_add.mpr (.inr (mem_add.mpr (.inr ht.mem))))
  · intro a ha
    rwa [hs'] at ha
  · rintro i' t' ⟨hi', ht'⟩
    rw [hdir] at ht'
    exact .inl ⟨hi', ht'⟩
  · intro a _ _ hno
    apply hother
    rintro rfl
    exact hno i ht

lemma Space.setPte (h : Space k s X d) (hj : j < 1024) (hpages : X' + vmPages s'.content d = X + vmPages s.content d)
    (hw : i < 512 → ∃ m : Addr P, target w = some m ∧ Frees k m) :
    Edits s s' X X' d ∧ Space k s' X' d ∧
      ∀ n < 2 ^ 20, pte s'.content d n = if n = 1024 * i + j then w else pte s.content d n := by
  have hc := content_setPte hs'
  have hedits := Edits.of_setPte ht hs' h.nodup hpages
  have hpte : ∀ n < 2 ^ 20, pte s'.content d n = if n = 1024 * i + j then w else pte s.content d n :=
    fun n hn => (apart_of_nodup h.nodup).pte_setPte ht hj hc hn
  refine ⟨hedits, h.of_moves hedits.moves ?_ ?_, hpte⟩
  · rw [hc, update_of_ne (table_ne_dir h.nodup ht).symm]
    exact h.tables
  · intro n hn hp
    rw [hpte n (by omega)] at hp ⊢
    split
    · exact hw (by omega)
    · rename_i hne
      rw [if_neg hne] at hp
      exact h.users n hn hp

lemma Space.mapUser (h : Space k s (m ::ₘ X) d) (hi : i < 512) (hj : j < 1024)
    (hold : ¬ present ((s.content t).word j) = true) (hw : target w = some m) :
    Edits s s' (m ::ₘ X) X d ∧ Space k s' X d ∧
      ∀ n < 2 ^ 20, pte s'.content d n = if n = 1024 * i + j then w else pte s.content d n := by
  have hpages := vmPages_setPte h.nodup ht hi hj (content_setPte hs')
  rw [target_of_not_present hold, hw] at hpages
  have hcons : vmPages s'.content d = m ::ₘ vmPages s.content d := by
    rw [← singleton_add, add_comm]
    simpa only [optPages, Option.elim_none, Option.elim_some, add_zero] using hpages
  refine h.setPte ht hs' hj ?_ (fun _ => ⟨m, hw, h.pool m ?_⟩)
  · rw [hcons, add_cons, cons_add]
  · exact mem_add.mpr (.inr (mem_add.mpr (.inl (mem_cons_self ..))))

lemma Space.mapKernel (h : Space k s X d) (hi : 512 ≤ i) (hj : j < 1024) :
    Edits s s' X X d ∧ Space k s' X d ∧
      ∀ n < 2 ^ 20, pte s'.content d n = if n = 1024 * i + j then w else pte s.content d n := by
  refine h.setPte ht hs' hj ?_ (fun h => by omega)
  rw [vmPages_setKernelPte h.nodup ht hi (content_setPte hs')]

end SetPte

def entryFor (m : Addr P) (perm : BitVec 32) : BitVec 32 :=
  v2p m ||| perm ||| PTE_P

lemma mappages_user (hP : P ≤ 2 ^ 19) (h : Space k s (m ::ₘ X) d) {va perm : BitVec 32} {n : ℕ}
    (hva : va.toNat = n * 4096) (hn : n < 2 ^ 19) (hfree : ¬ present (pte s.content d n) = true)
    (hperm : perm.toNat < 4096) :
    Wp (mappages d va 0x1000 (v2p m) perm) s (fun ok s' =>
      if ok then Edits s s' (m ::ₘ X) X d ∧ Space k s' X d ∧
        ∀ n' < 2 ^ 20, pte s'.content d n' = if n' = n then entryFor m perm else pte s.content d n'
      else s' = s ∧ s.free = []) (fun _ _ => False) := by
  have hlast : pgRoundDown (va + 0x1000 - 1) = pgRoundDown va := by
    apply BitVec.eq_of_toNat_eq
    rw [toNat_pgRoundDown, toNat_pgRoundDown]
    have hsum : (va + 0x1000 - 1).toNat = va.toNat + 4095 := by
      bv_omega
    rw [hsum]
    omega
  have hdown : pgRoundDown va = va := by
    apply BitVec.eq_of_toNat_eq
    rw [toNat_pgRoundDown]
    omega
  have hnum : 1024 * pdx va + ptx va = n := by
    rw [pdx_ptx]
    omega
  have hpdx : pdx va < 512 := by
    rw [pdx_eq]
    omega
  have hptx := ptx_lt va
  unfold mappages
  rw [hlast, hdown]
  change Wp (mapLoop d va perm (1048575 + 1) va (v2p m)) _ _ _
  unfold mapLoop
  refine Wp.bind (walkpgdir_alloc hP h va) ?_ (fun _ _ h => h)
  rintro (_ | ⟨t, j⟩) s₁ h₁
  · exact h₁
  · obtain ⟨rfl, ht, hedits, hspace, hpte⟩ := h₁
    have hold : ¬ present ((s₁.content t).word (ptx va)) = true := by
      have hdiv : n / 1024 = pdx va := by omega
      have hmod : n % 1024 = ptx va := by omega
      rw [← hpte n (by omega), IsTable.pte (hdiv ▸ ht), hmod] at hfree
      exact hfree
    simp only [page, setWord, setPage, wp_bind, wp_get, wp_pure]
    rw [if_neg hold]
    simp only [wp_bind, wp_get, wp_pure, wp_modify, if_true]
    obtain ⟨hedits', hspace', hpte'⟩ := hspace.mapUser ht rfl hpdx hptx hold (target_v2p hP m hperm)
    refine ⟨hedits.trans hedits', hspace', ?_⟩
    intro n' hn'
    rw [hpte' n' hn', hnum, hpte n' hn']
    rfl

end Vm

end Xv6Bfs
