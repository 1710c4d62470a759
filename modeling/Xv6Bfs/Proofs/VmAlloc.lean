import Xv6Bfs.Proofs.VmFree

/-!
# Growing an address space

`allocuvm` maps new pages one after the other. If the memory runs out, for a page or for a page
table, it takes all of them back.
-/

namespace Xv6Bfs

open Ledger Multiset Program

namespace Vm

variable {P : ℕ} {s₀ s s₁ s' : Vm P} {d t u m : Addr P} {X X' : Multiset (Addr P)} {k : KernelLayout} {n lo hi : ℕ}
  {oldsz newsz : BitVec 32}

/-- New zeroed pages are mapped at `lo`..`hi` and nowhere else. -/
structure Grown (k : KernelLayout) (X X' : Multiset (Addr P)) (lo hi : ℕ) (s s' : Vm P) (d : Addr P) : Prop where
  edits : Edits s s' X X' d
  space : Space k s' X' d
  outside : ∀ n < 2 ^ 20, ¬ (lo ≤ n ∧ n < hi) → pte s'.content d n = pte s.content d n
  inside : ∀ n, lo ≤ n → n < hi →
    ∃ m ∈ s.free, pte s'.content d n = entryFor m (PTE_W ||| PTE_U) ∧ s'.content m = Page.fill 0

/-- Nothing is mapped at `lo`..`hi`, and the rest is as before. -/
structure Undone (k : KernelLayout) (X X' : Multiset (Addr P)) (lo hi : ℕ) (s s' : Vm P) (d : Addr P) : Prop where
  moves : Moves s s' (X + vmPages s.content d) (X' + vmPages s'.content d)
  space : Space k s' X' d
  outside : ∀ n < 2 ^ 20, ¬ (lo ≤ n ∧ n < hi) → pte s'.content d n = pte s.content d n
  inside : ∀ n, lo ≤ n → n < hi → ¬ present (pte s'.content d n) = true
  other : ∀ a, a ∉ s.free → a ≠ d → (∀ i, ¬ IsTable s.content d i a) → s'.content a = s.content a

lemma Grown.refl (h : Space k s X d) (hle : hi ≤ lo) : Grown k X X lo hi s s d :=
  ⟨Edits.refl s X d, h, fun _ _ _ => rfl, fun n hlo hhi => by omega⟩

lemma Grown.edit {X₁ : Multiset (Addr P)} (h : Grown k X X' lo hi s₀ s d) (hhi : hi ≤ 2 ^ 19) (hP : P ≤ 2 ^ 19)
    (hedits : Edits s s₁ X' X₁ d) (hspace : Space k s₁ X₁ d)
    (hpte : ∀ n < 2 ^ 20, pte s₁.content d n = pte s.content d n) : Grown k X X₁ lo hi s₀ s₁ d := by
  refine ⟨h.edits.trans hedits, hspace, ?_, ?_⟩
  · intro n hn hout
    rw [hpte n hn, h.outside n hn hout]
  · intro n hlo hhi'
    obtain ⟨m, hm, hentry, hzero⟩ := h.inside n hlo hhi'
    refine ⟨m, hm, (hpte n (by omega)).trans hentry, ?_⟩
    have htarget : target (pte s.content d n) = some m := by
      rw [hentry]
      exact target_v2p hP m (by decide)
    obtain ⟨hfree, hdir, htable⟩ := h.space.user_ne (by omega) htarget
    rw [hedits.other m hfree hdir htable, hzero]

lemma Grown.map (h : Grown k X (m ::ₘ X) lo hi s₀ s d) (hlo : lo ≤ hi) (hhi : hi < 2 ^ 19) (hP : P ≤ 2 ^ 19)
    (hm : m ∈ s₀.free) (hzero : s.content m = Page.fill 0) (hedits : Edits s s' (m ::ₘ X) X d) (hspace : Space k s' X d)
    (hpte : ∀ n < 2 ^ 20, pte s'.content d n = if n = hi then entryFor m (PTE_W ||| PTE_U) else pte s.content d n) :
    Grown k X X lo (hi + 1) s₀ s' d := by
  have hkeep : s'.content m = s.content m := by
    have hmem := h.space.not_mem
    apply hedits.other
    · intro hfree
      have hrest := (nodup_add.mp h.space.apart).2.2
      exact disjoint_left.mp hrest (mem_coe.mpr hfree)
        (mem_add.mpr (.inl (mem_cons_self ..)))
    · rintro rfl
      exact hmem (dir_mem _ _)
    · intro i hi
      exact hmem hi.mem
  refine ⟨h.edits.trans hedits, hspace, ?_, ?_⟩
  · intro n hn hout
    rw [hpte n hn, if_neg (by omega), h.outside n hn (by omega)]
  · intro n hn hn'
    by_cases heq : n = hi
    · refine ⟨m, hm, ?_, hkeep.trans hzero⟩
      rw [hpte n (by omega), if_pos heq]
    · obtain ⟨m', hm', hentry, hzero'⟩ := h.inside n hn (by omega)
      refine ⟨m', hm', ?_, ?_⟩
      · rw [hpte n (by omega), if_neg heq, hentry]
      · have htarget : target (pte s.content d n) = some m' := by
          rw [hentry]
          exact target_v2p hP m' (by decide)
        obtain ⟨hfree, hdir, htable⟩ := h.space.user_ne (by omega) htarget
        rw [hedits.other m' hfree hdir htable, hzero']

lemma Space.cleared (h : Space k s X d) (hc : Cleared lo hi s s' d) (hsane : Sane k s'.content d) :
    Space k s' X d ∧ Moves s s' (X + vmPages s.content d) (X + vmPages s'.content d) := by
  have hmoves : Moves s s' (X + vmPages s.content d) (X + vmPages s'.content d) := by
    refine ⟨?_, ?_⟩
    · rw [State.within, State.within, hc.pages, hc.free, ← coe_add, coe_reverse]
      abel
    · intro a ha
      have hmem : a ∉ vmPages s.content d := fun hmem =>
        ha (mem_add.mpr (.inr (mem_add.mpr (.inr hmem))))
      apply hc.other
      · intro hin
        apply hmem
        rw [hc.pages]
        exact mem_add.mpr (.inl (mem_coe.mpr hin))
      · intro i hi
        exact hmem hi.mem
  exact ⟨h.of_moves hmoves hsane.tables hsane.users, hmoves⟩

lemma Grown.undo (h : Grown k X X' lo n s₀ s d) (hP : P ≤ 2 ^ 19) (hnew : newsz ≤ KERNBASE)
    (hn : n ≤ pageCeil newsz) (hlo : lo = pageCeil oldsz)
    (hunused : ∀ n, lo ≤ n → n < pageCeil newsz → ¬ present (pte s₀.content d n) = true) :
    Wp (deallocuvm k d newsz oldsz) s (fun _ s' => Undone k X X' lo (pageCeil newsz) s₀ s' d) (fun _ _ => False) := by
  have hceil := pageCeil_le hnew
  refine (deallocuvm_spec h.space.toSane hnew oldsz).imp ?_
  intro _ s' hpost
  obtain ⟨hcleared, hsane⟩ := hpost.2
  rw [← hlo] at hcleared
  obtain ⟨hspace, hmoves⟩ := h.space.cleared hcleared hsane
  refine ⟨h.edits.moves.trans hmoves, hspace, ?_, ?_, ?_⟩
  · intro n' hn' hout
    rw [hcleared.pte n' hn', if_neg (by omega), h.outside n' hn' (by omega)]
  · intro n' hlo' hhi'
    rw [hcleared.pte n' (by omega)]
    split
    · decide
    · rename_i hp
      exact fun hpresent => hp ⟨hlo', hhi', hpresent⟩
  · intro a hfree hd htable
    rw [hcleared.other a, h.edits.other a hfree hd htable]
    · intro hin
      obtain ⟨n', hlo', hhi', htarget⟩ := mem_pagesIn.mp hin
      by_cases hlt : n' < n
      · obtain ⟨m, hm, hentry, _⟩ := h.inside n' hlo' hlt
        rw [hentry] at htarget
        have hperm : (PTE_W ||| PTE_U).toNat < 4096 := by decide
        have heq := (target_v2p hP m hperm).symm.trans htarget
        exact hfree (Option.some.inj heq ▸ hm)
      · rw [h.outside n' (by omega) (by omega)] at htarget
        exact hunused n' hlo' hhi' (present_of_target htarget)
    · intro i hi
      exact (h.edits.tables i a hi).elim (htable i) hfree

lemma Undone.release (h : Undone k X (m ::ₘ X) lo hi s s₁ d) (hhi : hi ≤ 2 ^ 19) (hm : m ∈ s.free)
    (hr : Released s₁ s' {m}) :
    Undone k X X lo hi s s' d := by
  obtain ⟨hspace, hmoves, hpte⟩ := h.space.release hr
  refine ⟨h.moves.trans hmoves, hspace, ?_, ?_, ?_⟩
  · intro n hn hout
    rw [hpte n hn, h.outside n hn hout]
  · intro n hlo hhi'
    rw [hpte n (by omega)]
    exact h.inside n hlo hhi'
  · intro a hfree hd htable
    rw [hr.other, h.other a hfree hd htable]
    rw [mem_singleton]
    rintro rfl
    exact hfree hm

lemma allocLoop_spec (hP : P ≤ 2 ^ 19) (hnew : newsz ≤ KERNBASE)
    (hunused : ∀ n, pageCeil oldsz ≤ n → n < pageCeil newsz → ¬ present (pte s₀.content d n) = true) (fuel : ℕ) :
    ∀ n s, pageCeil oldsz ≤ n → n ≤ pageCeil newsz → pageCeil newsz - n < fuel →
      Grown k X X (pageCeil oldsz) n s₀ s d →
      Wp (allocLoop k d oldsz newsz fuel (pageVa n)) s (fun ok s' =>
        if ok then Grown k X X (pageCeil oldsz) (pageCeil newsz) s₀ s' d
        else Undone k X X (pageCeil oldsz) (pageCeil newsz) s₀ s' d) (fun _ _ => False) := by
  have hceil := pageCeil_le hnew
  induction fuel with
  | zero => intro n s _ _ hfuel; omega
  | succ fuel ih =>
    intro n s hlo hhi hfuel hgrown
    unfold allocLoop
    by_cases hlt : n < pageCeil newsz
    swap
    · have heq : n = pageCeil newsz := by omega
      rw [if_neg (by rwa [pageVa_lt_iff (by omega)])]
      exact heq ▸ hgrown
    rw [if_pos ((pageVa_lt_iff (by omega)).mpr hlt)]
    refine Wp.bind (kalloc_spec s) ?_ (fun _ _ h => h)
    rintro (_ | m) s₁ h₁
    · obtain ⟨rfl, _⟩ := h₁
      exact Wp.bind (hgrown.undo hP hnew hhi rfl hunused) (fun _ _ h => h) (fun _ _ h => h)
    · obtain ⟨hfree, hcontent⟩ := h₁
      simp only [setPage, wp_bind, wp_modify]
      -- the page is taken and cleared
      have hm : m ∈ s₀.free := by
        apply hgrown.edits.free
        rw [hfree]
        exact List.mem_cons_self
      have hzero : (s₁.write m (Page.fill 0)).content = Function.update s.content m (Page.fill 0) := by
        rw [content_write, hcontent]
      rw [← free_write s₁ m (Page.fill 0)] at hfree
      obtain ⟨hedits, hspace, hpte⟩ := hgrown.space.take hfree hzero
      have htaken := hgrown.edit (by omega) hP hedits hspace hpte
      have hn : ¬ present (pte (s₁.write m (Page.fill 0)).content d n) = true := by
        rw [htaken.outside n (by omega) (by omega)]
        exact hunused n hlo hlt
      refine (mappages_user hP hspace (toNat_pageVa (by omega)) (by omega) hn (by decide)).mono ?_ (fun _ _ h => h)
      rintro (_ | _) s₂ h₂
      · obtain ⟨rfl, _⟩ := h₂
        refine Wp.bind (htaken.undo hP hnew hhi rfl hunused) ?_ (fun _ _ h => h)
        intro _ s₃ hundone
        refine Wp.bind (kfree_released ?_) ?_ (fun _ _ h => h)
        · exact hspace.pool m (mem_add.mpr (.inr (mem_add.mpr (.inl (mem_cons_self ..)))))
        · intro _ s' hr
          exact hundone.release hceil hm hr
      · obtain ⟨hedits₂, hspace₂, hpte₂⟩ := h₂
        simp only [if_true]
        rw [pageVa_succ]
        apply ih (n + 1) s₂ (by omega) (by omega) (by omega)
        exact htaken.map hlo (by omega) hP hm (Function.update_self ..) hedits₂ hspace₂ hpte₂

/-- `allocuvm` maps all pages or none. -/
lemma allocuvm_spec (hP : P ≤ 2 ^ 19) (h : Space k s X d) (hle : oldsz ≤ newsz)
    (hnew : newsz < KERNBASE)
    (hunused : ∀ n, pageCeil oldsz ≤ n → n < pageCeil newsz → ¬ present (pte s.content d n) = true) :
    Wp (allocuvm k d oldsz newsz) s (fun r s' =>
      r = newsz ∧ Grown k X X (pageCeil oldsz) (pageCeil newsz) s s' d ∨
      r = 0 ∧ Undone k X X (pageCeil oldsz) (pageCeil newsz) s s' d) (fun _ _ => False) := by
  have hnew' : newsz ≤ KERNBASE := BitVec.le_of_lt hnew
  have hceil := pageCeil_le hnew'
  have hmono : pageCeil oldsz ≤ pageCeil newsz := by
    have hle' : oldsz.toNat ≤ newsz.toNat := hle
    unfold pageCeil
    omega
  have hnot : ¬ newsz ≥ KERNBASE := BitVec.not_le.mpr hnew
  unfold allocuvm
  rw [if_neg hnot, if_neg (BitVec.not_lt.mpr hle), pgRoundUp_eq (BitVec.le_trans hle hnew')]
  refine Wp.bind (allocLoop_spec hP hnew' hunused (2 ^ 20) (pageCeil oldsz) s (le_refl _) hmono (by omega)
    (Grown.refl h (le_refl _))) ?_ (fun _ _ h => h)
  rintro (_ | _) s' hpost
  · exact .inr ⟨rfl, hpost⟩
  · exact .inl ⟨rfl, hpost⟩

def mapping (c : Addr P → Page) (d : Addr P) (n : ℕ) : Option (BitVec 32) :=
  if present (pte c d n) then some (pte c d n) else none

lemma mapping_of_eq {c c' : Addr P → Page} (h : pte c' d n = pte c d n) : mapping c' d n = mapping c d n := by
  unfold mapping
  rw [h]

lemma mapping_of_not_present {c : Addr P → Page} (h : ¬ present (pte c d n) = true) : mapping c d n = none :=
  if_neg h

lemma Undone.mapping (h : Undone k X X' lo hi s s' d)
    (hunused : ∀ n, lo ≤ n → n < hi → ¬ present (pte s.content d n) = true) (hn : n < 2 ^ 20) :
    mapping s'.content d n = mapping s.content d n := by
  by_cases hrange : lo ≤ n ∧ n < hi
  · rw [mapping_of_not_present (h.inside n hrange.1 hrange.2), mapping_of_not_present (hunused n hrange.1 hrange.2)]
  · exact mapping_of_eq (h.outside n hn hrange)

lemma Undone.free_or_table (h : Undone k X X lo hi s s' d) (hs : Space k s X d) {a : Addr P}
    (ha : a ∈ s.free) : a ∈ s'.free ∨ ∃ i, IsTable s'.content d i a := by
  have hdisjoint := disjoint_left.mp (nodup_add.mp hs.apart).2.2 (mem_coe.mpr ha)
  rw [mem_add, not_or] at hdisjoint
  have hmem : a ∈ s'.within (X + vmPages s'.content d) := by
    rw [h.moves.balance]
    exact mem_add.mpr (.inl (mem_coe.mpr ha))
  rcases mem_add.mp hmem with hfree | howned
  · exact .inl (mem_coe.mp hfree)
  · rcases mem_add.mp howned with hX | hvm
    · exact absurd hX hdisjoint.1
    · rcases mem_vmPages hvm with rfl | htable | ⟨n, hn, hu⟩
      · exact absurd (dir_mem _ _) hdisjoint.2
      · exact .inr htable
      · -- its entry was there before
        exfalso
        by_cases hrange : lo ≤ n ∧ n < hi
        · exact h.inside n hrange.1 hrange.2 (present_of_target hu)
        · rw [h.outside n (by omega) hrange] at hu
          exact hdisjoint.2 (mem_vmPages_of_pte hn hu)

theorem allocuvm_all_or_nothing (hP : P ≤ 2 ^ 19) (h : Space k s X d) {oldsz newsz : BitVec 32} (hle : oldsz ≤ newsz)
    (hnew : newsz < KERNBASE)
    (hunused : ∀ n, pageCeil oldsz ≤ n → n < pageCeil newsz → ¬ present (pte s.content d n) = true) :
    ∃ r s', allocuvm k d oldsz newsz s = .ok r s' ∧
      (∀ n < 2 ^ 20, ¬ (pageCeil oldsz ≤ n ∧ n < pageCeil newsz) → pte s'.content d n = pte s.content d n) ∧
      (∀ n < 2 ^ 19, ∀ u, target (pte s.content d n) = some u → s'.content u = s.content u) ∧
      (r = newsz ∧ (∀ n, pageCeil oldsz ≤ n → n < pageCeil newsz →
          ∃ m ∈ s.free, pte s'.content d n = entryFor m (PTE_W ||| PTE_U) ∧ s'.content m = Page.fill 0) ∧
        (∀ n < 2 ^ 19, ∀ n' < 2 ^ 19, ∀ u : Addr P, target (pte s'.content d n) = some u →
          target (pte s'.content d n') = some u → n = n') ∨
      r = 0 ∧ (∀ n < 2 ^ 20, mapping s'.content d n = mapping s.content d n) ∧
        ∀ a ∈ s.free, a ∈ s'.free ∨ ∃ i, IsTable s'.content d i a) := by
  obtain ⟨r, s', hrun, hpost⟩ := (allocuvm_spec hP h hle hnew hunused).exists_ok
  refine ⟨r, s', hrun, ?_⟩
  rcases hpost with ⟨hr, hgrown⟩ | ⟨hr, hundone⟩
  · refine ⟨hgrown.outside, ?_, .inl ⟨hr, hgrown.inside, ?_⟩⟩
    · intro n hn u hu
      obtain ⟨hfree, hdir, htable⟩ := h.user_ne hn hu
      exact hgrown.edits.other u hfree hdir htable
    · intro n hn n' hn' u hu hu'
      exact pte_inj hgrown.space.nodup hn hn' hu hu'
  · refine ⟨hundone.outside, ?_, .inr ⟨hr, ?_, ?_⟩⟩
    · intro n hn u hu
      obtain ⟨hfree, hdir, htable⟩ := h.user_ne hn hu
      exact hundone.other u hfree hdir htable
    · intro n hn
      exact hundone.mapping hunused hn
    · intro a ha
      exact hundone.free_or_table h ha

/-- Two pages for a directory without any. -/
theorem allocuvm_all_or_nothing_one : ∃ s s' : Vm 6, (∀ n, pte s.content 1 n = 0) ∧
    allocuvm ⟨4096, []⟩ 1 0 0x2000 s = .ok 0x2000 s' ∧
    ∀ n < 2, ∃ m ∈ s.free, pte s'.content 1 n = entryFor m (PTE_W ||| PTE_U) ∧ s'.content m = Page.fill 0 := by
  obtain ⟨hspace, _, hpte⟩ := Space.of_zero (k := ⟨4096, []⟩) (s := (⟨[2, 3, 4], fun _ => Page.fill 0⟩ : Vm 6)) (d := 1)
    (X := 0) rfl (by decide) (by unfold Frees; decide)
  have hle : (0 : BitVec 32) ≤ 0x2000 := by decide
  obtain ⟨r, s', hrun, -, -, hcases⟩ := allocuvm_all_or_nothing (by decide) hspace hle (by decide)
    (fun n _ _ => by rw [hpte]; decide)
  have hvalue : (allocuvm ⟨4096, []⟩ 1 0 0x2000).run' (⟨[2, 3, 4], fun _ => Page.fill 0⟩ : Vm 6) = some 0x2000 := by
    decide +kernel
  unfold EStateM.run' EStateM.run at hvalue
  rw [hrun] at hvalue
  obtain rfl := Option.some.inj hvalue
  rcases hcases with ⟨-, hpages, -⟩ | ⟨hzero, -⟩
  · exact ⟨_, s', hpte, hrun, fun n hn => hpages n (by decide +revert) (by decide +revert)⟩
  · exact absurd hzero (by decide)

end Vm

end Xv6Bfs
