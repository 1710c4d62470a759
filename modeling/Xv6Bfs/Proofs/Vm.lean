import Xv6Bfs.Proofs.PageWord

/-!
# The pages of an address space

A page directory owns its page tables, and the pages that the entries of the user half point to.
Each function of `vm.c` moves pages between the free list and a directory, and touches no others.
-/

namespace Xv6Bfs

open Function Ledger Multiset Option Program

namespace Vm

variable {P : ℕ} {c c' : Addr P → Page} {d t u a : Addr P} {i j : ℕ} {n : ℕ} {w : BitVec 32}

/-! ### The pages below a directory -/

def optPages (o : Ptr P) : Multiset (Addr P) :=
  o.elim 0 (fun a => {a})

def tablePages (c : Addr P → Page) (t : Addr P) : Multiset (Addr P) :=
  total fun j : Fin 1024 => optPages (target ((c t).word j))

/-- The page table of an entry, and its pages if they are below `KERNBASE`. -/
def entryPages (c : Addr P → Page) (d : Addr P) (i : Fin 1024) : Multiset (Addr P) :=
  (target ((c d).word i)).elim 0 (fun t => t ::ₘ if i.val < 512 then tablePages c t else 0)

def vmPages (c : Addr P → Page) (d : Addr P) : Multiset (Addr P) :=
  d ::ₘ total (entryPages c d)

def IsTable (c : Addr P → Page) (d : Addr P) (i : ℕ) (t : Addr P) : Prop :=
  i < 1024 ∧ target ((c d).word i) = some t

lemma IsTable.entryPages (h : IsTable c d i t) :
    entryPages c d ⟨i, h.1⟩ = t ::ₘ if i < 512 then tablePages c t else 0 := by
  simp only [Vm.entryPages, h.2, elim_some]

lemma IsTable.mem (h : IsTable c d i t) : t ∈ vmPages c d := by
  apply mem_cons_of_mem
  apply mem_total.mpr
  refine ⟨⟨i, h.1⟩, ?_⟩
  rw [h.entryPages]
  exact mem_cons_self ..

lemma dir_mem (c : Addr P → Page) (d : Addr P) : d ∈ vmPages c d :=
  mem_cons_self ..

lemma entryPages_congr {k : Fin 1024} (hdir : target ((c' d).word k) = (target ((c d).word k) : Ptr P))
    (htable : ∀ t, IsTable c d k t → c' t = c t) : entryPages c' d k = entryPages c d k := by
  unfold entryPages
  rw [hdir]
  cases ht : (target ((c d).word k) : Ptr P) with
  | none => rw [elim_none, elim_none]
  | some t =>
    have hsame := htable t ⟨k.isLt, ht⟩
    simp only [elim_some, tablePages, hsame]

lemma vmPages_congr (hd : c' d = c d) (ht : ∀ i t, IsTable c d i t → c' t = c t) : vmPages c' d = vmPages c d := by
  unfold vmPages
  congr 1
  apply total_congr
  intro k
  exact entryPages_congr (by rw [hd]) (fun t => ht k t)

lemma vmPages_eq_of_frame (h : ∀ a ∈ vmPages c d, c' a = c a) : vmPages c' d = vmPages c d :=
  vmPages_congr (h d (dir_mem c d)) (fun _ t ht => h t ht.mem)

section Nodup

variable (hnodup : (vmPages c d).Nodup)

include hnodup

lemma table_ne_dir (ht : IsTable c d i t) : t ≠ d := by
  rintro rfl
  apply (nodup_cons.mp hnodup).1
  apply mem_total.mpr
  refine ⟨⟨i, ht.1⟩, ?_⟩
  rw [ht.entryPages]
  exact mem_cons_self ..

lemma table_inj (ht : IsTable c d i t) (ht' : IsTable c d j t) : i = j := by
  have hsum := (nodup_cons.mp hnodup).2
  have heq : (⟨i, ht.1⟩ : Fin 1024) = ⟨j, ht'.1⟩ := by
    apply eq_of_mem hsum (r := t)
    · rw [ht.entryPages]
      exact mem_cons_self ..
    · rw [ht'.entryPages]
      exact mem_cons_self ..
  exact congrArg Fin.val heq

lemma user_ne (ht : IsTable c d i t) (hi : i < 512) (hu : u ∈ tablePages c t) :
    u ≠ d ∧ ∀ k t', IsTable c d k t' → u ≠ t' := by
  obtain ⟨hdir, hsum⟩ := nodup_cons.mp hnodup
  have hentry : u ∈ entryPages c d ⟨i, ht.1⟩ := by
    rw [ht.entryPages, if_pos hi]
    exact mem_cons_of_mem hu
  refine ⟨?_, ?_⟩
  · rintro rfl
    exact hdir (mem_total.mpr ⟨_, hentry⟩)
  · rintro k t' ht' rfl
    have heq : (⟨i, ht.1⟩ : Fin 1024) = ⟨k, ht'.1⟩ := by
      apply eq_of_mem hsum hentry
      rw [ht'.entryPages]
      exact mem_cons_self ..
    obtain rfl : i = k := congrArg Fin.val heq
    obtain rfl : t = u := Option.some.inj (ht.2.symm.trans ht'.2)
    -- the table would be among its own pages
    have hnd := nodup_of_le (le_total _ ⟨i, ht.1⟩) hsum
    rw [ht.entryPages, if_pos hi] at hnd
    exact (nodup_cons.mp hnd).1 hu

lemma vmPages_addTable {w : BitVec 32} (hi : i < 1024) (hnone : (target ((c d).word i) : Ptr P) = none)
    (ht : t ∉ vmPages c d) (hw : target w = some t) (hzero : ∀ j < 1024, (target ((c' t).word j) : Ptr P) = none)
    (hd : c' d = (c d).setWord i w) (hother : ∀ a, a ≠ d → a ≠ t → c' a = c a) :
    vmPages c' d = t ::ₘ vmPages c d := by
  have htable : ∀ k t', IsTable c d k t' → c' t' = c t' := by
    intro k t' ht'
    apply hother t' (table_ne_dir hnodup ht')
    rintro rfl
    exact ht ht'.mem
  have hsum := total_add_eq (i := (⟨i, hi⟩ : Fin 1024)) (f := entryPages c' d) (g := entryPages c d) ?_
  · have hold : entryPages c d ⟨i, hi⟩ = 0 := by
      simp only [entryPages, hnone, elim_none]
    have htarget : IsTable c' d i t := by
      refine ⟨hi, ?_⟩
      rw [hd, Page.word_setWord _ _ hi, if_pos rfl, hw]
    have hpages : tablePages c' t = 0 := by
      apply total_zero
      intro j
      rw [hzero j j.isLt]
      rfl
    have hnew : entryPages c' d ⟨i, hi⟩ = {t} := by
      rw [htarget.entryPages, hpages, ite_self]
      rfl
    rw [hold, hnew, add_zero, add_comm, singleton_add] at hsum
    unfold vmPages
    rw [hsum, cons_swap]
  · intro k hk
    apply entryPages_congr _ (fun t' => htable k t')
    have hne : k.val ≠ i := fun heq => hk (Fin.ext heq)
    rw [hd, Page.word_setWord _ _ k.isLt, if_neg hne]

lemma vmPages_setPte {w : BitVec 32} (ht : IsTable c d i t) (hi : i < 512) (hj : j < 1024)
    (hc : c' = update c t ((c t).setWord j w)) :
    vmPages c' d + optPages (target ((c t).word j)) = vmPages c d + optPages (target w) := by
  have hdir : c' d = c d := by
    rw [hc, update_of_ne (table_ne_dir hnodup ht).symm]
  have hself : c' t = (c t).setWord j w := by
    rw [hc, update_self]
  have hpages : tablePages c' t + optPages (target ((c t).word j)) = tablePages c t + optPages (target w) := by
    have hsum := total_add_eq (i := (⟨j, hj⟩ : Fin 1024))
      (f := fun k : Fin 1024 => optPages (target ((c' t).word k) : Ptr P))
      (g := fun k : Fin 1024 => optPages (target ((c t).word k))) ?_
    · rw [hself] at hsum
      simp only [Page.word_setWord _ _ hj, if_true] at hsum
      unfold tablePages
      rw [hself]
      exact hsum
    · intro k hk
      have hne : k.val ≠ j := fun heq => hk (Fin.ext heq)
      rw [hself, Page.word_setWord _ _ k.isLt, if_neg hne]
  have ht' : IsTable c' d i t := ⟨ht.1, by rw [hdir, ht.2]⟩
  have hsum := total_add_eq (i := (⟨i, ht.1⟩ : Fin 1024)) (f := entryPages c' d) (g := entryPages c d) ?_
  · rw [ht.entryPages, ht'.entryPages, if_pos hi, if_pos hi] at hsum
    unfold vmPages
    have hcancel : total (entryPages c' d) + tablePages c t = total (entryPages c d) + tablePages c' t := by
      rw [add_cons, add_cons] at hsum
      exact (cons_inj_right t).mp hsum
    rw [cons_add, cons_add]
    congr 1
    have hadd := congrArg (· + optPages (target ((c t).word j))) hcancel
    rw [add_assoc _ (tablePages c' t), hpages, add_right_comm, ← add_assoc, add_right_comm _ (tablePages c t)] at hadd
    exact add_right_cancel hadd
  · intro k hk
    apply entryPages_congr (by rw [hdir])
    intro t' ht''
    rw [hc, update_of_ne]
    rintro rfl
    exact hk (Fin.ext (table_inj hnodup ht'' ht))

lemma vmPages_setKernelPte {w : BitVec 32} (ht : IsTable c d i t) (hi : 512 ≤ i)
    (hc : c' = update c t ((c t).setWord j w)) : vmPages c' d = vmPages c d := by
  have hdir : c' d = c d := by
    rw [hc, update_of_ne (table_ne_dir hnodup ht).symm]
  unfold vmPages
  congr 1
  apply total_congr
  intro k
  by_cases hk : k.val = i
  · have ht' : IsTable c' d k t := ⟨k.isLt, by rw [hdir, hk, ht.2]⟩
    have ht'' : IsTable c d k t := ⟨k.isLt, by rw [hk, ht.2]⟩
    have hnot : ¬ k.val < 512 := by omega
    have h₁ := ht'.entryPages
    have h₂ := ht''.entryPages
    rw [if_neg hnot] at h₁ h₂
    exact h₁.trans h₂.symm
  · apply entryPages_congr (by rw [hdir])
    intro t' ht'
    rw [hc, update_of_ne]
    rintro rfl
    exact hk (table_inj hnodup ht' ht)

end Nodup

/-! ### Entries by page number -/

/-- The entry of the virtual page with number `n`; it is 0 if there is no page table for it. -/
def pte (c : Addr P → Page) (d : Addr P) (n : ℕ) : BitVec 32 :=
  (target ((c d).word (n / 1024)) : Ptr P).elim 0 (fun t => (c t).word (n % 1024))

lemma IsTable.pte (h : IsTable c d (n / 1024) t) : pte c d n = (c t).word (n % 1024) := by
  simp only [Vm.pte, h.2, elim_some]

lemma pte_of_none (h : (target ((c d).word (n / 1024)) : Ptr P) = none) : pte c d n = 0 := by
  simp only [pte, h, elim_none]

lemma target_zero : (target 0 : Ptr P) = none :=
  target_of_not_present (by decide)

lemma exists_table (hn : n < 2 ^ 20) (hu : target (pte c d n) = some u) :
    ∃ t, IsTable c d (n / 1024) t ∧ target ((c t).word (n % 1024)) = some u := by
  cases ht : (target ((c d).word (n / 1024)) : Ptr P) with
  | none =>
    rw [pte_of_none ht, target_zero] at hu
    cases hu
  | some t =>
    have htable : IsTable c d (n / 1024) t := ⟨by omega, ht⟩
    rw [htable.pte] at hu
    exact ⟨t, htable, hu⟩

lemma mem_tablePages : u ∈ tablePages c t ↔ ∃ j < 1024, target ((c t).word j) = some u := by
  unfold tablePages
  rw [mem_total]
  constructor
  · rintro ⟨j, hj⟩
    refine ⟨j, j.isLt, ?_⟩
    cases htarget : (target ((c t).word j) : Ptr P) with
    | none =>
      rw [htarget] at hj
      cases hj
    | some a =>
      rw [htarget] at hj
      exact congrArg some (mem_singleton.mp hj).symm
  · rintro ⟨j, hj, htarget⟩
    refine ⟨⟨j, hj⟩, ?_⟩
    rw [htarget]
    exact mem_singleton_self u

lemma mem_vmPages_of_pte (hn : n < 2 ^ 19) (hu : target (pte c d n) = some u) : u ∈ vmPages c d := by
  obtain ⟨t, ht, htarget⟩ := exists_table (by omega) hu
  apply mem_cons_of_mem
  apply mem_total.mpr
  refine ⟨⟨n / 1024, ht.1⟩, ?_⟩
  rw [ht.entryPages, if_pos (by omega)]
  exact mem_cons_of_mem (mem_tablePages.mpr ⟨n % 1024, by omega, htarget⟩)

lemma mem_vmPages (hu : u ∈ vmPages c d) :
    u = d ∨ (∃ i, IsTable c d i u) ∨ ∃ n < 2 ^ 19, target (pte c d n) = some u := by
  unfold vmPages at hu
  rcases mem_cons.mp hu with rfl | hmem
  · exact .inl rfl
  · obtain ⟨i, hi⟩ := mem_total.mp hmem
    unfold entryPages at hi
    cases ht : (target ((c d).word i) : Ptr P) with
    | none =>
      rw [ht, elim_none] at hi
      cases hi
    | some t =>
      have htable : IsTable c d i t := ⟨i.isLt, ht⟩
      rw [ht, elim_some] at hi
      rcases mem_cons.mp hi with rfl | htab
      · exact .inr (.inl ⟨i, htable⟩)
      · split at htab
        · obtain ⟨j, hj, hu⟩ := mem_tablePages.mp htab
          have hdiv : (1024 * i.val + j) / 1024 = i.val := by omega
          have hmod : (1024 * i.val + j) % 1024 = j := by omega
          refine .inr (.inr ⟨1024 * i.val + j, by omega, ?_⟩)
          rw [IsTable.pte (hdiv ▸ htable), hmod, hu]
        · cases htab

lemma tablePages_eq_zero (hclear : ∀ n < 2 ^ 19, (target (pte c d n) : Ptr P) = none) (ht : IsTable c d i t)
    (hi : i < 512) : tablePages c t = 0 := by
  apply total_zero
  intro j
  have hj := j.isLt
  have hdiv : (1024 * i + j.val) / 1024 = i := by omega
  have hmod : (1024 * i + j.val) % 1024 = j := by omega
  have htable : IsTable c d ((1024 * i + j.val) / 1024) t := by rwa [hdiv]
  have hnone := hclear (1024 * i + j) (by omega)
  rw [htable.pte, hmod] at hnone
  rw [hnone]
  rfl

lemma vmPages_of_clear (hclear : ∀ n < 2 ^ 19, (target (pte c d n) : Ptr P) = none) :
    vmPages c d = d ::ₘ total fun i : Fin 1024 => optPages (target ((c d).word i)) := by
  unfold vmPages
  congr 1
  apply total_congr
  intro i
  unfold entryPages
  cases ht : (target ((c d).word i) : Ptr P) with
  | none => rw [elim_none, optPages, elim_none]
  | some t =>
    have hpages : (if i.val < 512 then tablePages c t else 0) = 0 := by
      split
      · rename_i hi
        exact tablePages_eq_zero hclear ⟨i.isLt, ht⟩ hi
      · rfl
    simp only [elim_some, hpages, optPages]
    rfl

lemma pte_congr (hd : c' d = c d) (ht : ∀ i t, IsTable c d i t → c' t = c t) (hn : n < 2 ^ 20) :
    pte c' d n = pte c d n := by
  unfold pte
  rw [hd]
  cases htarget : (target ((c d).word (n / 1024)) : Ptr P) with
  | none => rfl
  | some t => rw [elim_some, elim_some, ht _ t ⟨by omega, htarget⟩]

lemma pte_eq_of_frame (h : ∀ a ∈ vmPages c d, c' a = c a) (hn : n < 2 ^ 20) : pte c' d n = pte c d n :=
  pte_congr (h d (dir_mem c d)) (fun _ t ht => h t ht.mem) hn

/-- Each page table has one entry of the directory, and none is the directory. -/
structure Apart (c : Addr P → Page) (d : Addr P) : Prop where
  ne_dir : ∀ {i t}, IsTable c d i t → t ≠ d
  inj : ∀ {i j t}, IsTable c d i t → IsTable c d j t → i = j

lemma Apart.pte_addTable (h : Apart c d) (hnone : (target ((c d).word i) : Ptr P) = none)
    (ht : ∀ i, ¬ IsTable c d i t) (hw : target w = some t) (hzero : ∀ j < 1024, (c' t).word j = 0)
    (hd : c' d = (c d).setWord i w) (hother : ∀ a, a ≠ d → a ≠ t → c' a = c a) (hn : n < 2 ^ 20) :
    pte c' d n = pte c d n := by
  have hlt : n / 1024 < 1024 := by omega
  unfold pte
  rw [hd, Page.word_setWord _ _ hlt]
  by_cases heq : n / 1024 = i
  · rw [if_pos heq, heq, hnone, hw, elim_some, elim_none, hzero _ (by omega)]
  · rw [if_neg heq]
    cases htarget : (target ((c d).word (n / 1024)) : Ptr P) with
    | none => rfl
    | some t' =>
      have htable : IsTable c d (n / 1024) t' := ⟨hlt, htarget⟩
      have hne : t' ≠ t := by
        rintro rfl
        exact ht _ htable
      rw [elim_some, elim_some, hother t' (h.ne_dir htable) hne]

lemma Apart.pte_setPte (h : Apart c d) (ht : IsTable c d i t) (hj : j < 1024)
    (hc : c' = update c t ((c t).setWord j w)) (hn : n < 2 ^ 20) :
    pte c' d n = if n = 1024 * i + j then w else pte c d n := by
  have hdir : c' d = c d := by
    rw [hc, update_of_ne (h.ne_dir ht).symm]
  unfold pte
  rw [hdir]
  cases htarget : (target ((c d).word (n / 1024)) : Ptr P) with
  | none =>
    have hne : n ≠ 1024 * i + j := by
      rintro rfl
      have hdiv : (1024 * i + j) / 1024 = i := by omega
      rw [hdiv, ht.2] at htarget
      cases htarget
    rw [if_neg hne, elim_none, elim_none]
  | some t' =>
    rw [elim_some, elim_some, hc]
    have htable : IsTable c d (n / 1024) t' := ⟨by omega, htarget⟩
    by_cases heq : t' = t
    · subst heq
      have hdiv : n / 1024 = i := h.inj htable ht
      rw [update_self, Page.word_setWord _ _ (by omega)]
      by_cases hmod : n % 1024 = j
      · rw [if_pos hmod, if_pos (by omega)]
      · rw [if_neg hmod, if_neg (by omega)]
    · have hne : n ≠ 1024 * i + j := by
        rintro rfl
        have hdiv : (1024 * i + j) / 1024 = i := by omega
        rw [hdiv] at htable
        exact heq (Option.some.inj (htable.2.symm.trans ht.2))
      rw [update_of_ne heq, if_neg hne]

section Nodup

variable (hnodup : (vmPages c d).Nodup)

include hnodup

lemma apart_of_nodup : Apart c d :=
  ⟨table_ne_dir hnodup, table_inj hnodup⟩

lemma pte_inj {n' : ℕ} (hn : n < 2 ^ 19) (hn' : n' < 2 ^ 19) (hu : target (pte c d n) = some u)
    (hu' : target (pte c d n') = some u) : n = n' := by
  obtain ⟨t, ht, hword⟩ := exists_table (by omega) hu
  obtain ⟨t', ht', hword'⟩ := exists_table (by omega) hu'
  have hsum := (nodup_cons.mp hnodup).2
  have hmem : ∀ {t n}, IsTable c d (n / 1024) t → n < 2 ^ 19 → target ((c t).word (n % 1024)) = some u →
      u ∈ tablePages c t := fun _ _ hword => mem_tablePages.mpr ⟨_, by omega, hword⟩
  have hdiv : (⟨n / 1024, ht.1⟩ : Fin 1024) = ⟨n' / 1024, ht'.1⟩ := by
    apply eq_of_mem hsum (r := u)
    · rw [ht.entryPages, if_pos (by omega)]
      exact mem_cons_of_mem (hmem ht hn hword)
    · rw [ht'.entryPages, if_pos (by omega)]
      exact mem_cons_of_mem (hmem ht' hn' hword')
  have hdiv' : n / 1024 = n' / 1024 := congrArg Fin.val hdiv
  have htt : t' = t := by
    rw [← hdiv'] at ht'
    exact Option.some.inj (ht'.2.symm.trans ht.2)
  have htable : (tablePages c t).Nodup := by
    have hentry := nodup_of_le (le_total _ ⟨n / 1024, ht.1⟩) hsum
    rw [ht.entryPages, if_pos (by omega)] at hentry
    exact (nodup_cons.mp hentry).2
  rw [htt] at hword'
  have hmod : (⟨n % 1024, by omega⟩ : Fin 1024) = ⟨n' % 1024, by omega⟩ := by
    apply eq_of_mem htable (r := u)
    · rw [hword]
      exact mem_singleton_self u
    · rw [hword']
      exact mem_singleton_self u
  have hmod' : n % 1024 = n' % 1024 := congrArg Fin.val hmod
  omega

end Nodup

/-! ### Directories -/

def Frees (k : KernelLayout) (a : Addr P) : Prop :=
  k.kernelEnd ≤ a.val * PGSIZE ∧ a.val ≠ 0

/-- A page directory: it, its page tables and the pages of the user half are all different, and
the entries in use point to pages, those of the user to pages that `kfree` takes. -/
structure Sane (k : KernelLayout) (c : Addr P → Page) (d : Addr P) : Prop where
  nodup : (vmPages c d).Nodup
  tables : ∀ i < 1024, present ((c d).word i) = true → ∃ t : Addr P, target ((c d).word i) = some t
  users : ∀ n < 2 ^ 19, present (pte c d n) = true → ∃ u : Addr P, target (pte c d n) = some u ∧ Frees k u

lemma Sane.user_ne {k : KernelLayout} (h : Sane k c d) (hn : n < 2 ^ 19) (hu : target (pte c d n) = some u) :
    u ≠ d ∧ ∀ i t, IsTable c d i t → u ≠ t := by
  obtain ⟨t, ht, htarget⟩ := exists_table (by omega) hu
  exact Vm.user_ne h.nodup ht (by omega) (mem_tablePages.mpr ⟨n % 1024, by omega, htarget⟩)

lemma target_of_present (hw : present w = true) : (target w : Ptr P) = frame (pteAddr w) :=
  if_pos hw

lemma present_of_target {u : Addr P} (hw : target w = some u) : present w = true := by
  unfold target at hw
  split at hw
  · assumption
  · cases hw

end Vm

end Xv6Bfs
