import Xv6Bfs.Proofs.VmMap

/-!
# The kernel half

`setupkvm` makes a directory from the table `kmap`. The entries of the kernel half are then those
that the table says, and a directory that cannot be finished is given back page by page.
-/

namespace Xv6Bfs

open Ledger List Program

namespace Kmap

def first (m : Kmap) : ℕ :=
  m.virt.toNat / 4096

def last (m : Kmap) : ℕ :=
  (m.virt + (m.physEnd - m.physStart) - 1).toNat / 4096

def entry (m : Kmap) (n : ℕ) : BitVec 32 :=
  (m.physStart + BitVec.ofNat 32 ((n - m.first) * 4096)) ||| m.perm ||| PTE_P

def covers (m : Kmap) (n : ℕ) : Bool :=
  m.first ≤ n ∧ n ≤ m.last

def Ok (m : Kmap) : Prop :=
  2 ^ 19 ≤ m.first ∧ m.first ≤ m.last

end Kmap

/-- The ranges are in the kernel half and have no page in common. -/
structure KernelLayout.Ok (k : KernelLayout) : Prop where
  ranges : ∀ m ∈ k.kmap, m.Ok
  disjoint : k.kmap.Pairwise fun m m' => m.last < m'.first ∨ m'.last < m.first

lemma kmap_ok {data : BitVec 32} (hlow : KERNLINK < data) (hhigh : data < KERNBASE + PHYSTOP)
    (haligned : data.toNat % 4096 = 0) (kernelEnd : ℕ) : (KernelLayout.mk kernelEnd (kmap data)).Ok := by
  have hlow' : 0x80100000 < data.toNat := hlow
  have hhigh' : data.toNat < 0x8E000000 := hhigh
  have htext : (KERNLINK + (data - KERNBASE - (KERNLINK - KERNBASE)) - 1).toNat = data.toNat - 1 := by
    unfold KERNLINK KERNBASE EXTMEM
    bv_omega
  have hdata : (data + (PHYSTOP - (data - KERNBASE)) - 1).toNat = 0x8DFFFFFF := by
    unfold KERNBASE PHYSTOP
    bv_omega
  have hio : (KERNBASE + (EXTMEM - 0) - 1).toNat = 0x800FFFFF := by decide
  have hdev : (DEVSPACE + (0 - DEVSPACE) - 1).toNat = 0xFFFFFFFF := by decide
  have hbase : KERNBASE.toNat = 0x80000000 := by decide
  have hlink : KERNLINK.toNat = 0x80100000 := by decide
  have hspace : DEVSPACE.toNat = 0xFE000000 := by decide
  refine ⟨?_, ?_⟩
  · intro m hm
    simp only [kmap, mem_cons, not_mem_nil, or_false] at hm
    rcases hm with rfl | rfl | rfl | rfl <;>
      simp only [Kmap.Ok, Kmap.first, Kmap.last, hio, htext, hdata, hdev, hbase, hlink, hspace] <;> omega
  · simp only [kmap, pairwise_cons, mem_cons, not_mem_nil, or_false, forall_eq_or_imp, forall_eq,
      Kmap.first, Kmap.last, hio, htext, hdata, hdev, hbase, hlink, hspace]
    refine ⟨⟨?_, ?_, ?_⟩, ⟨?_, ?_⟩, ?_, ?_, List.Pairwise.nil⟩ <;> first | omega | simp

namespace Vm

variable {P : ℕ} {s₀ s s₁ s' : Vm P} {d t u m : Addr P} {X Y : Multiset (Addr P)} {k : KernelLayout}

lemma maps_kernel (hP : P ≤ 2 ^ 19) (k : KernelLayout) (s : Vm P) (X : Multiset (Addr P)) (d : Addr P) :
    Maps d (2 ^ 19) (fun s' => Edits s s' X X d ∧ Space k s' X d) where
  walk {s₁} va := by
    rintro ⟨hedits, hspace⟩
    refine (walkpgdir_alloc hP hspace va).imp ?_
    rintro (_ | ⟨t, j⟩) s' h
    · obtain ⟨rfl, -⟩ := h
      exact ⟨⟨hedits, hspace⟩, fun _ _ => rfl, nofun⟩
    · obtain ⟨hj, ht, hedits', hspace', hpte⟩ := h
      refine ⟨⟨hedits.trans hedits', hspace'⟩, hpte, ?_⟩
      rintro _ _ ⟨⟩
      exact ⟨hj, ht⟩
  set {s₁ s' t i j w} := by
    rintro ⟨hedits, hspace⟩ ht hj hlo hs'
    obtain ⟨hedits', hspace', hpte⟩ := hspace.mapKernel ht hs' (by omega) hj
    exact ⟨⟨hedits.trans hedits', hspace'⟩, hpte⟩

lemma mappages_kernel (hP : P ≤ 2 ^ 19) (h : Space k s X d) {r : Kmap} (hr : r.Ok)
    (hunused : ∀ n, r.covers n = true → ¬ present (pte s.content d n) = true) :
    Wp (mappages d r.virt (r.physEnd - r.physStart) r.physStart r.perm) s (fun ok s' => Edits s s' X X d ∧ Space k s' X d ∧
      (∀ n < 2 ^ 20, r.covers n = false → pte s'.content d n = pte s.content d n) ∧
      (ok = true → ∀ n, r.covers n = true → pte s'.content d n = r.entry n)) (fun _ _ => False) := by
  have hrange : ∀ n, r.covers n = true ↔ r.first ≤ n ∧ n ≤ r.last := fun n => decide_eq_true_iff
  have hlast : r.last < 2 ^ 20 := by
    have := (r.virt + (r.physEnd - r.physStart) - 1).isLt
    unfold Kmap.last
    omega
  refine (mappages_spec (maps_kernel hP k s X d) ⟨Edits.refl _ _ _, h⟩ _ _ hr.1 hr.2 ?_).imp ?_
  · exact fun n hlo hhi => hunused n ((hrange n).mpr ⟨hlo, hhi⟩)
  · rintro ok s' ⟨⟨hedits, hspace⟩, stop, hstop, hmapped⟩
    have hbound : stop ≤ r.last + 1 := by
      cases ok with
      | true => exact le_of_eq hstop
      | false => exact hstop.2.trans (Nat.le_succ _)
    refine ⟨hedits, hspace, ?_, ?_⟩
    · intro n hn hcovers
      have hnot : ¬ (r.first ≤ n ∧ n ≤ r.last) := by
        rw [← hrange, hcovers]
        decide
      rw [hmapped n hn, if_neg]
      rintro ⟨hlo, hhi⟩
      exact hnot ⟨hlo, by omega⟩
    · rintro rfl n hcovers
      obtain ⟨hlo, hhi⟩ := (hrange n).mp hcovers
      rw [hmapped n (by omega), if_pos]
      · rfl
      · exact ⟨hlo, lt_of_lt_of_eq (Nat.lt_succ_of_le hhi) hstop.symm⟩

def kernelEntry (kmap : List Kmap) (n : ℕ) : Option (BitVec 32) :=
  (kmap.find? (·.covers n)).map (·.entry n)

lemma kernelEntry_cons (r : Kmap) (kmap : List Kmap) (n : ℕ) :
    kernelEntry (r :: kmap) n = if r.covers n then some (r.entry n) else kernelEntry kmap n := by
  unfold kernelEntry
  rw [find?_cons]
  split <;> simp_all

lemma kernelEntry_eq_none {kmap : List Kmap} {n : ℕ} (h : ∀ r ∈ kmap, r.covers n = false) :
    kernelEntry kmap n = none := by
  unfold kernelEntry
  rw [find?_eq_none.mpr (fun r hr => by rw [h r hr]; decide), Option.map_none]

lemma kernelEntry_user (hk : k.Ok) {n : ℕ} (hn : n < 2 ^ 19) : kernelEntry k.kmap n = none := by
  apply kernelEntry_eq_none
  intro r hr
  have hlow := (hk.ranges r hr).1
  unfold Kmap.covers
  rw [decide_eq_false_iff_not]
  omega

lemma mapKernel_spec (hP : P ≤ 2 ^ 19) (kmap : List Kmap) :
    ∀ s : Vm P, Space k s X d → (∀ r ∈ kmap, r.Ok) →
      (kmap.Pairwise fun m m' => m.last < m'.first ∨ m'.last < m.first) →
      (∀ r ∈ kmap, ∀ n, r.covers n = true → ¬ present (pte s.content d n) = true) →
      Wp (mapKernel d kmap) s (fun ok s' => Edits s s' X X d ∧ Space k s' X d ∧
        (∀ n < 2 ^ 20, kernelEntry kmap n = none → pte s'.content d n = pte s.content d n) ∧
        (ok = true → ∀ n < 2 ^ 20, ∀ w, kernelEntry kmap n = some w → pte s'.content d n = w)) (fun _ _ => False) := by
  induction kmap with
  | nil =>
    intro s hspace _ _ _
    refine ⟨Edits.refl _ _ _, hspace, fun _ _ _ => rfl, ?_⟩
    intro _ n _ w hw
    cases hw
  | cons r kmap ih =>
    intro s hspace hok hdisjoint hunused
    obtain ⟨hr, hrest⟩ := forall_mem_cons.mp hok
    obtain ⟨hfirst, hpairs⟩ := pairwise_cons.mp hdisjoint
    have hapart : ∀ r' ∈ kmap, ∀ n, r'.covers n = true → r.covers n = false := by
      intro r' hr' n hn
      have hn' := decide_eq_true_iff.mp hn
      have hsep := hfirst r' hr'
      unfold Kmap.covers
      rw [decide_eq_false_iff_not]
      omega
    unfold mapKernel
    refine Wp.bind (mappages_kernel hP hspace hr (hunused r mem_cons_self)) ?_ (fun _ _ h => h)
    rintro ok s₁ ⟨hedits, hspace₁, hout, hin⟩
    have hkeep : ∀ n < 2 ^ 20, kernelEntry (r :: kmap) n = none → pte s₁.content d n = pte s.content d n := by
      intro n hn hnone
      rw [kernelEntry_cons] at hnone
      apply hout n hn
      by_contra hcovers
      rw [if_pos (by simpa using hcovers)] at hnone
      cases hnone
    cases ok with
    | false => exact ⟨hedits, hspace₁, hkeep, fun h => absurd h (by decide)⟩
    | true =>
      simp only [if_true]
      refine (ih s₁ hspace₁ hrest hpairs ?_).imp ?_
      · intro r' hr' n hcovers
        by_cases hn : n < 2 ^ 20
        · rw [hout n hn (hapart r' hr' n hcovers)]
          exact hunused r' (mem_cons_of_mem r hr') n hcovers
        · -- no range reaches beyond the last page
          have hlast : r'.last < 2 ^ 20 := by
            have := (r'.virt + (r'.physEnd - r'.physStart) - 1).isLt
            unfold Kmap.last
            omega
          have := (decide_eq_true_iff.mp hcovers).2
          omega
      · rintro ok s' ⟨hedits', hspace', hout', hin'⟩
        refine ⟨hedits.trans hedits', hspace', ?_, ?_⟩
        · intro n hn hnone
          have htail : kernelEntry kmap n = none := by
            rw [kernelEntry_cons] at hnone
            split at hnone
            · cases hnone
            · exact hnone
          rw [hout' n hn htail, hkeep n hn hnone]
        · intro hok n hn w hw
          rw [kernelEntry_cons] at hw
          split at hw
          · rename_i hcovers
            have htail : kernelEntry kmap n = none := by
              apply kernelEntry_eq_none
              intro r' hr'
              by_contra hcovers'
              have := hapart r' hr' n (by simpa using hcovers')
              rw [hcovers] at this
              cases this
            rw [hout' n hn htail, hin rfl n hcovers, Option.some.inj hw]
          · exact hin' hok n hn w hw

/-! ### New directories -/

structure Made (k : KernelLayout) (Y : Multiset (Addr P)) (s s' : Vm P) (d : Addr P) : Prop where
  moves : Moves s s' Y (Y + vmPages s'.content d)
  space : Space k s' Y d
  free : ∀ a ∈ s'.free, a ∈ s.free
  other : ∀ a, a ∉ s.free → s'.content a = s.content a

structure Restored (s s' : Vm P) : Prop where
  free : (s'.free : Multiset (Addr P)) = s.free
  other : ∀ a, a ∉ s.free → s'.content a = s.content a

lemma Restored.refl (s : Vm P) : Restored s s :=
  ⟨rfl, fun _ _ => rfl⟩

namespace Made

lemma mem_free (h : Made k Y s s' d) {a : Addr P} (ha : a ∈ vmPages s'.content d) : a ∈ s.free := by
  have hmem : a ∈ s.within Y := by
    rw [← h.moves.balance]
    exact Multiset.mem_add.mpr (.inr (Multiset.mem_add.mpr (.inr ha)))
  rcases Multiset.mem_add.mp hmem with hfree | hY
  · exact Multiset.mem_coe.mp hfree
  · have hrest := (Multiset.nodup_add.mp (Multiset.nodup_add.mp h.space.apart).2.1).2.2
    exact absurd ha (Multiset.disjoint_left.mp hrest hY)

lemma edit (h : Made k Y s s₁ d) (hedits : Edits s₁ s' Y Y d) (hspace : Space k s' Y d) : Made k Y s s' d := by
  refine ⟨h.moves.trans hedits.moves, hspace, fun a ha => h.free a (hedits.free a ha), ?_⟩
  intro a ha
  rw [hedits.other a (fun hmem => ha (h.free a hmem)), h.other a ha]
  · rintro rfl
    exact ha (h.mem_free (dir_mem _ _))
  · intro i hi
    exact ha (h.mem_free hi.mem)

lemma giveBack (h : Made k Y s₀ s d) (hedits : Edits s s₁ Y (m ::ₘ Y) d) (hspace : Space k s₁ (m ::ₘ Y) d) (hm : m ∈ s.free)
    (hr : Released s₁ s' {m}) : Made k Y s₀ s' d := by
  obtain ⟨hspace', hmoves, _⟩ := hspace.release hr
  refine ⟨(h.moves.trans hedits.moves).trans hmoves, hspace', ?_, ?_⟩
  · intro a ha
    have hmem : a ∈ (s₁.free : Multiset (Addr P)) + {m} := hr.free ▸ Multiset.mem_coe.mpr ha
    rcases Multiset.mem_add.mp hmem with hfree | heq
    · exact h.free a (hedits.free a (Multiset.mem_coe.mp hfree))
    · exact h.free a (Multiset.mem_singleton.mp heq ▸ hm)
  · intro a ha
    have hne : a ∉ ({m} : Multiset (Addr P)) := by
      rw [Multiset.mem_singleton]
      rintro rfl
      exact ha (h.free _ hm)
    rw [hr.other a hne, hedits.other a (fun hmem => ha (h.free a hmem)), h.other a ha]
    · rintro rfl
      exact ha (h.mem_free (dir_mem _ _))
    · intro i hi
      exact ha (h.mem_free hi.mem)

lemma restored (h : Made k Y s s₁ d) (hr : Released s₁ s' (vmPages s₁.content d)) : Restored s s' := by
  refine ⟨?_, ?_⟩
  · have hbalance := h.moves.balance
    rw [State.within, State.within, add_comm Y, ← add_assoc, ← hr.free] at hbalance
    exact add_right_cancel hbalance
  · intro a ha
    rw [hr.other a (fun hmem => ha (h.mem_free hmem)), h.other a ha]

lemma pool (h : Made k Y s s' d) {a : Addr P} (ha : a ∈ vmPages s'.content d) : Frees k a :=
  h.space.pool a (Multiset.mem_add.mpr (.inr (Multiset.mem_add.mpr (.inr ha))))

lemma freevm_spec (h : Made k Y s s₁ d) : Wp (freevm k d) s₁ (fun _ s' => Restored s s') (fun _ _ => False) :=
  (Vm.freevm_spec h.space.toSane (fun _ ha => h.pool ha)).imp (fun _ _ hr => h.restored hr)

end Made

lemma made_of_kalloc (hapart : (s.within Y).Nodup) (hpool : ∀ a ∈ s.within Y, Frees k a) (hfree : s.free = d :: s'.free)
    (hcontent : s'.content = Function.update s.content d (Page.fill 0)) :
    Made k Y s s' d ∧ ∀ n, pte s'.content d n = 0 := by
  have hzero : s'.content d = Page.fill 0 := by
    rw [hcontent, Function.update_self]
  have hwithin : s'.within (d ::ₘ Y) = s.within Y := by
    rw [State.within, State.within, hfree, ← Multiset.cons_coe, Multiset.add_cons, Multiset.cons_add]
  obtain ⟨hspace, hpages, hpte⟩ := Space.of_zero (k := k) hzero (hwithin ▸ hapart) (hwithin ▸ hpool)
  have hother : ∀ a, a ∉ s.free → s'.content a = s.content a := by
    intro a ha
    rw [hcontent, Function.update_of_ne]
    rintro rfl
    rw [hfree] at ha
    exact ha mem_cons_self
  refine ⟨⟨⟨?_, ?_⟩, hspace, ?_, hother⟩, hpte⟩
  · rw [hpages, add_comm, Multiset.singleton_add, hwithin]
  · intro a ha
    exact hother a (fun hmem => ha (Multiset.mem_add.mpr (.inl (Multiset.mem_coe.mpr hmem))))
  · intro a ha
    rw [hfree]
    exact mem_cons_of_mem d ha

/-- The new directory maps `kmap` and nothing else; without memory all is given back. -/
lemma setupkvm_spec (hP : P ≤ 2 ^ 19) (hk : k.Ok) (hapart : (s.within Y).Nodup) (hpool : ∀ a ∈ s.within Y, Frees k a) :
    Wp (setupkvm k) s (fun r s' => match r with
      | none => Restored s s'
      | some d => Made k Y s s' d ∧ ∀ n < 2 ^ 20, pte s'.content d n = (kernelEntry k.kmap n).getD 0)
      (fun _ _ => False) := by
  unfold setupkvm
  refine Wp.bind (kalloc_spec s) ?_ (fun _ _ h => h)
  rintro (_ | d) s₁ h₁
  · obtain ⟨rfl, _⟩ := h₁
    exact Restored.refl _
  · obtain ⟨hfree, hcontent⟩ := h₁
    simp only [setPage, wp_bind, wp_modify]
    rw [← free_write s₁ d (Page.fill 0)] at hfree
    obtain ⟨hmade, hpte⟩ := made_of_kalloc hapart hpool hfree (by rw [content_write, hcontent])
    refine (mapKernel_spec hP k.kmap _ hmade.space hk.ranges hk.disjoint ?_).mono ?_ (fun _ _ h => h)
    · intro r _ n _
      rw [hpte]
      decide
    · rintro ok s₂ ⟨hedits, hspace, hout, hin⟩
      have hmade₂ := hmade.edit hedits hspace
      cases ok with
      | false => exact Wp.bind hmade₂.freevm_spec (fun _ _ h => h) (fun _ _ h => h)
      | true =>
        refine ⟨hmade₂, ?_⟩
        intro n hn
        cases hentry : kernelEntry k.kmap n with
        | none => rw [hout n hn hentry, hpte, Option.getD_none]
        | some w => rw [hin rfl n hn w hentry, Option.getD_some]

end Vm

end Xv6Bfs
