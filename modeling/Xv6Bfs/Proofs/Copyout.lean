import Xv6Bfs.Proofs.VmMap

/-!
# `copyout`

`copyout` writes page by page through a directory. What it does is stated by addresses: the byte at each address of the range,
read through the directory, and the place of each address in physical memory.
-/

namespace Xv6Bfs

open Ledger List Program

namespace Vm

variable {P : ℕ} {s s' : Vm P} {d t u : Addr P} {va : BitVec 32} {buf : List (BitVec 8)} {c c' : Addr P → Page}
  {va' : BitVec 32}

def entryAt (c : Addr P → Page) (d : Addr P) (va : BitVec 32) : BitVec 32 :=
  pte c d (va.toNat / 4096)

def Accessible (c : Addr P → Page) (d : Addr P) (va : BitVec 32) : Prop :=
  present (entryAt c d va) = true ∧ entryAt c d va &&& PTE_U ≠ 0

def load (c : Addr P → Page) (d : Addr P) (va : BitVec 32) : Option (BitVec 8) :=
  (target (entryAt c d va) : Ptr P).map fun u => (c u).byte (va.toNat % 4096)

def HasTable (c : Addr P → Page) (d : Addr P) (va : BitVec 32) : Prop :=
  present ((c d).word (pdx va)) = true

/-- A directory whose entries point to memory: its tables, and pages of the user that are all different and no tables. -/
structure UserPages (c : Addr P → Page) (d : Addr P) : Prop where
  tables : ∀ va, HasTable c d va → ∃ t : Addr P, target ((c d).word (pdx va)) = some t
  users : ∀ va, Accessible c d va → ∃ u : Addr P, target (entryAt c d va) = some u ∧ u ≠ d ∧ ∀ i, ¬ IsTable c d i u
  inj : ∀ va va', Accessible c d va → Accessible c d va' → (target (entryAt c d va) : Ptr P) = target (entryAt c d va') →
    va.toNat / 4096 = va'.toNat / 4096

lemma entryAt_eq (ht : IsTable c d (pdx va) t) : entryAt c d va = (c t).word (ptx va) := by
  have hnum : (va.toNat / 4096) / 1024 = pdx va ∧ (va.toNat / 4096) % 1024 = ptx va := by
    have := pdx_ptx va
    have := ptx_lt va
    omega
  rw [← hnum.1] at ht
  rw [entryAt, ht.pte, hnum.2]

/-- `uva2ka` finds the page if it is accessible; it faults without a page table. -/
lemma uva2ka_spec (h : UserPages s.content d) (va : BitVec 32) :
    Wp (uva2ka d va) s (fun r s' => s' = s ∧ HasTable s.content d va ∧ match r with
      | none => ¬ Accessible s.content d va
      | some u => Accessible s.content d va ∧ target (entryAt s.content d va) = some u)
      (fun _ _ => ¬ HasTable s.content d va) := by
  unfold uva2ka
  refine Wp.bind (walkpgdir_read s d va) ?_ ?_
  · rintro (_ | ⟨t, j⟩) s' ⟨rfl, hfound⟩
    · intro htable
      obtain ⟨t, ht⟩ := h.tables va htable
      rw [hfound] at ht
      cases ht
    · obtain ⟨rfl, ht⟩ := hfound
      have htable : HasTable s'.content d va := present_of_target ht.2
      simp only [page, wp_bind, wp_get, wp_pure, Bool.not_eq_true']
      rw [← entryAt_eq ht]
      by_cases hp : present (entryAt s'.content d va) = true
      · rw [if_neg (by rw [hp]; decide)]
        by_cases hu : entryAt s'.content d va &&& PTE_U = 0
        · rw [if_pos hu]
          exact ⟨rfl, htable, fun hacc => hacc.2 hu⟩
        · rw [if_neg hu, wp_bind]
          obtain ⟨u, htarget, -⟩ := h.users va ⟨hp, hu⟩
          refine (p2v_spec s' htarget).mono ?_ (fun _ _ h => h.elim)
          rintro _ _ ⟨rfl, rfl⟩
          exact ⟨rfl, htable, ⟨hp, hu⟩, htarget⟩
      · rw [if_pos (Bool.eq_false_of_not_eq_true hp)]
        exact ⟨rfl, htable, fun hacc => hp hacc.1⟩
  · rintro _ _ ⟨hpresent, hnone⟩
    obtain ⟨t, ht⟩ := h.tables va hpresent
    rw [hnone] at ht
    cases ht

/-! ### Addresses of a range -/

lemma toNat_add_page {i : ℕ} (hi : va.toNat % 4096 + i < 4096) : (va + BitVec.ofNat 32 i).toNat = va.toNat + i := by
  have := va.isLt
  rw [BitVec.toNat_add, BitVec.toNat_ofNat]
  omega

lemma add_ofNat_inj (va : BitVec 32) {i j : ℕ} (hi : i < 2 ^ 32) (hj : j < 2 ^ 32)
    (h : (va + BitVec.ofNat 32 i).toNat = (va + BitVec.ofNat 32 j).toNat) : i = j := by
  rw [BitVec.toNat_add, BitVec.toNat_add, BitVec.toNat_ofNat, BitVec.toNat_ofNat] at h
  omega

lemma entryAt_page (h : va'.toNat / 4096 = va.toNat / 4096) : entryAt c d va' = entryAt c d va := by
  rw [entryAt, entryAt, h]

lemma hasTable_page (h : va'.toNat / 4096 = va.toNat / 4096) : HasTable c d va' ↔ HasTable c d va := by
  have hpdx : pdx va' = pdx va := by
    rw [pdx_eq, pdx_eq]
    omega
  rw [HasTable, HasTable, hpdx]

lemma accessible_page (h : va'.toNat / 4096 = va.toNat / 4096) : Accessible c d va' ↔ Accessible c d va := by
  rw [Accessible, Accessible, entryAt_page h]

lemma pgRoundDown_next {m i : ℕ} (hm : va.toNat % 4096 + m = 4096) :
    pgRoundDown va + 0x1000 + BitVec.ofNat 32 i = va + BitVec.ofNat 32 (m + i) := by
  have hround : pgRoundDown va + 0x1000 = va + BitVec.ofNat 32 m := by
    have := va.isLt
    apply BitVec.eq_of_toNat_eq
    rw [BitVec.toNat_add, BitVec.toNat_add, toNat_pgRoundDown, BitVec.toNat_ofNat, show (0x1000 : BitVec 32).toNat = 4096 from rfl]
    omega
  rw [hround, BitVec.add_assoc, BitVec.ofNat_add]

lemma toNat_sub_pgRoundDown (va : BitVec 32) : (va - pgRoundDown va).toNat = va.toNat % 4096 := by
  have := toNat_pgRoundDown va
  have := va.isLt
  rw [BitVec.toNat_sub]
  omega

def Only (s s' : Vm P) (d : Addr P) (va : BitVec 32) (len : ℕ) : Prop :=
  ∀ a k, (∀ i < len, Accessible s.content d (va + BitVec.ofNat 32 i) →
      target (entryAt s.content d (va + BitVec.ofNat 32 i)) = some a → k.val ≠ (va + BitVec.ofNat 32 i).toNat % 4096) →
    s'.content a k = s.content a k

/-- What `copyout` has done: if it has not failed, all the addresses are accessible and hold the bytes. -/
structure CopiedOut (s s' : Vm P) (d : Addr P) (va : BitVec 32) (buf : List (BitVec 8)) (ok : Bool) : Prop where
  free : s'.free = s.free
  only : Only s s' d va buf.length
  result : ok = true ↔ ∀ i < buf.length, Accessible s.content d (va + BitVec.ofNat 32 i)
  bytes : ok = true → ∀ i < buf.length, load s'.content d (va + BitVec.ofNat 32 i) = buf[i]?

def Reaches (c : Addr P → Page) (d : Addr P) (va : BitVec 32) (len : ℕ) : Prop :=
  ∀ i < len, (∀ j < i, Accessible c d (va + BitVec.ofNat 32 j)) → HasTable c d (va + BitVec.ofNat 32 i)

lemma Only.tables {len : ℕ} (h : Only s s' d va len) (hs : UserPages s.content d) :
    s'.content d = s.content d ∧ ∀ i t, IsTable s.content d i t → s'.content t = s.content t := by
  have hkeep : ∀ a, (∀ va u, Accessible s.content d va → target (entryAt s.content d va) = some u → u ≠ a) →
      s'.content a = s.content a := by
    intro a ha
    funext k
    apply h
    intro i _ hacc htarget
    exact absurd rfl (ha _ _ hacc htarget)
  constructor
  · apply hkeep
    rintro va u hacc htarget rfl
    obtain ⟨u', hu', hne, -⟩ := hs.users va hacc
    exact hne (Option.some.inj (hu'.symm.trans htarget))
  · intro i t ht
    apply hkeep
    rintro va u hacc htarget rfl
    obtain ⟨u', hu', -, hno⟩ := hs.users va hacc
    obtain rfl : u' = u := Option.some.inj (hu'.symm.trans htarget)
    exact hno i ht

lemma entryAt_congr (hd : c' d = c d) (ht : ∀ i t, IsTable c d i t → c' t = c t) (va : BitVec 32) :
    entryAt c' d va = entryAt c d va := by
  have := va.isLt
  exact pte_congr hd ht (by omega)

lemma UserPages.congr (h : UserPages c d) (hd : c' d = c d) (ht : ∀ i t, IsTable c d i t → c' t = c t) :
    UserPages c' d := by
  have hentry := entryAt_congr hd ht
  constructor
  · intro va
    rw [HasTable, hd]
    exact h.tables va
  · intro va
    rw [Accessible, hentry]
    intro hacc
    obtain ⟨u, hu, hne, hno⟩ := h.users va hacc
    refine ⟨u, hu, hne, ?_⟩
    intro i
    rw [IsTable, hd]
    exact hno i
  · intro va va'
    rw [Accessible, Accessible, hentry, hentry]
    exact h.inj va va'

lemma byte_eq (x : Page) {k : ℕ} (hk : k < PGSIZE) : x.byte k = x ⟨k, hk⟩ :=
  congrArg x (Fin.ext (Nat.mod_eq_of_lt hk))

lemma CopiedOut.chunk (hs : UserPages s.content d) (hacc : Accessible s.content d va)
    (hu : target (entryAt s.content d va) = some u) (hlen : va.toNat % 4096 + buf.length ≤ 4096)
    (hs' : s' = s.write u ((s.content u).store (va.toNat % 4096) buf)) : CopiedOut s s' d va buf true := by
  have hpage : ∀ i < buf.length, (va + BitVec.ofNat 32 i).toNat / 4096 = va.toNat / 4096 ∧
      (va + BitVec.ofNat 32 i).toNat % 4096 = va.toNat % 4096 + i := by
    intro i hi
    rw [toNat_add_page (by omega)]
    omega
  have hcontent : s'.content u = (s.content u).store (va.toNat % 4096) buf := by
    rw [hs', content_write, Function.update_self]
  have honly : Only s s' d va buf.length := by
    intro a k hk
    by_cases ha : a = u
    · subst ha
      rw [hcontent, Page.store, if_neg]
      rintro ⟨hlo, hhi⟩
      have hi : k.val - va.toNat % 4096 < buf.length := by omega
      apply hk _ hi ((accessible_page (hpage _ hi).1).mpr hacc)
      · rw [entryAt_page (hpage _ hi).1, hu]
      · rw [(hpage _ hi).2]
        omega
    · rw [hs', content_write, Function.update_of_ne ha]
  refine ⟨by rw [hs', free_write], honly, iff_of_true rfl ?_, ?_⟩
  · exact fun i hi => (accessible_page (hpage i hi).1).mpr hacc
  · intro _ i hi
    obtain ⟨hd, ht⟩ := honly.tables hs
    have hoff : va.toNat % 4096 + i < PGSIZE := by
      unfold PGSIZE
      omega
    rw [load, entryAt_congr hd ht, entryAt_page (hpage i hi).1, hu, Option.map_some, (hpage i hi).2, hcontent,
      byte_eq _ hoff, Page.store, if_pos (by dsimp only; omega), getD_eq_getElem?_getD]
    dsimp only
    rw [Nat.add_sub_cancel_left, getElem?_eq_getElem hi]
    rfl

lemma CopiedOut.append {s₁ : Vm P} {buf' : List (BitVec 8)} {ok : Bool} (hs : UserPages s.content d)
    (h : CopiedOut s s₁ d va buf true) (h' : CopiedOut s₁ s' d va' buf' ok)
    (hnext : ∀ i < buf'.length, va' + BitVec.ofNat 32 i = va + BitVec.ofNat 32 (buf.length + i))
    (hlen : (buf ++ buf').length ≤ 2 ^ 32) : CopiedOut s s' d va (buf ++ buf') ok := by
  obtain ⟨hd, ht⟩ := h.only.tables hs
  have hentry := entryAt_congr hd ht
  have hacc : ∀ va, Accessible s₁.content d va ↔ Accessible s.content d va := by
    intro va
    rw [Accessible, Accessible, hentry]
  have hfirst := h.result.mp rfl
  rw [length_append] at hlen
  have honly : Only s s' d va (buf ++ buf').length := by
    intro a k hk
    rw [length_append] at hk
    rw [h'.only a k, h.only a k]
    · exact fun i hi => hk i (by omega)
    · intro i hi
      rw [hnext i hi, hacc, hentry]
      exact hk _ (by omega)
  refine ⟨h'.free.trans h.free, honly, ?_, ?_⟩
  · rw [h'.result, length_append]
    constructor
    · intro hrest i hi
      by_cases hlt : i < buf.length
      · exact hfirst i hlt
      · have hi' := hrest (i - buf.length) (by omega)
        rwa [hnext _ (by omega), Nat.add_sub_cancel' (by omega), hacc] at hi'
    · intro hall i hi
      rw [hnext i hi, hacc]
      exact hall _ (by omega)
  · intro hok i hi
    rw [length_append] at hi
    by_cases hlt : i < buf.length
    · -- the second range does not write over the first
      obtain ⟨u, hu, -⟩ := hs.users _ (hfirst i hlt)
      obtain ⟨hd', ht'⟩ := h'.only.tables (hs.congr hd ht)
      have hoff : (va + BitVec.ofNat 32 i).toNat % 4096 < PGSIZE := Nat.mod_lt _ (by decide)
      rw [getElem?_append_left hlt, ← h.bytes rfl i hlt, load, load, entryAt_congr hd' ht', hentry, hu, Option.map_some,
        Option.map_some, byte_eq _ hoff, byte_eq _ hoff, h'.only]
      intro j hj hacc' htarget heq
      dsimp only at heq
      rw [hnext j hj] at hacc' htarget heq
      rw [hentry] at htarget
      have hpage := hs.inj _ _ (hfirst i hlt) ((hacc _).mp hacc') (hu.trans htarget.symm)
      have hsame : i = buf.length + j := add_ofNat_inj va (by omega) (by omega) (by omega)
      omega
    · have hbyte := h'.bytes hok (i - buf.length) (by omega)
      rwa [hnext _ (by omega), Nat.add_sub_cancel' (by omega), ← getElem?_append_right (by omega)] at hbyte

lemma reaches_congr (hd : c' d = c d) (ht : ∀ i t, IsTable c d i t → c' t = c t) (len : ℕ) :
    Reaches c' d va len ↔ Reaches c d va len := by
  simp only [Reaches, Accessible, HasTable, entryAt_congr hd ht, hd]

lemma reaches_add {n len : ℕ}
    (hfirst : ∀ i < n, Accessible c d (va + BitVec.ofNat 32 i) ∧ HasTable c d (va + BitVec.ofNat 32 i))
    (hnext : ∀ i < len, va' + BitVec.ofNat 32 i = va + BitVec.ofNat 32 (n + i)) :
    Reaches c d va (n + len) ↔ Reaches c d va' len := by
  constructor
  · intro h i hi hbefore
    rw [hnext i hi]
    apply h (n + i) (by omega)
    intro j hj
    by_cases hlt : j < n
    · exact (hfirst j hlt).1
    · have hj' := hbefore (j - n) (by omega)
      rwa [hnext _ (by omega), Nat.add_sub_cancel' (by omega)] at hj'
  · intro h i hi hbefore
    by_cases hlt : i < n
    · exact (hfirst i hlt).2
    · have hi' := h (i - n) (by omega) (fun j hj => by
        rw [hnext j (by omega)]
        exact hbefore _ (by omega))
      rwa [hnext _ (by omega), Nat.add_sub_cancel' (by omega)] at hi'

/-- By induction on the fuel, a page a round. -/
lemma copyoutLoop_spec (fuel : ℕ) : ∀ va buf (s : Vm P), UserPages s.content d → buf.length < fuel → buf.length ≤ 2 ^ 32 →
    Wp (copyoutLoop d fuel va buf) s (fun ok s' => Reaches s.content d va buf.length ∧ CopiedOut s s' d va buf ok)
      (fun _ _ => ¬ Reaches s.content d va buf.length) := by
  induction fuel with
  | zero => intro va buf s _ hfuel; omega
  | succ fuel ih =>
    intro va buf s hs hfuel hlen
    unfold copyoutLoop
    by_cases hnil : buf = []
    · subst hnil
      rw [if_pos rfl]
      have hnone : ∀ i < 0, ∀ {q : Prop}, q := fun i hi => absurd hi (Nat.not_lt_zero i)
      exact ⟨fun i hi => hnone i hi, rfl, fun _ _ _ => rfl, iff_of_true rfl (fun i hi => hnone i hi), fun _ i hi => hnone i hi⟩
    rw [if_neg hnil]
    have hpos := length_pos_iff.mpr hnil
    have hzero : va + BitVec.ofNat 32 0 = va := BitVec.add_zero va
    have hpage : (pgRoundDown va).toNat / 4096 = va.toNat / 4096 := by
      rw [toNat_pgRoundDown]
      omega
    refine Wp.bind (uva2ka_spec hs (pgRoundDown va)) ?_ ?_
    · rintro r s₁ ⟨rfl, htable, hr⟩
      rw [hasTable_page hpage] at htable
      rw [accessible_page hpage, entryAt_page hpage] at hr
      cases r with
      | none =>
        refine ⟨?_, rfl, fun _ _ _ => rfl, ?_, by rintro ⟨⟩⟩
        · intro i hi hbefore
          cases i with
          | zero => rwa [hzero]
          | succ i =>
            have hfirst := hbefore 0 (Nat.succ_pos i)
            rw [hzero] at hfirst
            exact absurd hfirst hr
        · refine iff_of_false (by decide) ?_
          intro hall
          have hfirst := hall 0 hpos
          rw [hzero] at hfirst
          exact hr hfirst
      | some u =>
        obtain ⟨hacc, hu⟩ := hr
        simp only [page, setPage, wp_bind, wp_get, wp_pure, wp_modify]
        rw [toNat_sub_pgRoundDown]
        set n := min (PGSIZE - va.toNat % 4096) buf.length with hn
        have hsize : PGSIZE = 4096 := rfl
        have htake : (buf.take n).length = n := by
          rw [length_take]
          omega
        have hdrop : (buf.drop n).length = buf.length - n := length_drop
        set s₂ := s₁.write u ((s₁.content u).store (va.toNat % 4096) (buf.take n)) with hs₂
        have hchunk : CopiedOut s₁ s₂ d va (buf.take n) true := CopiedOut.chunk hs hacc hu (by omega) hs₂
        have hfirst : ∀ i < n, Accessible s₁.content d (va + BitVec.ofNat 32 i) ∧
            HasTable s₁.content d (va + BitVec.ofNat 32 i) := by
          intro i hi
          have hsame : (va + BitVec.ofNat 32 i).toNat / 4096 = va.toNat / 4096 := by
            rw [toNat_add_page (by omega)]
            omega
          exact ⟨(accessible_page hsame).mpr hacc, (hasTable_page hsame).mpr htable⟩
        have hnext : ∀ i < (buf.drop n).length, pgRoundDown va + 0x1000 + BitVec.ofNat 32 i = va + BitVec.ofNat 32 (n + i) :=
          fun i hi => pgRoundDown_next (by omega)
        obtain ⟨hd, ht⟩ := hchunk.only.tables hs
        have hreaches : Reaches s₁.content d va buf.length ↔ Reaches s₂.content d (pgRoundDown va + 0x1000) (buf.drop n).length := by
          rw [reaches_congr hd ht, ← reaches_add hfirst hnext, hdrop, Nat.add_sub_cancel' (by omega)]
        refine (ih _ (buf.drop n) s₂ (hs.congr hd ht) (by omega) (by omega)).mono ?_ ?_
        · rintro ok s' ⟨hrest, hcopied⟩
          refine ⟨hreaches.mpr hrest, ?_⟩
          have hall := hchunk.append hs hcopied (by rwa [htake]) (by rwa [take_append_drop])
          rwa [take_append_drop] at hall
        · intro _ _ hrest
          rwa [hreaches]
    · rintro _ _ htable hreaches
      rw [hasTable_page hpage] at htable
      have hfirst := hreaches 0 hpos (fun j hj => absurd hj (Nat.not_lt_zero j))
      rw [hzero] at hfirst
      exact htable hfirst

/-- `copyout` of at most `2 ^ 32` bytes returns 0 if and only if all their addresses are pages of the user, and it then has
written the bytes there and nothing else; otherwise it returns -1 and has written only to pages of the user. It does so if and
only if there are page tables up to the first address that is not a page of the user. -/
theorem copyout_confined_iff (h : UserPages s.content d) (va : BitVec 32) (hlen : buf.length ≤ 2 ^ 32) :
    (∃ ok s', copyout d va buf s = .ok ok s' ∧ CopiedOut s s' d va buf ok) ↔
      ∀ i < buf.length, (∀ j < i, Accessible s.content d (va + BitVec.ofNat 32 j)) →
        HasTable s.content d (va + BitVec.ofNat 32 i) := by
  have hspec := copyoutLoop_spec (buf.length + 1) va buf s h (Nat.lt_succ_self _) hlen
  constructor
  · rintro ⟨ok, s', hrun, -⟩
    exact (Returns.of_ok hspec hrun).1
  · intro hreaches
    have hdone := hspec.mono (fun _ _ h => h.2) (fun _ _ h => h hreaches)
    exact hdone.exists_ok

lemma Sane.userPages {k : KernelLayout} (h : Sane k c d) (hkernel : ∀ va, 2 ^ 31 ≤ va.toNat → ¬ Accessible c d va) :
    UserPages c d := by
  have hlow : ∀ {va}, Accessible c d va → va.toNat / 4096 < 2 ^ 19 := by
    intro va hacc
    by_contra hhigh
    exact hkernel va (by omega) hacc
  have huser : ∀ {va}, Accessible c d va → ∃ u : Addr P, target (entryAt c d va) = some u := by
    intro va hacc
    obtain ⟨u, hu, -⟩ := h.users _ (hlow hacc) hacc.1
    exact ⟨u, hu⟩
  constructor
  · exact fun va htable => h.tables _ (pdx_lt va) htable
  · intro va hacc
    obtain ⟨u, hu⟩ := huser hacc
    obtain ⟨hne, hno⟩ := h.user_ne (hlow hacc) hu
    exact ⟨u, hu, hne, fun i hi => hno i u hi rfl⟩
  · intro va va' hacc hacc' heq
    obtain ⟨u, hu⟩ := huser hacc
    exact pte_inj h.nodup (hlow hacc) (hlow hacc') hu (heq ▸ hu)

lemma userPages_onePage : UserPages onePage.content 1 := by
  obtain ⟨hspace, hpte⟩ := space_onePage []
  apply hspace.toSane.userPages
  intro va hhigh hacc
  have := va.isLt
  have hp := hacc.1
  rw [entryAt, hpte _ (by omega), if_neg (by omega)] at hp
  exact absurd hp (by decide)

/-- Two bytes for the page of a directory with one page. -/
theorem copyout_confined_onePage :
    ∃ ok s', copyout 1 0x10 [0x61, 0] onePage = .ok ok s' ∧ CopiedOut onePage s' 1 0x10 [0x61, 0] ok := by
  refine (copyout_confined_iff userPages_onePage 0x10 (by decide)).mpr fun i hi _ => ?_
  have htable : ∀ i < 2, HasTable onePage.content 1 (0x10 + BitVec.ofNat 32 i) := by
    unfold HasTable
    decide +kernel
  exact htable i hi

/-- Without a page table for the address `copyout` does not return -1: `uva2ka` reads the entry at a null pointer. -/
theorem copyout_without_table : ¬ HasTable emptyDir.content 1 0x10 ∧
    copyout 1 0x10 [0x61, 0] emptyDir = .error .fault emptyDir := by
  refine ⟨?_, rfl⟩
  rw [HasTable, show emptyDir.content 1 = Page.fill 0 from rfl, Page.word_fill_zero]
  decide

end Vm

end Xv6Bfs
