import Xv6Bfs.UserMemory
import Xv6Bfs.Proofs.VmCopy

/-!
# Resizing the memory of a process

The pages below the size of a process are those that it has. `growproc` keeps this unless it is
asked to give back everything, or more than there is.
-/

namespace Xv6Bfs

open Ledger Program Transition

namespace UserMemory

variable {P : ℕ} {s s' : Vm P} {X : Multiset (Addr P)} {k : KernelLayout} {p p' : UserMemory P} {n : BitVec 32}

open Vm

/-- The pages below `PGROUNDUP(sz)` are the present pages of the user half. -/
def Exact (c : Addr P → Page) (p : UserMemory P) : Prop :=
  ∀ i, i < pageCeil p.sz ↔ i < 2 ^ 19 ∧ present (pte c p.pgdir i) = true

/-- A call that returns 0: the pages up to the new size are present, the old ones among them with
their contents, the new ones full of zeros. -/
structure Resized (s s' : Vm P) (p p' : UserMemory P) (n : BitVec 32) : Prop where
  pgdir : p'.pgdir = p.pgdir
  size : (p'.sz.toNat : ℤ) = p.sz.toNat + n.toInt
  below : p'.sz < KERNBASE
  exact : Exact s'.content p'
  kept : ∀ i, i < pageCeil p.sz → i < pageCeil p'.sz → pte s'.content p.pgdir i = pte s.content p.pgdir i ∧
    ∀ u : Addr P, target (pte s.content p.pgdir i) = some u → s'.content u = s.content u
  zero : ∀ i, pageCeil p.sz ≤ i → i < pageCeil p'.sz →
    ∃ u : Addr P, target (pte s'.content p.pgdir i) = some u ∧ s'.content u = Page.fill 0

/-- `growproc` returns 0 and has resized the memory, or -1 and has changed nothing. -/
def GrowsExactly (k : KernelLayout) (s : Vm P) (p : UserMemory P) (n : BitVec 32) : Prop :=
  Wp (growproc k p n) s (fun r s' => if r.1 then Resized s s' p r.2 n
    else r.2 = p ∧ ∀ i < 2 ^ 20, mapping s'.content p.pgdir i = mapping s.content p.pgdir i) (fun _ _ => False)

def Keeps (p : UserMemory P) (n : BitVec 32) : Prop :=
  0 ≤ n.toInt ∨ p.sz = 0 ∨ 0 < p.sz.toNat + n.toInt

instance (p : UserMemory P) (n : BitVec 32) : Decidable (Keeps p n) := by
  unfold Keeps
  infer_instance

lemma Exact.lt (h : Exact s.content p) (hP : P ≤ 2 ^ 19) (hs : Vm.Sane k s.content p.pgdir) : p.sz < KERNBASE := by
  obtain ⟨i, hi, hnone⟩ := hs.exists_unmapped hP
  have hle : pageCeil p.sz ≤ i := by
    by_contra hlt
    obtain ⟨_, hp⟩ := (h i).mp (by omega)
    obtain ⟨u, hu, _⟩ := hs.users i hi hp
    rw [hnone] at hu
    cases hu
  have hlt : p.sz.toNat < 2 ^ 31 := by
    unfold pageCeil at hle
    omega
  exact hlt

lemma toNat_add_of_nonneg (hsz : p.sz < KERNBASE) (hn : 0 ≤ n.toInt) :
    ((p.sz + n).toNat : ℤ) = p.sz.toNat + n.toInt := by
  have hlt : p.sz.toNat < 2 ^ 31 := hsz
  have hint := BitVec.toInt_eq_toNat_cond n
  have := n.isLt
  rw [BitVec.toNat_add]
  split at hint <;> omega

lemma toNat_add_of_neg (hn : n.toInt < 0) (hle : 0 ≤ p.sz.toNat + n.toInt) :
    ((p.sz + n).toNat : ℤ) = p.sz.toNat + n.toInt := by
  have hint := BitVec.toInt_eq_toNat_cond n
  have := n.isLt
  have := p.sz.isLt
  rw [BitVec.toNat_add]
  split at hint <;> omega

def Done (k : KernelLayout) (X : Multiset (Addr P)) (s : Vm P) (p : UserMemory P) (n : BitVec 32)
    (r : Bool × UserMemory P) (s' : Vm P) : Prop :=
  Space k s' X p.pgdir ∧ if r.1 then Resized s s' p r.2 n
    else r.2 = p ∧ ∀ i < 2 ^ 20, mapping s'.content p.pgdir i = mapping s.content p.pgdir i

lemma Resized.of_grown (h : Space k s X p.pgdir) (hexact : Exact s.content p) {newsz : BitVec 32} (hnew : newsz < KERNBASE)
    (hle : p.sz ≤ newsz) (hsum : (newsz.toNat : ℤ) = p.sz.toNat + n.toInt) (hP : P ≤ 2 ^ 19)
    (hgrown : Grown k X X (pageCeil p.sz) (pageCeil newsz) s s' p.pgdir) : Resized s s' p { p with sz := newsz } n := by
  have hceil := pageCeil_le (BitVec.le_of_lt hnew)
  have hmono : pageCeil p.sz ≤ pageCeil newsz := by
    have hle' : p.sz.toNat ≤ newsz.toNat := hle
    unfold pageCeil
    omega
  have htarget : ∀ i, pageCeil p.sz ≤ i → i < pageCeil newsz →
      ∃ u : Addr P, target (pte s'.content p.pgdir i) = some u ∧ s'.content u = Page.fill 0 := by
    intro i hlo hhi
    obtain ⟨m, _, hentry, hzero⟩ := hgrown.inside i hlo hhi
    refine ⟨m, ?_, hzero⟩
    rw [hentry]
    exact target_v2p hP m (by decide)
  refine ⟨rfl, hsum, hnew, ?_, ?_, htarget⟩
  · intro i
    dsimp only
    by_cases hnewpage : pageCeil p.sz ≤ i ∧ i < pageCeil newsz
    · obtain ⟨u, hu, _⟩ := htarget i hnewpage.1 hnewpage.2
      exact iff_of_true hnewpage.2 ⟨by omega, present_of_target hu⟩
    · by_cases hi : i < 2 ^ 19
      · rw [hgrown.outside i (by omega) hnewpage, ← hexact i]
        omega
      · omega
  · intro i hi _
    have huser := ((hexact i).mp hi).1
    refine ⟨hgrown.outside i (by omega) (by omega), ?_⟩
    intro u hu
    obtain ⟨hfree, hdir, htable⟩ := h.user_ne huser hu
    exact hgrown.edits.other u hfree hdir htable

lemma Resized.of_cleared (h : Space k s X p.pgdir) (hexact : Exact s.content p) (hsz : p.sz < KERNBASE) {newsz : BitVec 32}
    (hlt : newsz < p.sz) (hsum : (newsz.toNat : ℤ) = p.sz.toNat + n.toInt)
    (hcleared : Vm.Cleared (pageCeil newsz) (pageCeil p.sz) s s' p.pgdir) : Resized s s' p { p with sz := newsz } n := by
  have hceil := pageCeil_le (BitVec.le_of_lt hsz)
  have hlt' : newsz.toNat < p.sz.toNat := hlt
  have hsz' : p.sz.toNat < 2 ^ 31 := hsz
  have hmono : pageCeil newsz ≤ pageCeil p.sz := by
    unfold pageCeil
    omega
  have hbelow : newsz.toNat < 2 ^ 31 := by omega
  refine ⟨rfl, hsum, hbelow, ?_, ?_, ?_⟩
  · intro i
    dsimp only
    by_cases hi : i < 2 ^ 19
    · have hpresent := hexact i
      rw [hcleared.pte i (by omega)]
      by_cases hrange : pageCeil newsz ≤ i ∧ i < pageCeil p.sz
      · rw [if_pos ⟨hrange.1, hrange.2, (hpresent.mp hrange.2).2⟩]
        refine iff_of_false (by omega) (fun hp => ?_)
        exact absurd hp.2 (by decide)
      · rw [if_neg (by tauto), ← hpresent]
        omega
    · omega
  · intro i hi hi'
    have huser := ((hexact i).mp hi).1
    dsimp only at hi'
    refine ⟨?_, ?_⟩
    · rw [hcleared.pte i (by omega), if_neg (by omega)]
    · intro u hu
      obtain ⟨_, hdir, htable⟩ := h.user_ne huser hu
      apply hcleared.other u _ htable
      -- the page is at one address only
      intro hin
      obtain ⟨j, hlo, hhi, hj⟩ := mem_pagesIn.mp hin
      have := pte_inj h.nodup huser (by omega) hu hj
      omega
  · intro i hlo hhi
    dsimp only at hhi
    omega

section Calls

variable (hP : P ≤ 2 ^ 19) (h : Space k s X p.pgdir) (hexact : Exact s.content p)

include hP h hexact

lemma growproc_more (hn : 0 < n.toInt) : Wp (growproc k p n) s (Done k X s p n) (fun _ _ => False) := by
  have hsz := hexact.lt hP h.toSane
  have hsum := toNat_add_of_nonneg hsz (le_of_lt hn)
  have hne : p.sz + n ≠ 0 := by
    intro hzero
    rw [hzero] at hsum
    have : ((0 : BitVec 32).toNat : ℤ) = 0 := rfl
    omega
  unfold growproc
  rw [if_pos hn]
  by_cases hnew : p.sz + n < KERNBASE
  · have hle : p.sz ≤ p.sz + n := by
      rw [BitVec.le_def]
      omega
    have hunused : ∀ i, pageCeil p.sz ≤ i → i < pageCeil (p.sz + n) → ¬ present (pte s.content p.pgdir i) = true := by
      intro i hlo hhi hp
      have := pageCeil_le (BitVec.le_of_lt hnew)
      have := (hexact i).mpr ⟨by omega, hp⟩
      omega
    refine Wp.bind (allocuvm_spec hP h hle hnew hunused) ?_ (fun _ _ h => h)
    rintro r s' (⟨rfl, hgrown⟩ | ⟨rfl, hundone⟩)
    · rw [if_neg hne]
      exact ⟨hgrown.space, Resized.of_grown h hexact hnew hle hsum hP hgrown⟩
    · rw [if_pos rfl]
      exact ⟨hundone.space, rfl, fun i hi => hundone.mapping hunused hi⟩
  · have hge : p.sz + n ≥ KERNBASE := BitVec.not_lt.mp hnew
    unfold allocuvm
    rw [if_pos hge, wp_bind, wp_pure, if_pos rfl]
    exact ⟨h, rfl, fun _ _ => rfl⟩

lemma growproc_less (hn : n.toInt < 0) (hkeeps : p.sz = 0 ∨ 0 < p.sz.toNat + n.toInt) :
    Wp (growproc k p n) s (Done k X s p n) (fun _ _ => False) := by
  have hsz := hexact.lt hP h.toSane
  unfold growproc
  rw [if_neg (not_lt.mpr (le_of_lt hn)), if_pos hn]
  refine Wp.bind (deallocuvm_spec h.toSane (BitVec.le_of_lt hsz) (p.sz + n)) ?_ (fun _ _ h => h)
  rintro r s' ⟨rfl, hcleared, hsane⟩
  obtain ⟨hspace, _⟩ := h.cleared hcleared hsane
  rcases hkeeps with hzero | hpos
  · -- nothing to give back
    have hnot : ¬ p.sz + n < p.sz := by
      rw [hzero, BitVec.lt_def]
      exact Nat.not_lt_zero _
    rw [if_neg hnot, if_pos hzero]
    refine ⟨hspace, rfl, fun i hi => ?_⟩
    apply mapping_of_eq
    rw [hcleared.pte i hi, if_neg]
    rw [hzero, pageCeil_zero]
    omega
  · have hsum := toNat_add_of_neg hn (le_of_lt hpos)
    have hlt : p.sz + n < p.sz := by
      rw [BitVec.lt_def]
      omega
    have hne : ¬ p.sz + n = 0 := by
      intro hzero
      rw [hzero] at hsum
      have : ((0 : BitVec 32).toNat : ℤ) = 0 := rfl
      omega
    rw [if_pos hlt, if_neg hne]
    exact ⟨hspace, Resized.of_cleared h hexact hsz hlt hsum hcleared⟩

lemma growproc_spec (hkeeps : Keeps p n) : Wp (growproc k p n) s (Done k X s p n) (fun _ _ => False) := by
  rcases lt_trichotomy 0 n.toInt with hpos | hzero | hneg
  · exact growproc_more hP h hexact hpos
  · have hsz := hexact.lt hP h.toSane
    unfold growproc
    rw [if_neg (by omega), if_neg (by omega)]
    refine ⟨h, rfl, by rw [← hzero, add_zero], hsz, hexact, fun _ _ _ => ⟨rfl, fun _ _ => rfl⟩, ?_⟩
    intro i hlo hhi
    dsimp only at hhi
    omega
  · exact growproc_less hP h hexact hneg (hkeeps.resolve_left (by omega))

/-- A process that gives back everything loses its pages and is told that the call has failed; one
that gives back more keeps them and is told that it has not. -/
lemma not_growsExactly (hkeeps : ¬ Keeps p n) : ¬ GrowsExactly k s p n := by
  unfold Keeps at hkeeps
  have hsz := hexact.lt hP h.toSane
  have hn : n.toInt < 0 := by omega
  have hzero : ¬ p.sz = 0 := fun hz => hkeeps (.inr (.inl hz))
  have hpos : ¬ p.sz.toNat = 0 := fun hz => hzero (BitVec.eq_of_toNat_eq hz)
  intro hgrows
  unfold GrowsExactly growproc at hgrows
  rw [if_neg (not_lt.mpr (le_of_lt hn)), if_pos hn] at hgrows
  obtain ⟨r, s', hrun, hr, hcleared, _⟩ :=
    (deallocuvm_spec h.toSane (BitVec.le_of_lt hsz) (p.sz + n)).exists_ok
  rw [wp_bind, Wp, hrun] at hgrows
  rcases lt_or_eq_of_le (show p.sz.toNat + n.toInt ≤ 0 by omega) with hneg | heq
  · -- the sum wraps around to a size that is larger
    have hnot : ¬ p.sz + n < p.sz := by
      have hint := BitVec.toInt_eq_toNat_cond n
      have := n.isLt
      rw [BitVec.lt_def, BitVec.toNat_add]
      split at hint <;> omega
    rw [if_neg hnot] at hr
    dsimp only at hgrows
    rw [hr, if_neg hzero] at hgrows
    have hsize := hgrows.size
    dsimp only at hsize
    omega
  · have hsum := toNat_add_of_neg hn (le_of_eq heq.symm)
    have hnew : p.sz + n = 0 := by
      apply BitVec.eq_of_toNat_eq
      change (p.sz + n).toNat = 0
      omega
    have hlt : p.sz + n < p.sz := by
      rw [BitVec.lt_def]
      omega
    rw [if_pos hlt, hnew] at hr
    dsimp only at hgrows
    rw [hr, if_pos rfl] at hgrows
    -- the first page was there
    have hceil : 0 < pageCeil p.sz := by
      unfold pageCeil
      omega
    have hp := ((hexact 0).mp hceil).2
    have hgone : pte s'.content p.pgdir 0 = 0 := by
      rw [hcleared.pte 0 (by decide), hnew, pageCeil_zero, if_pos ⟨le_refl 0, hceil, hp⟩]
    have hmap := hgrows.2 0 (by decide)
    unfold mapping at hmap
    rw [if_pos hp, hgone, if_neg (by decide)] at hmap
    cases hmap

end Calls

def Good (k : KernelLayout) (X : Multiset (Addr P)) (x : UserMemory P × Vm P) : Prop :=
  Space k x.2 X x.1.pgdir ∧ Exact x.2.content x.1

lemma Done.good (h : Exact s.content p) {r : Bool × UserMemory P} (hdone : Done k X s p n r s') : Good k X (r.2, s') := by
  obtain ⟨hspace, hr⟩ := hdone
  split at hr
  · exact ⟨hr.pgdir ▸ hspace, hr.exact⟩
  · obtain ⟨heq, hmap⟩ := hr
    rw [heq]
    refine ⟨hspace, ?_⟩
    intro i
    rw [h i]
    by_cases hi : i < 2 ^ 19
    · have hsame := hmap i (by omega)
      unfold mapping at hsame
      by_cases hp : present (pte s.content p.pgdir i) = true <;>
        by_cases hp' : present (pte s'.content p.pgdir i) = true <;> simp_all
    · exact iff_of_false (fun hc => hi hc.1) (fun hc => hi hc.1)

lemma Reach.good (hP : P ≤ 2 ^ 19) (h : Good k X (p, s)) {x : UserMemory P × Vm P}
    (hx : Reach (sbrkSystem k p s) (fun x n => Keeps x.1 n) x) : Good k X x := by
  refine hx.invariant (Good k X) ?_ ?_
  · rintro x rfl
    exact h
  · rintro ⟨p, s⟩ n x' hgood hkeeps hstep
    obtain ⟨r, s', hrun, hdone⟩ := (growproc_spec hP hgood.1 hgood.2 hkeeps).exists_ok
    have hsbrk : sysSbrk k p n s = .ok (if r.1 then some p.sz else none, r.2) s' := by
      unfold sysSbrk
      rw [bind_of_ok hrun]
      rfl
    simp only [sbrkSystem, hsbrk, Option.some.injEq] at hstep
    rw [← hstep]
    exact hdone.good hgood.2

theorem growproc_exact_iff (hP : P ≤ 2 ^ 19) (hk : k.Ok) (h : Space k s X p.pgdir) (hexact : Exact s.content p) :
    (∀ n, GrowsExactly k s p n ↔ Keeps p n) ∧
      ∀ x, Reach (sbrkSystem k p s) (fun x n => Keeps x.1 n) x → ∃ r s', copyuvm k x.1.pgdir x.1.sz x.2 = .ok r s' := by
  refine ⟨?_, ?_⟩
  · intro n
    refine ⟨?_, ?_⟩
    · intro hgrows
      by_contra hkeeps
      exact not_growsExactly hP h hexact hkeeps hgrows
    · intro hkeeps
      exact (growproc_spec hP h hexact hkeeps).imp (fun _ _ hdone => hdone.2)
  · rintro ⟨p', s'⟩ hx
    obtain ⟨hspace, hexact'⟩ := Reach.good hP ⟨h, hexact⟩ hx
    have hparent : ∀ a ∈ vmPages s'.content p'.pgdir, a ∉ s'.free := fun a ha hfree => hspace.not_mem_of_free hfree ha
    have hspec := copyuvm_spec hparent hP hk hspace.apart hspace.pool p'.sz
    have hnever : ∀ n < pageCeil p'.sz, n < 2 ^ 19 → (target (pte s'.content p'.pgdir n) : Ptr P) ≠ none := by
      intro n hn huser hnone
      obtain ⟨u, hu, _⟩ := hspace.users n huser ((hexact' n).mp hn).2
      rw [hnone] at hu
      cases hu
    obtain ⟨r, s'', hrun, _⟩ := (hspec.mono (fun _ _ h => h)
      (fun _ _ ⟨n, hn, huser, hnone⟩ => hnever n hn huser hnone)).exists_ok
    exact ⟨r, s'', hrun⟩

lemma exact_onePage : Exact onePage.content ⟨1, 0x1000⟩ := by
  intro i
  have hceil : pageCeil 0x1000 = 1 := by decide
  dsimp only
  rw [hceil]
  by_cases hi : i < 2 ^ 19
  · by_cases hzero : i = 0
    · rw [hzero]
      exact iff_of_true (by decide) ⟨by decide, present_of_target target_onePage⟩
    · rw [(space_onePage []).2 i (by omega), if_neg hzero]
      exact iff_of_false (by omega) (fun hp => absurd hp.2 (by decide))
  · omega

theorem growproc_exact_iff_onePage : GrowsExactly ⟨4096, []⟩ onePage ⟨1, 0x1000⟩ 0x1000 :=
  ((growproc_exact_iff (by decide) ⟨by simp, List.Pairwise.nil⟩ (space_onePage []).1 exact_onePage).1 0x1000).mpr
    (by decide)

/-- A process of one page gives it back: it is told that the call has failed, and cannot fork any more. -/
theorem growproc_gives_back_all : Exact onePage.content ⟨1, 0x1000⟩ ∧
    ¬ GrowsExactly ⟨4096, []⟩ onePage ⟨1, 0x1000⟩ (-0x1000) ∧
    (match growproc ⟨4096, []⟩ ⟨1, 0x1000⟩ (-0x1000) onePage with
      | .ok (ok, p) s => ok = false ∧ match copyuvm ⟨4096, []⟩ p.pgdir p.sz s with
        | .error e _ => e = .copyuvmPageNotPresent
        | .ok _ _ => False
      | .error _ _ => False) := by
  refine ⟨exact_onePage, not_growsExactly (by decide) (space_onePage []).1 exact_onePage (by decide), ?_⟩
  have hrun : (match growproc ⟨4096, []⟩ ⟨1, 0x1000⟩ (-0x1000) onePage with
      | .ok (ok, p) s => !ok && match copyuvm ⟨4096, []⟩ p.pgdir p.sz s with
        | .error e _ => decide (e = .copyuvmPageNotPresent)
        | .ok _ _ => false
      | .error _ _ => false) = true := by
    decide +kernel
  revert hrun
  split
  · intro hrun
    rw [Bool.and_eq_true] at hrun
    refine ⟨by simpa using hrun.1, ?_⟩
    revert hrun
    split <;> simp
  · simp

end UserMemory

end Xv6Bfs
