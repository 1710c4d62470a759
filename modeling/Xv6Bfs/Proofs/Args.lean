import Xv6Bfs.Library.Ring
import Xv6Bfs.Args

/-!
# Arguments stay inside the process

No sum of the checks wraps, as no process is larger than `KERNBASE`: what the kernel touches for an
argument is below the size of the process as a number.
-/

namespace Xv6Bfs

namespace UserProc

variable {u : UserProc} {addr : BitVec 32}

def Contains (u : UserProc) (addr : BitVec 32) (size : ℕ) : Prop :=
  addr.toNat < u.sz.toNat ∧ addr.toNat + size ≤ u.sz.toNat

/-- The string at `addr` of length `len` is in the process, with its terminator. -/
structure IsString (u : UserProc) (addr : BitVec 32) (len : ℕ) : Prop where
  inside : addr.toNat + len < u.sz.toNat
  nonzero : ∀ k < len, u.mem (addr + BitVec.ofNat 32 k) ≠ 0
  terminator : u.mem (addr + BitVec.ofNat 32 len) = 0

lemma fetchint_eq_some_iff (hsz : u.sz ≤ KERNBASE) {v : BitVec 32} :
    u.fetchint addr = some v ↔ u.Contains addr 4 ∧ v = u.word addr := by
  have hiff : (addr ≥ u.sz ∨ addr + 4 > u.sz) ↔ ¬ u.Contains addr 4 := by
    unfold KERNBASE at hsz
    unfold Contains
    bv_omega
  rw [fetchint, Option.ite_none_left_eq_some, hiff, not_not, Option.some.injEq, eq_comm (a := v)]

lemma argptr_eq_some_iff (hsz : u.sz ≤ KERNBASE) {n size i p : BitVec 32} (hi : u.argint n = some i) :
    u.argptr n size = some p ↔ p = i ∧ 0 ≤ size.toInt ∧ u.Contains i size.toInt.toNat := by
  have hiff : (size.toInt < 0 ∨ i ≥ u.sz ∨ i + size > u.sz) ↔ ¬ (0 ≤ size.toInt ∧ u.Contains i size.toInt.toNat) := by
    unfold KERNBASE at hsz
    unfold Contains
    rw [BitVec.toInt_eq_toNat_cond]
    have := size.isLt
    split <;> bv_omega
  rw [argptr, hi, Option.bind_eq_bind, Option.bind_some, Option.ite_none_left_eq_some, hiff, not_not, Option.some.injEq,
    and_comm, eq_comm]

/-! ### Strings -/

lemma IsString.cons {len : ℕ} (h : u.IsString (addr + 1) len) (hlt : addr.toNat < u.sz.toNat) (hne : u.mem addr ≠ 0) :
    u.IsString addr (len + 1) := by
  have hnext : (addr + 1).toNat = addr.toNat + 1 := by
    have := u.sz.isLt
    bv_omega
  refine ⟨?_, ?_, ?_⟩
  · have := h.inside
    omega
  · intro k hk
    cases k with
    | zero => simpa using hne
    | succ k =>
      rw [Ring.add_ofNat_succ]
      exact h.nonzero k (by omega)
  · rw [Ring.add_ofNat_succ]
    exact h.terminator

lemma fetchstrLoop_spec (hsz : u.sz ≤ KERNBASE) (pp : BitVec 32) (fuel : ℕ) (s : BitVec 32) (hpp : pp.toNat ≤ s.toNat)
    (hs : s.toNat ≤ u.sz.toNat) (hfuel : u.sz.toNat - s.toNat < fuel) :
    match u.fetchstrLoop pp fuel s with
    | some r => ∃ len, u.IsString s len ∧ r = (s.toNat - pp.toNat + len : ℕ)
    | none => ∀ k, s.toNat + k < u.sz.toNat → u.mem (s + BitVec.ofNat 32 k) ≠ 0 := by
  induction fuel generalizing s with
  | zero => omega
  | succ fuel ih =>
    rw [fetchstrLoop]
    by_cases hlt : s < u.sz
    · rw [if_pos hlt]
      have hlt' : s.toNat < u.sz.toNat := hlt
      have hbound : u.sz.toNat ≤ 2 ^ 31 := hsz
      by_cases hzero : u.mem s = 0
      · rw [if_pos hzero]
        refine ⟨0, ⟨hlt', nofun, by simpa using hzero⟩, ?_⟩
        rw [BitVec.toInt_eq_toNat_cond]
        split <;> bv_omega
      · rw [if_neg hzero]
        have hnext : (s + 1).toNat = s.toNat + 1 := by bv_omega
        have hrest := ih (s + 1) (by omega) (by omega) (by omega)
        split at hrest
        · obtain ⟨len, hstring, hr⟩ := hrest
          refine ⟨len + 1, hstring.cons hlt' hzero, ?_⟩
          rw [hr]
          omega
        · intro k hk
          cases k with
          | zero => simpa using hzero
          | succ k =>
            rw [Ring.add_ofNat_succ]
            exact hrest k (by omega)
    · rw [if_neg hlt]
      have hge : u.sz.toNat ≤ s.toNat := BitVec.not_lt.mp hlt
      intro k hk
      omega

/-- `fetchstr` finds the string, or it does not end inside the memory of the process. -/
lemma fetchstr_spec (hsz : u.sz ≤ KERNBASE) (addr : BitVec 32) :
    match u.fetchstr addr with
    | some r => ∃ len : ℕ, u.IsString addr len ∧ r = (addr, (len : ℤ))
    | none => ∀ k, addr.toNat + k < u.sz.toNat → u.mem (addr + BitVec.ofNat 32 k) ≠ 0 := by
  rw [fetchstr]
  by_cases hge : addr ≥ u.sz
  · rw [if_pos hge]
    have hge' : u.sz.toNat ≤ addr.toNat := hge
    intro k hk
    omega
  · rw [if_neg hge]
    have hlt : addr.toNat < u.sz.toNat := BitVec.not_le.mp hge
    have hloop := fetchstrLoop_spec hsz addr ((u.sz - addr).toNat + 1) addr le_rfl hlt.le (by bv_omega)
    cases hresult : u.fetchstrLoop addr ((u.sz - addr).toNat + 1) addr with
    | none =>
      rw [hresult] at hloop
      exact hloop
    | some r =>
      rw [hresult] at hloop
      obtain ⟨len, hstring, rfl⟩ := hloop
      refine ⟨len, hstring, ?_⟩
      simp

/-- What the kernel may touch for an argument is in the process, and an argument is refused only if
it is not there. -/
theorem arguments_inside (u : UserProc) (hsz : u.sz ≤ KERNBASE) :
    (∀ addr v, u.fetchint addr = some v → u.Contains addr 4 ∧ v = u.word addr) ∧
    (∀ addr, u.fetchint addr = none → ¬ u.Contains addr 4) ∧
    (∀ n v, u.argint n = some v → u.Contains (u.esp + 4 + 4 * n) 4 ∧ v = u.word (u.esp + 4 + 4 * n)) ∧
    (∀ n, u.argint n = none → ¬ u.Contains (u.esp + 4 + 4 * n) 4) ∧
    (∀ n size p, u.argptr n size = some p →
      u.argint n = some p ∧ 0 ≤ size.toInt ∧ u.Contains p size.toInt.toNat) ∧
    (∀ n size i, u.argint n = some i → u.argptr n size = none →
      size.toInt < 0 ∨ ¬ u.Contains i size.toInt.toNat) ∧
    (∀ addr r, u.fetchstr addr = some r → ∃ len : ℕ, u.IsString addr len ∧ r = (addr, (len : ℤ))) ∧
    (∀ addr, u.fetchstr addr = none → ∀ k, addr.toNat + k < u.sz.toNat → u.mem (addr + BitVec.ofNat 32 k) ≠ 0) ∧
    (∀ n r, u.argstr n = some r →
      ∃ addr, u.argint n = some addr ∧ ∃ len : ℕ, u.IsString addr len ∧ r = (addr, (len : ℤ))) ∧
    (∀ n addr, u.argint n = some addr → u.argstr n = none →
      ∀ k, addr.toNat + k < u.sz.toNat → u.mem (addr + BitVec.ofNat 32 k) ≠ 0) := by
  have hint : ∀ addr, u.fetchint addr = none → ¬ u.Contains addr 4 := by
    intro addr hnone hin
    have hsome := (fetchint_eq_some_iff hsz).mpr ⟨hin, rfl⟩
    rw [hnone] at hsome
    cases hsome
  have hstr : ∀ addr r, u.fetchstr addr = some r → ∃ len : ℕ, u.IsString addr len ∧ r = (addr, (len : ℤ)) := by
    intro addr r hr
    have hspec := fetchstr_spec hsz addr
    rw [hr] at hspec
    exact hspec
  have hnul : ∀ addr, u.fetchstr addr = none →
      ∀ k, addr.toNat + k < u.sz.toNat → u.mem (addr + BitVec.ofNat 32 k) ≠ 0 := by
    intro addr hnone
    have hspec := fetchstr_spec hsz addr
    rw [hnone] at hspec
    exact hspec
  refine ⟨fun addr v => (fetchint_eq_some_iff hsz).mp, hint, fun n v => (fetchint_eq_some_iff hsz).mp,
    fun n => hint _, ?_, ?_, hstr, hnul, ?_, ?_⟩
  · intro n size p hp
    obtain ⟨i, hi, -⟩ := Option.bind_eq_some_iff.mp hp
    obtain ⟨rfl, hsize, hin⟩ := (argptr_eq_some_iff hsz hi).mp hp
    exact ⟨hi, hsize, hin⟩
  · intro n size i hi hnone
    by_contra hcon
    rw [not_or, not_lt, not_not] at hcon
    have hsome := (argptr_eq_some_iff hsz hi).mpr ⟨rfl, hcon⟩
    rw [hnone] at hsome
    cases hsome
  · intro n r hr
    obtain ⟨addr, haddr, hr⟩ := Option.bind_eq_some_iff.mp hr
    exact ⟨addr, haddr, hstr addr r hr⟩
  · intro n addr haddr hnone
    rw [argstr, haddr] at hnone
    exact hnul addr hnone

def smallProc : UserProc where
  sz := 12
  esp := 0
  mem a := if a = 4 then 8 else 0

theorem arguments_inside_smallProc :
    smallProc.sz ≤ KERNBASE ∧ smallProc.argptr 0 4 = some 8 ∧ smallProc.Contains 8 4 ∧ smallProc.argptr 0 5 = none := by
  have hargs := arguments_inside smallProc (by decide)
  have hptr : smallProc.argptr 0 4 = some 8 := by decide
  exact ⟨by decide, hptr, (hargs.2.2.2.2.1 0 4 8 hptr).2.2, by decide⟩

end UserProc

end Xv6Bfs
