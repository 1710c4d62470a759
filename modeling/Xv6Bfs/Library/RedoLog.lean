import Mathlib.Data.List.Basic

/-!
# Redo logs

A redo log keeps copies of values next to a header that names their homes. A store is
recoverable to `D` when copying what the header names would make every home equal to `D`.
This is kept by each single write of a commit and of a recovery, so a crash between any
two writes loses nothing.
-/

namespace RedoLog

open Function

variable {α β : Type*}

/-- Where the log lies in a store, and which homes a header names. -/
structure Layout (α β : Type*) where
  head : α
  slot : ℕ → α
  capacity : ℕ
  homes : β → List α
  slot_ne_head : ∀ i, i < capacity → slot i ≠ head
  slot_inj : ∀ i j, i < capacity → j < capacity → slot i = slot j → i = j

namespace Layout

variable (L : Layout α β)

def Home (a : α) : Prop :=
  a ≠ L.head ∧ ∀ i, i < L.capacity → a ≠ L.slot i

def pending (disk : α → β) : List α :=
  L.homes (disk L.head)

/-- Replaying the pending part of the log gives the content `D`. -/
structure Recoverable (disk D : α → β) : Prop where
  fits : (L.pending disk).length ≤ L.capacity
  home : ∀ a ∈ L.pending disk, L.Home a
  logged : ∀ i a, (L.pending disk)[i]? = some a → disk (L.slot i) = D a
  rest : ∀ a, L.Home a → a ∉ L.pending disk → disk a = D a

/-- The first `n` pending blocks are in place. -/
def Installed (disk D : α → β) (n : ℕ) : Prop :=
  ∀ i a, i < n → (L.pending disk)[i]? = some a → disk a = D a

end Layout

variable {L : Layout α β} {disk D : α → β} {a : α}

/-- With all pending blocks in place the disk shows the content. -/
lemma Layout.Recoverable.eq_of_installed (hr : L.Recoverable disk D) {n : ℕ} (hn : (L.pending disk).length ≤ n)
    (hi : L.Installed disk D n) (ha : L.Home a) : disk a = D a := by
  by_cases hmem : a ∈ L.pending disk
  · obtain ⟨i, hlt, hget⟩ := List.mem_iff_getElem.mp hmem
    exact hi i a (by omega) (List.getElem?_eq_some_iff.mpr ⟨hlt, hget⟩)
  · exact hr.rest a ha hmem

lemma Layout.Recoverable.eq_of_clear (hr : L.Recoverable disk D) (hclear : L.pending disk = [])
    (ha : L.Home a) : disk a = D a :=
  hr.rest a ha (by simp [hclear])

lemma Layout.recoverable_of_clear (hclear : L.pending disk = []) (heq : ∀ a, L.Home a → disk a = D a) :
    L.Recoverable disk D where
  fits := by simp [hclear]
  home := by simp [hclear]
  logged := by simp [hclear]
  rest a ha _ := heq a ha

section Writes

variable [DecidableEq α]

lemma Layout.pending_update_of_ne (v : β) (ha : a ≠ L.head) :
    L.pending (update disk a v) = L.pending disk := by
  unfold Layout.pending
  rw [update_of_ne (Ne.symm ha)]

lemma Layout.pending_update_head (v : β) : L.pending (update disk L.head v) = L.homes v := by
  unfold Layout.pending
  rw [update_self]

lemma Layout.Recoverable.write_slot (hr : L.Recoverable disk D) (hclear : L.pending disk = []) {i : ℕ}
    (hi : i < L.capacity) (v : β) : L.Recoverable (update disk (L.slot i) v) D := by
  have hp : L.pending (update disk (L.slot i) v) = [] := by
    rw [Layout.pending_update_of_ne v (L.slot_ne_head i hi), hclear]
  refine Layout.recoverable_of_clear hp ?_
  intro a ha
  rw [update_of_ne (ha.2 i hi)]
  exact hr.eq_of_clear hclear ha

/-- The write of the header changes the recoverable content at once. -/
lemma Layout.Recoverable.commit (hr : L.Recoverable disk D) (hclear : L.pending disk = []) {D' : α → β}
    {v : β} (hfits : (L.homes v).length ≤ L.capacity) (hhome : ∀ a ∈ L.homes v, L.Home a)
    (hlogged : ∀ i a, (L.homes v)[i]? = some a → disk (L.slot i) = D' a)
    (hrest : ∀ a, L.Home a → a ∉ L.homes v → D' a = D a) :
    L.Recoverable (update disk L.head v) D' := by
  constructor
  · rwa [Layout.pending_update_head]
  · rwa [Layout.pending_update_head]
  · intro i a hget
    rw [Layout.pending_update_head] at hget
    have hlt : i < L.capacity := by
      have := (List.getElem?_eq_some_iff.mp hget).1
      omega
    rw [update_of_ne (L.slot_ne_head i hlt)]
    exact hlogged i a hget
  · intro a ha hmem
    rw [Layout.pending_update_head] at hmem
    rw [update_of_ne ha.1, hrest a ha hmem]
    exact hr.eq_of_clear hclear ha

/-- Putting a block in place changes nothing for recovery. -/
lemma Layout.Recoverable.install (hr : L.Recoverable disk D) {i : ℕ}
    (hget : (L.pending disk)[i]? = some a) :
    L.Recoverable (update disk a (disk (L.slot i))) D := by
  have ha : L.Home a := hr.home a (List.mem_of_getElem? hget)
  have hp : L.pending (update disk a (disk (L.slot i))) = L.pending disk :=
    Layout.pending_update_of_ne _ ha.1
  constructor
  · rw [hp]
    exact hr.fits
  · rw [hp]
    exact hr.home
  · intro j b hb
    rw [hp] at hb
    have hlt : j < L.capacity := by
      have := (List.getElem?_eq_some_iff.mp hb).1
      have := hr.fits
      omega
    rw [update_of_ne (Ne.symm (ha.2 j hlt))]
    exact hr.logged j b hb
  · intro b hb hmem
    rw [hp] at hmem
    have hne : b ≠ a := by
      rintro rfl
      exact hmem (List.mem_of_getElem? hget)
    rw [update_of_ne hne]
    exact hr.rest b hb hmem

lemma Layout.Recoverable.installed_succ (hr : L.Recoverable disk D) {i : ℕ}
    (hget : (L.pending disk)[i]? = some a) (hi : L.Installed disk D i) :
    L.Installed (update disk a (disk (L.slot i))) D (i + 1) := by
  have ha : L.Home a := hr.home a (List.mem_of_getElem? hget)
  intro j b hj hb
  rw [Layout.pending_update_of_ne _ ha.1] at hb
  by_cases hba : b = a
  · subst hba
    rw [update_self]
    exact hr.logged i b hget
  · rw [update_of_ne hba]
    refine hi j b ?_ hb
    have hne : j ≠ i := by
      rintro rfl
      exact hba (Option.some.inj (hb.symm.trans hget))
    omega

lemma Layout.recoverable_clear (heq : ∀ a, L.Home a → disk a = D a) {v : β} (hv : L.homes v = []) :
    L.Recoverable (update disk L.head v) D := by
  refine Layout.recoverable_of_clear ?_ ?_
  · rw [Layout.pending_update_head, hv]
  · intro a ha
    rw [update_of_ne ha.1]
    exact heq a ha

/-! ### Transactions -/

def apply (D : α → β) (ws : List (α × β)) : α → β :=
  ws.foldl (fun D w => update D w.1 w.2) D

def replay (D : α → β) (txs : List (List (α × β))) : α → β :=
  txs.foldl apply D

lemma apply_append_singleton (D : α → β) (ws : List (α × β)) (w : α × β) :
    apply D (ws ++ [w]) = update (apply D ws) w.1 w.2 := by
  simp [apply]

lemma replay_append_singleton (D : α → β) (txs : List (List (α × β))) (ws : List (α × β)) :
    replay D (txs ++ [ws]) = apply (replay D txs) ws := by
  simp [replay]

lemma apply_of_notMem (D : α → β) {ws : List (α × β)} (ha : a ∉ ws.map Prod.fst) :
    apply D ws a = D a := by
  induction ws generalizing D with
  | nil => rfl
  | cons w ws ih =>
    simp only [List.map_cons, List.mem_cons, not_or] at ha
    have hcons : apply D (w :: ws) = apply (update D w.1 w.2) ws := rfl
    rw [hcons, ih _ ha.2, update_of_ne ha.1]

end Writes

end RedoLog
