import Mathlib.Init

/-!
# Programs with a state that may stop

`Wp x s post exn` says how a program in `EStateM` ends from a state: with a value and a state
that satisfy `post`, or with an exception and a state that satisfy `exn`.
-/

namespace Program

variable {ε σ τ α β : Type} {x : EStateM ε σ α} {f : α → EStateM ε σ β} {s : σ}
  {post post' : α → σ → Prop} {exn exn' : ε → σ → Prop}

/-- Run from `s`, the program returns with `post` or fails with `exn`. -/
def Wp (x : EStateM ε σ α) (s : σ) (post : α → σ → Prop) (exn : ε → σ → Prop) : Prop :=
  match x s with
  | .ok a s' => post a s'
  | .error e s' => exn e s'

@[simp]
lemma wp_pure {a : α} : Wp (pure a) s post exn ↔ post a s := Iff.rfl

@[simp]
lemma wp_throw {e : ε} : Wp (throw e) s post exn ↔ exn e s := Iff.rfl

@[simp]
lemma wp_get {post : σ → σ → Prop} : Wp get s post exn ↔ post s s := Iff.rfl

@[simp]
lemma wp_modify {g : σ → σ} {post : PUnit → σ → Prop} : Wp (modify g) s post exn ↔ post ⟨⟩ (g s) := Iff.rfl

@[simp]
lemma wp_bind {post : β → σ → Prop} :
    Wp (x >>= f) s post exn ↔ Wp x s (fun a s' => Wp (f a) s' post exn) exn := by
  unfold Wp
  change (match EStateM.bind x f s with | .ok a s' => post a s' | .error e s' => exn e s') ↔ _
  unfold EStateM.bind
  cases x s <;> rfl

lemma bind_of_ok {a : α} {s' : σ} (hx : x s = .ok a s') : (x >>= f) s = f a s' := by
  change EStateM.bind x f s = f a s'
  unfold EStateM.bind
  rw [hx]

lemma bind_of_error {e : ε} {s' : σ} (hx : x s = .error e s') : (x >>= f) s = .error e s' := by
  change EStateM.bind x f s = _
  unfold EStateM.bind
  rw [hx]

lemma Wp.mono (h : Wp x s post exn) (hpost : ∀ a s', post a s' → post' a s')
    (hexn : ∀ e s', exn e s' → exn' e s') : Wp x s post' exn' := by
  unfold Wp at *
  cases hx : x s with
  | ok a s' =>
    rw [hx] at h
    exact hpost a s' h
  | error e s' =>
    rw [hx] at h
    exact hexn e s' h

lemma Wp.imp (h : Wp x s post exn) (hpost : ∀ a s', post a s' → post' a s') : Wp x s post' exn :=
  h.mono hpost (fun _ _ he => he)

lemma Wp.bind {post' : β → σ → Prop} (h : Wp x s post exn)
    (hf : ∀ a s', post a s' → Wp (f a) s' post' exn') (hexn : ∀ e s', exn e s' → exn' e s') :
    Wp (x >>= f) s post' exn' :=
  wp_bind.mpr (h.mono hf hexn)

abbrev Returns (x : EStateM ε σ α) (s : σ) (post : α → σ → Prop) : Prop :=
  Wp x s post (fun _ _ => True)

lemma Wp.returns (h : Wp x s post exn) : Returns x s post :=
  h.mono (fun _ _ h => h) (fun _ _ _ => trivial)

lemma Wp.exists_ok (h : Wp x s post (fun _ _ => False)) : ∃ a s', x s = .ok a s' ∧ post a s' := by
  unfold Wp at h
  cases hx : x s with
  | ok a s' =>
    rw [hx] at h
    exact ⟨a, s', rfl, h⟩
  | error e s' =>
    rw [hx] at h
    exact h.elim

lemma Returns.bind {post' : β → σ → Prop} (h : Returns x s post)
    (hf : ∀ a s', post a s' → Returns (f a) s' post') : Returns (x >>= f) s post' :=
  Wp.bind h hf (fun _ _ h => h)

lemma Wp.and (h : Wp x s post exn) (h' : Wp x s post' exn') :
    Wp x s (fun a s' => post a s' ∧ post' a s') (fun e s' => exn e s' ∧ exn' e s') := by
  unfold Wp at *
  cases hx : x s with
  | ok a s' =>
    rw [hx] at h h'
    exact ⟨h, h'⟩
  | error e s' =>
    rw [hx] at h h'
    exact ⟨h, h'⟩

lemma Wp.and_returns (h : Wp x s post exn) (h' : Returns x s post') :
    Wp x s (fun a s' => post a s' ∧ post' a s') exn :=
  (h.and h').mono (fun _ _ h => h) (fun _ _ h => h.1)

lemma Returns.and (h : Returns x s post) (h' : Returns x s post') :
    Returns x s (fun a s' => post a s' ∧ post' a s') :=
  Wp.and_returns h h'

/-- The invariant rule for a loop over a list: `inv` speaks of the part that is done. -/
lemma Wp.forM {γ : Type} {l : List γ} {g : γ → EStateM ε σ PUnit} (inv : List γ → σ → Prop)
    (hstep : ∀ done c rest s, l = done ++ c :: rest → inv done s →
      Wp (g c) s (fun _ => inv (done ++ [c])) exn) (h : inv [] s) :
    Wp (l.forM g) s (fun _ => inv l) exn := by
  suffices hrest : ∀ rest done s, l = done ++ rest → inv done s → Wp (rest.forM g) s (fun _ => inv l) exn from
    hrest l [] s rfl h
  intro rest
  induction rest with
  | nil =>
    intro done s hl h
    rw [List.append_nil] at hl
    subst hl
    exact h
  | cons c rest ih =>
    intro done s hl h
    change Wp (g c >>= fun _ => rest.forM g) s _ _
    refine Wp.bind (hstep done c rest s hl h) ?_ (fun _ _ h => h)
    intro _ s' h'
    exact ih (done ++ [c]) s' (by rw [hl, List.append_assoc]; rfl) h'

lemma Returns.forM {γ : Type} {l : List γ} {g : γ → EStateM ε σ PUnit} (inv : Nat → σ → Prop)
    (hstep : ∀ c ∈ l, ∀ k s, inv k s → Returns (g c) s (fun _ => inv (k + 1))) {k : Nat} (h : inv k s) :
    Returns (l.forM g) s (fun _ => inv (k + l.length)) := by
  refine Wp.forM (fun done => inv (k + done.length)) ?_ h
  intro done c rest s hl hinv
  rw [List.length_append, ← Nat.add_assoc]
  exact hstep c (by rw [hl]; exact List.mem_append_right _ List.mem_cons_self) _ s hinv

lemma Returns.of_ok {a : α} {s' : σ} (h : Wp x s post exn) (hx : x s = .ok a s') : post a s' := by
  rw [Wp, hx] at h
  exact h

lemma Wp.of_error {e : ε} {s' : σ} (h : Wp x s post exn) (hx : x s = .error e s') : exn e s' := by
  rw [Wp, hx] at h
  exact h

def zoom (get : σ → τ) (set : τ → σ → σ) (x : EStateM ε τ α) : EStateM ε σ α := fun s =>
  match x (get s) with
  | .ok a t => .ok a (set t s)
  | .error e t => .error e (set t s)

lemma wp_zoom {get : σ → τ} {set : τ → σ → σ} {x : EStateM ε τ α} :
    Wp (zoom get set x) s post exn ↔
      Wp x (get s) (fun a t => post a (set t s)) (fun e t => exn e (set t s)) := by
  unfold Wp zoom
  cases x (get s) <;> rfl

end Program
