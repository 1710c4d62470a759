import Mathlib.Init

/-!
# Computations that may fail

`Spec x post exn` says what a computation in `Except` may end with: a value that satisfies
`post` or an exception that satisfies `exn`. With `exn` false everywhere it says that the
computation returns.
-/

namespace Outcome

universe u v

variable {ε : Type u} {α β : Type v} {x : Except ε α} {f : α → Except ε β} {post post' : α → Prop} {exn exn' : ε → Prop}

/-- A result satisfies `post`, an error `exn`. -/
def Spec (x : Except ε α) (post : α → Prop) (exn : ε → Prop) : Prop :=
  match x with
  | .ok a => post a
  | .error e => exn e

@[simp]
lemma spec_ok {a : α} : Spec (.ok a : Except ε α) post exn ↔ post a := Iff.rfl

@[simp]
lemma spec_pure {a : α} : Spec (pure a : Except ε α) post exn ↔ post a := Iff.rfl

@[simp]
lemma spec_error {e : ε} : Spec (.error e : Except ε α) post exn ↔ exn e := Iff.rfl

lemma Spec.intro (hpost : ∀ a, x = .ok a → post a) (hexn : ∀ e, x = .error e → exn e) : Spec x post exn := by
  cases x with
  | ok a => exact hpost a rfl
  | error e => exact hexn e rfl

lemma Spec.mono (h : Spec x post exn) (hpost : ∀ a, post a → post' a) (hexn : ∀ e, exn e → exn' e) :
    Spec x post' exn' := by
  cases x with
  | ok a => exact hpost a h
  | error e => exact hexn e h

lemma Spec.imp (h : Spec x post exn) (hpost : ∀ a, post a → post' a) : Spec x post' exn :=
  h.mono hpost (fun _ he => he)

lemma Spec.and (h : Spec x post exn) (h' : Spec x post' exn') : Spec x (fun a => post a ∧ post' a) exn := by
  cases x with
  | ok a => exact ⟨h, h'⟩
  | error e => exact h

lemma Spec.bind {post'' : β → Prop} (h : Spec x post exn) (hf : ∀ a, post a → Spec (f a) post'' exn) :
    Spec (x >>= f) post'' exn := by
  cases x with
  | ok a => exact hf a h
  | error e => exact h

/-- The invariant rule for a loop over a list: `inv` speaks of the part that is done. -/
lemma Spec.foldlM {γ : Type*} {g : α → γ → Except ε α} {l : List γ} {a : α} (inv : List γ → α → Prop)
    (hstep : ∀ done c rest a, l = done ++ c :: rest → inv done a → Spec (g a c) (inv (done ++ [c])) exn)
    (hinit : inv [] a) : Spec (l.foldlM g a) (inv l) exn := by
  suffices hrest : ∀ rest done a, l = done ++ rest → inv done a → Spec (rest.foldlM g a) (inv l) exn from
    hrest l [] a rfl hinit
  intro rest
  induction rest with
  | nil =>
    intro done a hl h
    simpa [hl] using h
  | cons c rest ih =>
    intro done a hl h
    rw [List.foldlM_cons]
    refine (hstep done c rest a hl h).bind fun a' ha' => ?_
    exact ih (done ++ [c]) a' (by simpa using hl) ha'

lemma spec_map {f : α → β} {post : β → Prop} :
    Spec (x.map f) post exn ↔ Spec x (fun a => post (f a)) exn := by
  cases x <;> rfl

lemma Spec.exists_ok (h : Spec x post (fun _ => False)) : ∃ a, x = .ok a ∧ post a := by
  cases x with
  | ok a => exact ⟨a, rfl, h⟩
  | error e => exact h.elim

lemma Spec.of_ok {a : α} (h : Spec x post exn) (hx : x = .ok a) : post a := by
  subst hx
  exact h

lemma Spec.of_error {e : ε} (h : Spec x post exn) (hx : x = .error e) : exn e := by
  subst hx
  exact h

end Outcome
