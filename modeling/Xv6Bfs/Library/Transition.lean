import Mathlib.Logic.Basic

/-!
# Transition systems

A system takes its steps by a partial function of an event and the state. The runs of
interest are often those whose steps all meet a condition, so reachability carries one.
-/

namespace Transition

variable {σ ε : Type*}

structure System (σ ε : Type*) where
  init : σ → Prop
  step : ε → σ → Option σ

/-- The states at the ends of the runs all of whose steps are allowed. -/
inductive Reach (m : System σ ε) (ok : σ → ε → Prop) : σ → Prop
  | init {s : σ} : m.init s → Reach m ok s
  | step {s s' : σ} {e : ε} : Reach m ok s → ok s e → m.step e s = some s' → Reach m ok s'

abbrev Reachable (m : System σ ε) : σ → Prop :=
  Reach m (fun _ _ => True)

def run (m : System σ ε) (es : List ε) (s : σ) : Option σ :=
  es.foldlM (fun s e => m.step e s) s

variable {m : System σ ε} {ok : σ → ε → Prop} {s s' : σ}

@[simp] lemma run_nil : run m [] s = some s := rfl

@[simp] lemma run_cons (e : ε) (es : List ε) : run m (e :: es) s = (m.step e s).bind (run m es) := by
  unfold run
  rw [List.foldlM_cons]
  rfl

/-- What holds at the start and is kept by every allowed step holds in every run. -/
theorem Reach.invariant (I : σ → Prop) (hinit : ∀ s, m.init s → I s)
    (hstep : ∀ s e s', I s → ok s e → m.step e s = some s' → I s') (hs : Reach m ok s) : I s := by
  induction hs with
  | init h => exact hinit _ h
  | step _ hok hstep' ih => exact hstep _ _ _ ih hok hstep'

lemma run_invariant (I : σ → Prop) (hstep : ∀ s e s', I s → m.step e s = some s' → I s')
    {es : List ε} (hs : I s) (hrun : run m es s = some s') : I s' := by
  induction es generalizing s with
  | nil =>
    obtain rfl : s = s' := by simpa using hrun
    exact hs
  | cons e es ih =>
    rw [run_cons, Option.bind_eq_some_iff] at hrun
    obtain ⟨t, ht, hrest⟩ := hrun
    exact ih (hstep s e t hs ht) hrest

lemma Reachable.run {es : List ε} (hs : Reachable m s) (hrun : run m es s = some s') : Reachable m s' := by
  refine run_invariant (Reachable m) ?_ hs hrun
  intro s e s' hs hstep
  exact Reach.step hs trivial hstep

def System.restrict (m : System σ ε) (ok : σ → ε → Prop) [∀ s e, Decidable (ok s e)] : System σ ε where
  init := m.init
  step e s := if ok s e then m.step e s else none

lemma restrict_step_eq_some [∀ s e, Decidable (ok s e)] {e : ε} :
    (m.restrict ok).step e s = some s' ↔ ok s e ∧ m.step e s = some s' :=
  Option.ite_none_right_eq_some

lemma reach_of_restrict [∀ s e, Decidable (ok s e)] (hs : Reachable (m.restrict ok) s) : Reach m ok s := by
  induction hs with
  | init h => exact Reach.init h
  | step _ _ hstep ih =>
    obtain ⟨hok, hstep⟩ := Option.ite_none_right_eq_some.mp hstep
    exact Reach.step ih hok hstep

/-- The rule for a loop over a list: `I` relates the elements done to the state. -/
lemma foldlM_invariant {f : σ → ε → Option σ} (I : List ε → σ → Prop)
    (hstep : ∀ done e s s', I done s → f s e = some s' → I (done ++ [e]) s') {es : List ε}
    (hs : I [] s) (hfold : es.foldlM f s = some s') : I es s' := by
  have hgo : ∀ es done s, I done s → es.foldlM f s = some s' → I (done ++ es) s' := by
    intro es
    induction es with
    | nil =>
      intro done s hs hfold
      obtain rfl : s = s' := by simpa using hfold
      simpa using hs
    | cons e es ih =>
      intro done s hs hfold
      rw [List.foldlM_cons, Option.bind_eq_bind, Option.bind_eq_some_iff] at hfold
      obtain ⟨t, ht, hrest⟩ := hfold
      have := ih (done ++ [e]) t (hstep done e s t hs ht) hrest
      simpa using this
  exact hgo es [] s hs hfold

end Transition
