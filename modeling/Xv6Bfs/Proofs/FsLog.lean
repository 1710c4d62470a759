import Xv6Bfs.Proofs.LogCrash
import Xv6Bfs.Fs

/-!
# The blocks under the file system

The file system works on blocks that change by `log_write` only. The log and the buffer
cache refine this: between the commits a read of a block outside the log shows what has
been written to it, and a commit, a read or a recycled buffer does not change what is shown.
-/

namespace Xv6Bfs

open Transition RedoLog

/-- The blocks with the committed transactions and the writes of the open one. -/
def LogStore.view (st : LogStore) : Content :=
  apply st.stable st.current

lemma LogStore.CommitStep.view {sb : Superblock} {st st' : LogStore} {c c' : CommitPc}
    (h : LogStore.CommitStep sb st c st' c') : st'.view = st.view := by
  cases h with
  | head _ =>
    unfold LogStore.view LogStore.stable
    rw [replay_append_singleton]
    rfl
  | log _ _ => rfl
  | logged _ => rfl
  | install _ _ => rfl
  | installed _ => rfl
  | clear _ => rfl

namespace LogSystem

variable {Proc : Type} [DecidableEq Proc] {sb : Superblock} {s s' : LogSystem Proc} {b : Blockno}

def effect (s : LogSystem Proc) : LogEvent Proc → Content
  | .logWriteLocked p f =>
    match s.pc p with
    | .logging b => Content.logWrite s.view b f
    | _ => s.view
  | .crash => s.stable
  | _ => s.view

theorem content_eq_view (hs : Reach (logSystem sb Proc) (Fits sb) s) (hup : s.boot = .up)
    (hc : s.committing = false) (hb : sb.Home b) : s.io.content b = s.view b :=
  ((safe_of_reach hs).opened hup hc).content b (Superblock.home_iff.mpr hb)

/-- Every step of the log has its effect on the view. -/
theorem view_step {e : LogEvent Proc} (hs : Reach (logSystem sb Proc) (Fits sb) s) (hfits : Fits sb s e)
    (hstep : e.step sb s = some s') : s'.view = s.effect e := by
  have hg := group_of_reach hs
  cases e with
  | beginOp p =>
    obtain ⟨-, -, ⟨-, rfl⟩ | ⟨-, -, rfl⟩⟩ := beginOp_eq_some hstep <;> rfl
  | kill p =>
    obtain ⟨-, rfl⟩ := kill_eq_some hstep
    rfl
  | logWrite p b =>
    obtain ⟨-, pc, rfl, -⟩ := logWrite_eq_some hstep
    rfl
  | logWriteLocked p f =>
    obtain ⟨b, st, hpc, hst, rfl⟩ := logWriteLocked_eq_some hstep
    have hup : s.boot = .up := hg.up (p := p) (by simp [hpc])
    have hc : s.committing = false := hg.not_committing (p := p) (by simp [hpc, LogPc.InOp])
    simp only [Fits, hpc] at hfits
    have hview := content_eq_view hs hup hc hfits.1
    have hcurrent : st.base = s.base ∧ st.committed = s.committed ∧
        st.current = s.current ++ [(b, f (s.io.content b))] := by
      obtain ⟨io', -, ⟨-, rfl⟩ | ⟨-, -, rfl⟩⟩ := LogStore.logWrite_eq_some hg.coherent hst <;>
        exact ⟨rfl, rfl, rfl⟩
    simp only [effect, hpc, Content.logWrite, ← hview]
    unfold LogStore.view LogStore.stable
    simp only [hcurrent, apply_append_singleton]
  | endOp p =>
    obtain ⟨-, ⟨-, rfl⟩ | ⟨-, -, rfl⟩ | ⟨-, -, rfl⟩⟩ := endOp_eq_some hstep <;> rfl
  | commit p =>
    obtain ⟨hpc, rfl⟩ | ⟨c, st, c', hpc, hst, rfl⟩ := commit_eq_some hstep
    · rfl
    · exact (LogStore.commit_eq_some hg.coherent hst).view
  | bread b | evict b =>
    obtain ⟨io', -, hs⟩ := Option.bind_eq_some_iff.mp hstep
    cases hs
    rfl
  | crash =>
    cases hstep
    rfl
  | recover =>
    obtain ⟨st, c, hrec, -, rfl⟩ := recover_eq_some hg.coherent hstep
    generalize s.boot = boot at hrec
    cases hrec <;> rfl

/-! ### An atomic store -/

/-- A store of blocks whose writes become durable all at once. -/
structure Store where
  shown : Content
  durable : Content

inductive StoreEvent
  | write (b : Blockno) (f : Block → Block)
  | commit
  | crash

def Store.step (st : Store) : StoreEvent → Store
  | .write b f => { st with shown := st.shown.logWrite b f }
  | .commit => { st with durable := st.shown }
  | .crash => { st with shown := st.durable }

def store (s : LogSystem Proc) : Store :=
  ⟨s.view, s.stable⟩

/-- What an event of the log is for the store. -/
def storeEvents (s : LogSystem Proc) : LogEvent Proc → List StoreEvent
  | .logWriteLocked p f =>
    match s.pc p with
    | .logging b => [.write b f]
    | _ => []
  | .commit p => if s.pc p = .commit .writeHead then [.commit] else []
  | .crash => [.crash]
  | _ => []

def storeTrace (sb : Superblock) : List (LogEvent Proc) → LogSystem Proc → List StoreEvent
  | [], _ => []
  | e :: es, s => s.storeEvents e ++ ((e.step sb s).map (storeTrace sb es)).getD []

lemma store_step {e : LogEvent Proc} (hs : Reach (logSystem sb Proc) (Fits sb) s) (hfits : Fits sb s e)
    (hstep : e.step sb s = some s') : s'.store = (s.storeEvents e).foldl Store.step s.store := by
  have hview := view_step hs hfits hstep
  obtain ⟨hbase, hcommitted, -⟩ := step_recorded (group_of_reach hs) hstep
  have hsame : ¬ s.WritesHead e → s'.stable = s.stable := by
    intro hhead
    rw [LogStore.stable, hbase, hcommitted, if_neg hhead]
    rfl
  cases e with
  | logWriteLocked p f =>
    obtain ⟨b, st, hpc, -, -⟩ := logWriteLocked_eq_some hstep
    rw [store, hview, hsame id]
    simp [effect, storeEvents, hpc, store, Store.step]
  | commit p =>
    by_cases hhead : s.pc p = .commit .writeHead
    · have hstable : s'.stable = s.view := by
        rw [LogStore.stable, hbase, hcommitted, if_pos (show s.WritesHead (.commit p) from hhead), replay_append_singleton]
        rfl
      rw [store, hview, hstable, storeEvents, if_pos hhead]
      rfl
    · rw [store, hview, hsame hhead, storeEvents, if_neg hhead]
      rfl
  | _ =>
    rw [store, hview, hsame id]
    rfl

/-- The log and the buffer cache refine a store in which the writes of a transaction become durable
at once: a run of the log is a run of the store, whose contents are what `bread` shows between
commits and what a recovery restores after a crash at any moment. -/
theorem log_refines_store {es : List (LogEvent Proc)} (hs : Reach (logSystem sb Proc) (Fits sb) s)
    (hrun : run ((logSystem sb Proc).restrict (Fits sb)) es s = some s') :
    s'.store = (storeTrace sb es s).foldl Store.step s.store ∧
      (s'.boot = .up → s'.committing = false → ∀ b, sb.Home b → s'.io.content b = s'.store.shown b) ∧
      ∃ io, recoverFromLog sb s'.io.crash = some io ∧ ∀ b, sb.Home b → io.disk b = s'.store.durable b := by
  induction es generalizing s with
  | nil =>
    obtain rfl : s = s' := by simpa using hrun
    obtain ⟨io, hrec, hdisk⟩ := (safe_of_reach hs).durable.crash.recoverFromLog
    exact ⟨rfl, fun hup hc b hb => content_eq_view hs hup hc hb, io, hrec, fun b hb => hdisk b (Superblock.home_iff.mpr hb)⟩
  | cons e es ih =>
    rw [run_cons, Option.bind_eq_some_iff] at hrun
    obtain ⟨t, ht, hrest⟩ := hrun
    obtain ⟨hfits, hstep⟩ := Option.ite_none_right_eq_some.mp ht
    obtain ⟨hstore, hends⟩ := ih (hs.step hfits hstep) hrest
    refine ⟨?_, hends⟩
    rw [hstore, store_step hs hfits hstep, storeTrace, List.foldl_append]
    have hsome : e.step sb s = some t := hstep
    rw [hsome]
    rfl

/-- A transaction is committed, and then the machine crashes. -/
def committedCrash : List (LogEvent Unit) :=
  [.recover, .recover, .recover, .beginOp (), .logWrite () 100, .logWriteLocked () (fun _ _ => 1), .endOp (), .commit (), .commit (),
    .commit (), .crash]

lemma exists_committedCrash :
    ∃ s, run ((logSystem mkfsSuperblock Unit).restrict (Fits mkfsSuperblock)) committedCrash (start fun _ _ => 0) = some s := by
  rw [← Option.isSome_iff_exists]
  decide +kernel

theorem log_refines_store_crashed :
    ∃ s, run ((logSystem mkfsSuperblock Unit).restrict (Fits mkfsSuperblock)) committedCrash (start fun _ _ => 0) = some s ∧
      s.store = [.write 100 (fun _ _ => 1), .commit, .crash].foldl Store.step ⟨fun _ _ => 0, fun _ _ => 0⟩ := by
  obtain ⟨s, hs⟩ := exists_committedCrash
  exact ⟨s, hs, (log_refines_store (.init ⟨fun _ _ => 0, rfl, rfl⟩) hs).1⟩

/-! ### Whole operations -/

/-- Either nothing has been committed in the run, or the last commit was of what was open at `s₁`. -/
lemma exists_last_commit {es : List (LogEvent Proc)} (hs : Reach (logSystem sb Proc) (Fits sb) s)
    (hrun : run ((logSystem sb Proc).restrict (Fits sb)) es s = some s') :
    Reach (logSystem sb Proc) (Fits sb) s' ∧ s'.base = s.base ∧ (s'.committed = s.committed ∨
      ∃ es₁ s₁, es₁ <+: es ∧ run ((logSystem sb Proc).restrict (Fits sb)) es₁ s = some s₁ ∧ (∀ p, ¬ (s₁.pc p).InOp) ∧
        s₁.base = s.base ∧ s'.committed = s₁.committed ++ [s₁.current]) := by
  induction es generalizing s with
  | nil =>
    obtain rfl : s = s' := by simpa using hrun
    exact ⟨hs, rfl, .inl rfl⟩
  | cons e es ih =>
    rw [run_cons, Option.bind_eq_some_iff] at hrun
    obtain ⟨t, ht, hrest⟩ := hrun
    obtain ⟨hfits, hstep⟩ := restrict_step_eq_some.mp ht
    obtain ⟨hbase, hcommitted, -⟩ := step_recorded (group_of_reach hs) hstep
    obtain ⟨hreach, hbase', hlast⟩ := ih (hs.step hfits hstep) hrest
    refine ⟨hreach, hbase'.trans hbase, ?_⟩
    rcases hlast with hsame | ⟨es₁, s₁, hprefix, hrun₁, hquiet, hbase₁, hlast⟩
    · by_cases hhead : s.WritesHead e
      · rw [if_pos hhead] at hcommitted
        refine .inr ⟨[], s, List.nil_prefix, rfl, fun p hp => ?_, rfl, hsame.trans hcommitted⟩
        -- the commit has kept all operations out since the last of them ended
        cases e with
        | commit q =>
          have hcommitting := (group_of_reach hs).committing q _ hhead
          cases hcommitting.symm.trans ((group_of_reach hs).not_committing hp)
        | _ => exact hhead
      · rw [if_neg hhead] at hcommitted
        exact .inl (hsame.trans hcommitted)
    · refine .inr ⟨e :: es₁, s₁, (List.cons_prefix_cons).mpr ⟨rfl, hprefix⟩, ?_, hquiet, hbase₁.trans hbase, hlast⟩
      rw [run_cons, ht]
      exact hrun₁

/-- A crash at any moment leaves whole operations: after the recovery the blocks are what they were at a moment of the run when
nobody was between `begin_op` and `end_op`, and no more than the commit of that moment has come since. -/
theorem crash_between_operations {s₀ : LogSystem Proc} {es : List (LogEvent Proc)} (hinit : (logSystem sb Proc).init s₀)
    (hrun : run ((logSystem sb Proc).restrict (Fits sb)) es s₀ = some s) :
    ∃ es₁ s₁ io, es₁ <+: es ∧ run ((logSystem sb Proc).restrict (Fits sb)) es₁ s₀ = some s₁ ∧ (∀ p, ¬ (s₁.pc p).InOp) ∧
      s.committed.length ≤ s₁.committed.length + 1 ∧
      recoverFromLog sb s.io.crash = some io ∧ ∀ b, sb.Home b → io.disk b = s₁.view b := by
  obtain ⟨hreach, hbase, hlast⟩ := exists_last_commit (.init hinit) hrun
  obtain ⟨io, hrec, hdisk⟩ := (safe_of_reach hreach).durable.crash.recoverFromLog
  have hhome : ∀ b, sb.Home b → io.disk b = s.stable b := fun b hb => hdisk b (Superblock.home_iff.mpr hb)
  rcases hlast with hsame | ⟨es₁, s₁, hprefix, hrun₁, hquiet, hbase₁, hlast⟩
  · obtain ⟨disk, -, rfl⟩ := hinit
    refine ⟨[], _, io, List.nil_prefix, rfl, by simp [start, LogPc.InOp], by simp [hsame], hrec, fun b hb => ?_⟩
    rw [hhome b hb, LogStore.stable, hbase, hsame]
    rfl
  · refine ⟨es₁, s₁, io, hprefix, hrun₁, hquiet, by simp [hlast], hrec, fun b hb => ?_⟩
    rw [hhome b hb, LogStore.stable, hbase, hlast, replay_append_singleton, ← hbase₁]
    rfl

theorem crash_between_operations_crashed :
    ∃ s, ∃ s₁ : LogSystem Unit, ∃ io,
      run ((logSystem mkfsSuperblock Unit).restrict (Fits mkfsSuperblock)) committedCrash (start fun _ _ => 0) = some s ∧
      (∀ p, ¬ (s₁.pc p).InOp) ∧ recoverFromLog mkfsSuperblock s.io.crash = some io ∧ io.disk 100 = s₁.view 100 := by
  obtain ⟨s, hs⟩ := exists_committedCrash
  obtain ⟨-, s₁, io, -, -, hquiet, -, hrec, hdisk⟩ := crash_between_operations ⟨fun _ _ => 0, rfl, rfl⟩ hs
  exact ⟨s, s₁, io, hs, hquiet, hrec, hdisk 100 (by decide)⟩

end LogSystem

end Xv6Bfs
