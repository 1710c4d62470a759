import Mathlib.Data.Fintype.Prod
import Xv6Bfs.Library.Count
import Xv6Bfs.Proofs.Holding
import Xv6Bfs.Sysfile

/-!
# What the tables refer to

Every reference to a file, an inode or an end of a pipe is one that a descriptor, a file or a process has, or a local
variable of the call that runs. The operations on files and descriptors keep the counts exact.
-/

namespace Xv6Bfs

open Count Function Multiset Outcome Program

def File.inode? (x : File) : Option (Fin NINODE) :=
  if 0 < x.ref ∧ x.type = .inode then some x.ip else none

def File.pipeEnd? (x : File) : Option (PipeId × Bool) :=
  if 0 < x.ref ∧ x.type = .pipe then some (x.pipe, x.writable) else none

def Pipe.isOpen (x : Pipe) (writable : Bool) : Bool :=
  if writable then x.writeopen else x.readopen

namespace Sys

def descriptors (s : Sys) (x : Slot × Fin NOFILE) : Option (Fin NFILE) :=
  s.ofile x.1 x.2

def base (s : Sys) (ip : Fin NINODE) : ℕ :=
  count (File.inode? ∘ s.ftable) (some ip) + count s.cwd (some ip)

end Sys

/-- An end of a pipe belongs to one file at most, and is open if it belongs to one. -/
structure PipesOk (ends : Fin NFILE → Option (PipeId × Bool)) (pipes : PipeId → Option Pipe) : Prop where
  unique : ∀ f g e, ends f = some e → ends g = some e → f = g
  isOpen : ∀ q w, (∃ f, ends f = some (q, w)) ↔ ∃ x, pipes q = some x ∧ x.isOpen w = true

/-- `files` are the references to files in the local variables of the call, and `busy` the slots
of processes that are being made. -/
structure Counted (p : Slot) (busy : Finset Slot) (files : Multiset (Fin NFILE))
    (held locked : Multiset (Fin NINODE)) (o : ℕ) (s : Sys) : Prop where
  ref : ∀ f, (s.ftable f).ref = count s.descriptors (some f) + files.count f
  unref : ∀ f, (s.ftable f).ref = 0 → (s.ftable f).type = .none
  vfs : Holding s.base p held locked o s.vfs
  pipes : PipesOk (File.pipeEnd? ∘ s.ftable) s.pipes
  oneEnd : ∀ f, (s.ftable f).type = .pipe → (s.ftable f).readable = !(s.ftable f).writable
  unused : ∀ q ∉ busy, s.cwd q = none → ∀ fd, s.ofile q fd = none

/-! ### Pipes -/

namespace PipesOk

variable {ends : Fin NFILE → Option (PipeId × Bool)} {pipes : PipeId → Option Pipe} {q : PipeId} {x x' : Pipe}
  {f : Fin NFILE}

lemma setData (h : PipesOk ends pipes) (hx : pipes q = some x) (hopen : x'.isOpen = x.isOpen) :
    PipesOk ends (update pipes q (some x')) := by
  refine ⟨h.unique, ?_⟩
  intro r w
  rw [h.isOpen]
  by_cases hr : r = q
  · subst hr
    simp [hx, hopen]
  · simp [hr]

lemma close {w : Bool} (h : PipesOk ends pipes) (hf : ends f = some (q, w)) (hx : pipes q = some x)
    (hself : x'.isOpen w = false) (hother : x'.isOpen (!w) = x.isOpen (!w)) :
    PipesOk (update ends f none)
      (update pipes q (if !x'.readopen ∧ !x'.writeopen then none else some x')) := by
  have hclosed : (!x'.readopen ∧ !x'.writeopen) ↔ x'.isOpen w = false ∧ x'.isOpen (!w) = false := by
    cases w <;> simp [Pipe.isOpen, and_comm]
  have hends : ∀ g e, update ends f none g = some e ↔ g ≠ f ∧ ends g = some e := by
    intro g e
    by_cases hg : g = f <;> simp [hg]
  refine ⟨?_, ?_⟩
  · intro g g' e hg hg'
    rw [hends] at hg hg'
    exact h.unique g g' e hg.2 hg'.2
  · intro r b
    have hopen := h.isOpen r b
    by_cases hr : r = q
    · subst hr
      rw [update_self]
      by_cases hb : b = w
      · subst hb
        constructor
        · rintro ⟨g, hg⟩
          rw [hends] at hg
          exact absurd (h.unique g f _ hg.2 hf) hg.1
        · rintro ⟨y, hy, hyopen⟩
          split at hy
          · cases hy
          · cases hy
            rw [hself] at hyopen
            cases hyopen
      · obtain rfl : b = !w := by
          cases b <;> cases w <;> simp at hb ⊢
        constructor
        · rintro ⟨g, hg⟩
          rw [hends] at hg
          obtain ⟨y, hy, hyopen⟩ := hopen.mp ⟨g, hg.2⟩
          rw [hx, Option.some.injEq] at hy
          subst hy
          rw [← hother] at hyopen
          rw [if_neg (by rw [hclosed, hyopen]; simp)]
          exact ⟨x', rfl, hyopen⟩
        · rintro ⟨y, hy, hyopen⟩
          split at hy
          · cases hy
          · cases hy
            obtain ⟨g, hg⟩ := hopen.mpr ⟨x, hx, by rw [← hother]; exact hyopen⟩
            refine ⟨g, (hends g _).mpr ⟨?_, hg⟩⟩
            rintro rfl
            rw [hf] at hg
            simp at hg
    · rw [update_of_ne hr, ← hopen]
      constructor
      · rintro ⟨g, hg⟩
        exact ⟨g, ((hends g _).mp hg).2⟩
      · rintro ⟨g, hg⟩
        refine ⟨g, (hends g _).mpr ⟨?_, hg⟩⟩
        rintro rfl
        rw [hf, Option.some.injEq, Prod.mk.injEq] at hg
        exact hr hg.1.symm

lemma alloc {g : Fin NFILE} (h : PipesOk ends pipes) (hq : pipes q = none) (hf : ends f = none)
    (hg : ends g = none) (hne : f ≠ g) (hopen : ∀ w, x.isOpen w = true) :
    PipesOk (update (update ends f (some (q, false))) g (some (q, true)))
      (update pipes q (some x)) := by
  have hfresh : ∀ i w, ends i ≠ some (q, w) := by
    intro i w hi
    obtain ⟨y, hy, -⟩ := (h.isOpen q w).mp ⟨i, hi⟩
    rw [hq] at hy
    cases hy
  have hends : ∀ i e, update (update ends f (some (q, false))) g (some (q, true)) i = some e ↔
      (i = f ∧ e = (q, false)) ∨ (i = g ∧ e = (q, true)) ∨ ends i = some e := by
    intro i e
    by_cases hig : i = g
    · subst hig
      simp [hg, hne.symm, eq_comm]
    · by_cases hif : i = f
      · subst hif
        simp [hig, hf, eq_comm]
      · simp [hig, hif]
  refine ⟨?_, ?_⟩
  · intro i j e hi hj
    rw [hends] at hi hj
    rcases hi with ⟨rfl, rfl⟩ | ⟨rfl, rfl⟩ | hi <;> rcases hj with ⟨rfl, he⟩ | ⟨rfl, he⟩ | hj
    · rfl
    · simp at he
    · exact absurd hj (hfresh _ _)
    · simp at he
    · rfl
    · exact absurd hj (hfresh _ _)
    · subst he
      exact absurd hi (hfresh _ _)
    · subst he
      exact absurd hi (hfresh _ _)
    · exact h.unique i j e hi hj
  · intro r w
    by_cases hr : r = q
    · subst hr
      rw [update_self]
      constructor
      · intro _
        exact ⟨x, rfl, hopen w⟩
      · intro _
        cases w with
        | false => exact ⟨f, (hends f _).mpr (.inl ⟨rfl, rfl⟩)⟩
        | true => exact ⟨g, (hends g _).mpr (.inr (.inl ⟨rfl, rfl⟩))⟩
    · rw [update_of_ne hr, ← h.isOpen]
      constructor
      · rintro ⟨i, hi⟩
        rcases (hends i _).mp hi with ⟨-, he⟩ | ⟨-, he⟩ | hi
        · simp [hr] at he
        · simp [hr] at he
        · exact ⟨i, hi⟩
      · rintro ⟨i, hi⟩
        exact ⟨i, (hends i _).mpr (.inr (.inr hi))⟩

end PipesOk

/-! ### Files -/

lemma wp_vfs {α : Type} {x : FsM α} {s : Sys} {post : α → Sys → Prop} {exn : Stop → Sys → Prop} :
    Wp (SysM.vfs x) s post exn ↔
      Wp x s.vfs (fun a v => post a { s with vfs := v }) (fun e v => exn e { s with vfs := v }) :=
  wp_zoom

@[simp]
lemma wp_file {f : Fin NFILE} {s : Sys} {post : File → Sys → Prop} {exn : Stop → Sys → Prop} :
    Wp (SysM.file f) s post exn ↔ post (s.ftable f) s := Iff.rfl

def Sys.SameProcs (s s' : Sys) : Prop :=
  s'.ofile = s.ofile ∧ s'.cwd = s.cwd

lemma Sys.SameProcs.trans {s s' s'' : Sys} (h : s.SameProcs s') (h' : s'.SameProcs s'') : s.SameProcs s'' :=
  ⟨h'.1.trans h.1, h'.2.trans h.2⟩

namespace Counted

variable {sb : FsSuperblock} {devsw : Devsw} {p : Slot} {busy : Finset Slot} {files : Multiset (Fin NFILE)}
  {held locked : Multiset (Fin NINODE)} {o : ℕ} {s : Sys} {f : Fin NFILE} {fd : Fin NOFILE} {ip : Fin NINODE}
  {files' : Multiset (Fin NFILE)}

lemma count_cons_add {α : Type*} [DecidableEq α] (a b : α) (m : Multiset α) :
    (a ::ₘ m).count b = m.count b + if some a = some b then 1 else 0 := by
  rw [count_cons]
  simp [eq_comm]

lemma setVfs (h : Counted p busy files held locked o s) {held' locked' : Multiset (Fin NINODE)} {o' : ℕ} {v : Vfs}
    (hv : Holding s.base p held' locked' o' v) : Counted p busy files held' locked' o' { s with vfs := v } :=
  ⟨h.ref, h.unref, hv, h.pipes, h.oneEnd, h.unused⟩

lemma runVfs {α : Type} {x : FsM α} {held' locked' : α → Multiset (Fin NINODE)} {o' : α → ℕ}
    (h : Counted p busy files held locked o s)
    (hx : Returns x s.vfs (fun a v => Holding s.base p (held' a) (locked' a) (o' a) v)) :
    Returns (SysM.vfs x) s (fun a s' => s.SameProcs s' ∧ s'.ftable = s.ftable ∧
      Counted p busy files (held' a) (locked' a) (o' a) s') := by
  rw [Returns, wp_vfs]
  exact hx.imp (fun a v hv => ⟨⟨rfl, rfl⟩, rfl, h.setVfs hv⟩)

lemma setFile {x : File} (h : Counted p busy files held locked o s)
    {held' : Multiset (Fin NINODE)} {pipes' : PipeId → Option Pipe}
    (href : x.ref + files.count f = (s.ftable f).ref + files'.count f)
    (hothers : ∀ g, g ≠ f → files'.count g = files.count g)
    (hunref : x.ref = 0 → x.type = .none)
    (hinode : ∀ ip, held'.count ip + (if x.inode? = some ip then 1 else 0) =
      held.count ip + (if (s.ftable f).inode? = some ip then 1 else 0))
    (hpipes : PipesOk (update (File.pipeEnd? ∘ s.ftable) f x.pipeEnd?) pipes')
    (hend : x.type = .pipe → x.readable = !x.writable) :
    Counted p busy files' held' locked o
      { s with ftable := update s.ftable f x, pipes := pipes' } := by
  refine ⟨?_, ?_, ?_, ?_, ?_, h.unused⟩
  · intro g
    have hg := h.ref g
    by_cases hgf : g = f
    · subst hgf
      simp only [update_self]
      change x.ref = count s.descriptors (some g) + _
      omega
    · simp only [update_of_ne hgf, hothers g hgf]
      exact hg
  · intro g
    by_cases hgf : g = f
    · subst hgf
      simpa using hunref
    · simpa [hgf] using h.unref g
  · refine h.vfs.rebase ?_
    intro ip
    have hcount := count_update (File.inode? ∘ s.ftable) f x.inode? (some ip)
    have hip := hinode ip
    rw [← comp_update] at hcount
    simp only [Sys.base]
    simp only [Function.comp_apply] at hcount
    omega
  · rw [comp_update]
    exact hpipes
  · intro g
    by_cases hgf : g = f
    · subst hgf
      simpa using hend
    · simpa [hgf] using h.oneEnd g

lemma update_pipeEnd {x : File} (hx : x.pipeEnd? = (s.ftable f).pipeEnd?) :
    update (File.pipeEnd? ∘ s.ftable) f x.pipeEnd? = File.pipeEnd? ∘ s.ftable := by
  rw [hx]
  exact update_eq_self f _

/-- A change of the count or of the offset of a file. -/
lemma setFile_quiet {x : File} (h : Counted p busy files held locked o s)
    (href : x.ref + files.count f = (s.ftable f).ref + files'.count f)
    (hothers : ∀ g, g ≠ f → files'.count g = files.count g)
    (hx : x = { s.ftable f with ref := x.ref, off := x.off }) (hpos : 0 < x.ref)
    (hold : 0 < (s.ftable f).ref ∨ (s.ftable f).type = .none) :
    Counted p busy files' held locked o { s with ftable := update s.ftable f x } := by
  have htype : x.type = (s.ftable f).type := by rw [hx]
  have hinode : x.inode? = (s.ftable f).inode? := by
    unfold File.inode?
    rw [htype]
    rcases hold with hold | hold
    · simp only [hpos, hold, true_and]
      rw [hx]
    · simp [hold]
  have hpipe : x.pipeEnd? = (s.ftable f).pipeEnd? := by
    unfold File.pipeEnd?
    rw [htype]
    rcases hold with hold | hold
    · simp only [hpos, hold, true_and]
      rw [hx]
    · simp [hold]
  refine h.setFile href hothers (fun hzero => absurd hzero hpos.ne') ?_ ?_ ?_
  · intro ip
    rw [hinode]
  · rw [update_pipeEnd hpipe]
    exact h.pipes
  · intro hpipe
    rw [hx]
    exact h.oneEnd f (htype ▸ hpipe)

lemma addRef (h : Counted p busy files held locked o s) (hold : 0 < (s.ftable f).ref ∨ (s.ftable f).type = .none) :
    Counted p busy (f ::ₘ files) held locked o
      { s with ftable := update s.ftable f { s.ftable f with ref := (s.ftable f).ref + 1 } } := by
  refine h.setFile_quiet ?_ (fun g hg => count_cons_of_ne hg files) rfl (Nat.succ_pos _) hold
  rw [count_cons_self]
  dsimp only
  omega

lemma filealloc (h : Counted p busy files held locked o s) :
    Returns SysM.filealloc s (fun r s' => s.SameProcs s' ∧ match r with
      | none => Counted p busy files held locked o s'
      | some f => (s.ftable f).ref = 0 ∧ (s.ftable f).type = .none ∧
          s' = { s with ftable := update s.ftable f { s.ftable f with ref := 1 } } ∧
          Counted p busy (f ::ₘ files) held locked o s') := by
  unfold SysM.filealloc
  simp only [wp_bind, wp_get]
  split
  · exact ⟨⟨rfl, rfl⟩, h⟩
  · rename_i f hfind
    have hzero := List.find?_some hfind
    rw [decide_eq_true_eq] at hzero
    have htype := h.unref f hzero
    have hadd := h.addRef (.inr htype)
    rw [hzero] at hadd
    exact ⟨⟨rfl, rfl⟩, hzero, htype, rfl, hadd⟩

lemma filedup (h : Counted p busy files held locked o s) (f : Fin NFILE) :
    Returns (SysM.filedup f) s (fun r s' => r = f ∧ s.SameProcs s' ∧
      Counted p busy (f ::ₘ files) held locked o s') := by
  unfold SysM.filedup
  simp only [wp_bind, wp_file]
  split
  · trivial
  · rename_i hpos
    exact ⟨rfl, ⟨rfl, rfl⟩, h.addRef (.inl (by omega))⟩

lemma setOfile (h : Counted p busy files held locked o s) {q : Slot} {r : Option (Fin NFILE)}
   
    (hfiles : ∀ g, files'.count g + (if r = some g then 1 else 0) =
      files.count g + (if s.ofile q fd = some g then 1 else 0))
    (hused : r ≠ none → q ∉ busy → s.cwd q ≠ none) :
    Counted p busy files' held locked o
      { s with ofile := update s.ofile q (update (s.ofile q) fd r) } := by
  have hdesc : Sys.descriptors { s with ofile := update s.ofile q (update (s.ofile q) fd r) } =
      update s.descriptors (q, fd) r := by
    funext ⟨q', fd'⟩
    by_cases hq : q' = q
    · subst hq
      by_cases hfd : fd' = fd
      · subst hfd
        simp [Sys.descriptors]
      · simp [Sys.descriptors, hfd]
    · simp [Sys.descriptors, hq]
  refine ⟨?_, h.unref, h.vfs, h.pipes, h.oneEnd, ?_⟩
  · intro g
    have hcount := count_update s.descriptors (q, fd) r (some g)
    have hold : s.descriptors (q, fd) = s.ofile q fd := rfl
    have hg := h.ref g
    have hg' := hfiles g
    rw [hdesc]
    rw [hold] at hcount
    dsimp only
    omega
  · intro q' hq' hcwd fd'
    have hnone := h.unused q' hq' hcwd
    by_cases hq : q' = q
    · subst hq
      have hr : r = none := by
        by_contra hr
        exact hused hr hq' hcwd
      by_cases hfd : fd' = fd
      · subst hfd
        simp [hr]
      · simpa [hfd] using hnone fd'
    · simpa [hq] using hnone fd'

lemma fdalloc (h : Counted p busy (f ::ₘ files) held locked o s) (hcwd : s.cwd p ≠ none) :
    Returns (SysM.fdalloc p f) s (fun r s' => s'.cwd = s.cwd ∧ s'.ftable = s.ftable ∧ match r with
      | none => s' = s
      | some fd => s'.ofile p fd = some f ∧ Counted p busy files held locked o s') := by
  unfold SysM.fdalloc
  simp only [wp_bind, wp_get]
  split
  · exact ⟨rfl, rfl, rfl⟩
  · rename_i fd hfind
    have hnone := List.find?_some hfind
    rw [Option.isNone_iff_eq_none] at hnone
    refine ⟨rfl, rfl, by simp, h.setOfile ?_ (fun _ _ => hcwd)⟩
    intro g
    rw [hnone, count_cons_add]
    rfl

lemma clearOfile (h : Counted p busy files held locked o s) {q : Slot} (hfd : s.ofile q fd = some f) :
    Returns (SysM.setOfile q fd none) s (fun _ s' => s'.cwd = s.cwd ∧ s'.ftable = s.ftable ∧
      s'.ofile = update s.ofile q (update (s.ofile q) fd none) ∧
      Counted p busy (f ::ₘ files) held locked o s') := by
  refine ⟨rfl, rfl, rfl, h.setOfile ?_ (fun hr => absurd rfl hr)⟩
  intro g
  rw [hfd, count_cons_add]
  rfl

lemma dropFile (h : Counted p busy (f ::ₘ files) held locked o s) (href : (s.ftable f).ref = 1)
    {held' : Multiset (Fin NINODE)} {pipes' : PipeId → Option Pipe}
    (hinode : ∀ ip, held'.count ip = held.count ip + (if (s.ftable f).inode? = some ip then 1 else 0))
    (hpipes : PipesOk (update (File.pipeEnd? ∘ s.ftable) f none) pipes') :
    Counted p busy files held' locked o
      { s with
        ftable := update s.ftable f { s.ftable f with ref := 0, type := .none }
        pipes := pipes' } := by
  have hno : (⟨.none, 0, (s.ftable f).readable, (s.ftable f).writable, (s.ftable f).pipe, (s.ftable f).ip,
      (s.ftable f).off⟩ : File).inode? = none := rfl
  refine h.setFile ?_ ?_ (fun _ => rfl) ?_ hpipes nofun
  · rw [count_cons_self, href]
    dsimp only
    omega
  · intro g hg
    exact (count_cons_of_ne hg files).symm
  · intro ip
    rw [hno, hinode]
    rfl

lemma fileclose (h : Counted p busy (f ::ₘ files) held locked o s) :
    Returns (SysM.fileclose sb f) s (fun _ s' => s.SameProcs s' ∧ Counted p busy files held locked o s') := by
  unfold SysM.fileclose
  simp only [wp_bind, wp_file]
  split
  · trivial
  rename_i hpos
  split
  · rename_i hmany
    refine ⟨⟨rfl, rfl⟩, h.setFile_quiet ?_ ?_ rfl (by dsimp only; omega) (.inl (by omega))⟩
    · rw [count_cons_self]
      dsimp only
      omega
    · intro g hg
      exact (count_cons_of_ne hg files).symm
  rename_i hlast
  have href : (s.ftable f).ref = 1 := by omega
  have hkeep : (s.ftable f).pipeEnd? = none →
      PipesOk (update (File.pipeEnd? ∘ s.ftable) f none) s.pipes := by
    intro hnone
    rw [← hnone, update_pipeEnd rfl]
    exact h.pipes
  rw [wp_bind]
  change Wp _ { s with ftable := update s.ftable f { s.ftable f with ref := 0, type := .none } } _ _
  cases htype : (s.ftable f).type with
  | none =>
    refine ⟨⟨rfl, rfl⟩, h.dropFile href ?_ (hkeep ?_)⟩
    · simp [File.inode?, htype]
    · simp [File.pipeEnd?, htype]
  | inode =>
    have hdrop : Counted p busy files ((s.ftable f).ip ::ₘ held) locked o
        { s with ftable := update s.ftable f { s.ftable f with ref := 0, type := .none } } := by
      refine h.dropFile href ?_ (hkeep ?_)
      · intro ip
        rw [count_cons]
        simp [File.inode?, htype, href, eq_comm]
      · simp [File.pipeEnd?, htype]
    refine (hdrop.runVfs (x := do FsM.beginOp; FsM.iput sb (s.ftable f).ip; FsM.endOp) ?_).imp
      (fun _ _ h => ⟨⟨h.1.1, h.1.2⟩, h.2.2⟩)
    refine hdrop.vfs.beginOp.bind ?_
    rintro - v h
    exact h.iput.bind (fun _ _ h => h.endOp)
  | pipe =>
    have hend : (s.ftable f).pipeEnd? = some ((s.ftable f).pipe, (s.ftable f).writable) := by
      simp [File.pipeEnd?, htype, href]
    obtain ⟨y, hy, -⟩ := (h.pipes.isOpen (s.ftable f).pipe (s.ftable f).writable).mp ⟨f, hend⟩
    unfold SysM.pipeclose
    simp only [wp_bind, wp_get]
    rw [hy]
    refine ⟨⟨rfl, rfl⟩, h.dropFile href ?_ (h.pipes.close hend hy ?_ ?_)⟩
    · simp [File.inode?, htype]
    · cases (s.ftable f).writable <;> rfl
    · cases (s.ftable f).writable <;> rfl

lemma ref_pos (h : Counted p busy files held locked o s) {q : Slot} (hfd : s.ofile q fd = some f) :
    0 < (s.ftable f).ref := by
  have hpos := count_pos (g := s.descriptors) (a := (q, fd)) hfd
  rw [h.ref]
  omega

end Counted

end Xv6Bfs
