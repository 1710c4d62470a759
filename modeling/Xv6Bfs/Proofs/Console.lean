import Xv6Bfs.Console

/-!
# The console is a terminal with lines

The three indices of `input` delimit what can be read and the line that is being edited, as the
terminal has them, for all keys and reads and however often the indices wrap.
-/

namespace Xv6Bfs

open List Monitor Transition

lemma inputBuf_dvd : INPUT_BUF ∣ 2 ^ 31 := by decide

/-- The ring holds the committed lines of `t`, then the line being typed. -/
structure Input.Shows (x : Input) (t : Tty) : Prop where
  pending : Ring.contents x.buf x.r x.w = t.pending
  line : Ring.contents x.buf x.w x.e = t.line
  bound : t.pending.length + t.line.length ≤ INPUT_BUF
  full : t.pending.length + t.line.length = INPUT_BUF → t.line = []
  plain : newline ∉ t.line

namespace Input.Shows

variable {x : Input} {t : Tty} (h : x.Shows t)

include h

lemma span_rw : (x.w - x.r).toNat = t.pending.length := by
  rw [← h.pending, Ring.length_contents]

lemma span_we : (x.e - x.w).toNat = t.line.length := by
  rw [← h.line, Ring.length_contents]

lemma span_re : (x.e - x.r).toNat = t.pending.length + t.line.length := by
  have hpending := h.span_rw
  have hline := h.span_we
  have hbound := h.bound
  unfold INPUT_BUF at hbound
  bv_omega

lemma e_eq_w : x.e = x.w ↔ t.line = [] := by
  have hline := h.span_we
  rw [← length_eq_zero_iff, ← hline]
  bv_omega

lemma erase (hne : x.e ≠ x.w) : Input.Shows { x with e := x.e - 1 } { t with line := t.line.dropLast } := by
  have hline := h.line
  rw [Ring.contents_pred _ hne] at hline
  have hlength : t.line.length = t.line.dropLast.length + 1 := by
    rw [← hline]
    simp
  refine ⟨h.pending, ?_, ?_, ?_, ?_⟩
  · rw [← hline, dropLast_concat]
  · have := h.bound
    dsimp only
    omega
  · intro hfull
    have := h.bound
    dsimp only at hfull
    omega
  · exact fun hmem => h.plain (dropLast_subset _ hmem)

lemma killLine {fuel : ℕ} (hfuel : t.line.length ≤ fuel) : (x.killLine fuel).Shows { t with line := [] } := by
  induction fuel generalizing x t with
  | zero =>
    have hnil : t.line = [] := length_eq_zero_iff.mp (Nat.le_zero.mp hfuel)
    rw [← hnil]
    exact h
  | succ fuel ih =>
    rw [Input.killLine]
    by_cases hne : x.e ≠ x.w
    · have hline := h.line
      rw [Ring.contents_pred _ hne] at hline
      have hlast : x.buf (Ring.slot INPUT_BUF (x.e - 1)) ≠ newline := by
        intro heq
        refine h.plain ?_
        rw [← hline, heq]
        simp
      rw [if_pos ⟨hne, hlast⟩]
      refine ih (t := { t with line := t.line.dropLast }) (h.erase hne) ?_
      rw [length_dropLast]
      omega
    · rw [if_neg (fun hcon => hne hcon.1), ← (h.e_eq_w.mp (not_not.mp hne))]
      exact h

lemma push (c : BitVec 8) (hroom : t.pending.length + t.line.length < INPUT_BUF) :
    let line := t.line ++ [c]
    let x' : Input := { x with buf := Function.update x.buf (Ring.slot INPUT_BUF x.e) c, e := x.e + 1 }
    (c = newline ∨ c = ctrlD ∨ t.pending.length + line.length = INPUT_BUF →
      Input.Shows { x' with w := x'.e } { t with pending := t.pending ++ line, line := [] }) ∧
    (¬ (c = newline ∨ c = ctrlD ∨ t.pending.length + line.length = INPUT_BUF) → x'.Shows { t with line := line }) := by
  intro line x'
  have hre := h.span_re
  have hrw := h.span_rw
  have hwe := h.span_we
  have hpending : Ring.contents x'.buf x.r x.w = t.pending := by
    rw [← h.pending]
    exact Ring.contents_update inputBuf_dvd _ (by omega) (by omega) c
  have hline : Ring.contents x'.buf x.w (x.e + 1) = line := by
    change Ring.contents (Function.update x.buf _ c) x.w (x.e + 1) = _
    rw [Ring.contents_push inputBuf_dvd _ (by omega), h.line]
  have hlength : line.length = t.line.length + 1 := by simp [line]
  have hspan := Ring.span_succ (r := x.r) (e := x.e) (by unfold INPUT_BUF at hroom; omega)
  have hspan' := Ring.span_succ (r := x.w) (e := x.e) (by unfold INPUT_BUF at hroom; omega)
  constructor
  · intro _
    refine ⟨?_, Ring.contents_self .., ?_, fun _ => rfl, not_mem_nil⟩
    · change Ring.contents x'.buf x.r (x.e + 1) = t.pending ++ line
      rw [Ring.contents_append (w := x.w) _ (by omega), hpending, hline]
    · simp only [length_append, length_nil]
      omega
  · intro hopen
    rw [not_or, not_or] at hopen
    refine ⟨hpending, hline, ?_, ?_, ?_⟩
    · dsimp only
      omega
    · exact fun hfull => absurd hfull hopen.2.2
    · rw [mem_append, not_or, mem_singleton]
      exact ⟨h.plain, Ne.symm hopen.1⟩

lemma intr (c : BitVec 8) : (x.intr c).1.Shows (t.key c) := by
  have hre := h.span_re
  have hroom : x.e - x.r < BitVec.ofNat 32 INPUT_BUF ↔ t.pending.length + t.line.length < INPUT_BUF := by
    rw [← hre]
    exact Iff.rfl
  have hfull : t.pending.length + t.line.length < INPUT_BUF → (x.e + 1 = x.r + BitVec.ofNat 32 INPUT_BUF ↔
      t.pending.length + (t.line ++ [cook c]).length = INPUT_BUF) := by
    intro hlt
    rw [length_append, length_singleton, ← Nat.add_assoc, ← hre]
    rw [← hre] at hlt
    unfold INPUT_BUF at hlt ⊢
    bv_omega
  unfold Input.intr Tty.key
  by_cases hp : c = ctrlP
  · rw [if_pos hp, if_pos hp]
    exact h
  rw [if_neg hp, if_neg hp]
  by_cases hu : c = ctrlU
  · rw [if_pos hu, if_pos hu]
    exact h.killLine h.span_we.ge
  rw [if_neg hu, if_neg hu]
  by_cases hh : c = ctrlH ∨ c = 0x7f
  · rw [if_pos hh, if_pos hh]
    by_cases hne : x.e ≠ x.w
    · rw [if_pos hne]
      exact h.erase hne
    · have hnil := h.e_eq_w.mp (not_not.mp hne)
      rw [if_neg hne, hnil, dropLast_nil, ← hnil]
      exact h
  rw [if_neg hh, if_neg hh]
  by_cases hput : c ≠ 0 ∧ t.pending.length + t.line.length < INPUT_BUF
  · rw [if_pos ⟨hput.1, hroom.mpr hput.2⟩, if_pos hput]
    obtain ⟨hcommit, hedit⟩ := h.push (cook c) hput.2
    dsimp only
    by_cases hend : cook c = newline ∨ cook c = ctrlD ∨ t.pending.length + (t.line ++ [cook c]).length = INPUT_BUF
    · rw [if_pos hend, if_pos (hend.imp_right (Or.imp_right (hfull hput.2).mpr))]
      exact hcommit hend
    · rw [if_neg hend, if_neg (fun h => hend (h.imp_right (Or.imp_right (hfull hput.2).mp)))]
      exact hedit hend
  · rw [if_neg (fun hcon => hput ⟨hcon.1, hroom.mp hcon.2⟩), if_neg hput]
    exact h

lemma take (hne : x.r ≠ x.w) :
    Input.Shows { x with r := x.r + 1 } t.next ∧ t.pending.take 1 = [x.buf (Ring.slot INPUT_BUF x.r)] := by
  have hpending := h.pending
  rw [Ring.contents_pop _ hne] at hpending
  have hlength : t.pending.length = (t.pending.drop 1).length + 1 := by
    rw [← hpending]
    simp
  have hbound := h.bound
  refine ⟨⟨?_, h.line, ?_, ?_, h.plain⟩, ?_⟩
  · unfold Tty.next
    rw [← hpending]
    rfl
  · unfold Tty.next
    dsimp only
    omega
  · unfold Tty.next
    dsimp only
    intro hfull
    omega
  · rw [← hpending]
    rfl

end Input.Shows

namespace ConsolePc

def holds : ConsolePc → Bool
  | idle | consoleintr _ | consoleread _ => false
  | _ => true

def Got : ConsolePc → Prop
  | readLoop target n dst => (dst.length : ℤ) = target - n
  | readDone target n dst eof => (dst.length : ℤ) = target - n ∧ (eof = true → dst = [])
  | _ => True

/-- What the reader has got. -/
def dst : ConsolePc → List (BitVec 8)
  | readLoop _ _ dst | readDone _ _ dst _ => dst
  | _ => []

end ConsolePc

namespace ConsoleRun

variable {P : Type*} {x : ConsoleRun}

/-- What readers got is what was consumed, each ^D once as an end of file. -/
structure Inv (x : ConsoleRun) : Prop where
  shows : x.input.Shows x.tty
  delivered : x.delivered = x.tty.consumed.filter (· ≠ ctrlD)
  eofs : x.eofs = x.tty.consumed.count ctrlD

lemma consumed_key (t : Tty) (c : BitVec 8) : (t.key c).consumed = t.consumed := by
  unfold Tty.key
  dsimp only
  split_ifs <;> rfl

lemma Inv.intr (h : x.Inv) (c : BitVec 8) : (x.intr c).Inv := by
  refine ⟨h.shows.intr c, ?_, ?_⟩
  · change x.delivered = (x.tty.key c).consumed.filter _
    rw [consumed_key]
    exact h.delivered
  · change x.eofs = (x.tty.key c).consumed.count _
    rw [consumed_key]
    exact h.eofs

lemma Inv.takeEof (h : x.Inv) (hne : x.input.r ≠ x.input.w)
    (hc : x.input.buf (Ring.slot INPUT_BUF x.input.r) = ctrlD) : x.takeEof.Inv := by
  obtain ⟨hshows, hchar⟩ := h.shows.take hne
  rw [hc] at hchar
  refine ⟨hshows, ?_, ?_⟩
  · change x.delivered = (x.tty.consumed ++ x.tty.pending.take 1).filter _
    rw [hchar, filter_append, ← h.delivered]
    simp
  · change x.eofs + 1 = (x.tty.consumed ++ x.tty.pending.take 1).count _
    rw [hchar, count_append, ← h.eofs, count_singleton_self]

lemma Inv.take (h : x.Inv) (hne : x.input.r ≠ x.input.w)
    (hc : x.input.buf (Ring.slot INPUT_BUF x.input.r) ≠ ctrlD) :
    (x.take (x.input.buf (Ring.slot INPUT_BUF x.input.r))).Inv := by
  obtain ⟨hshows, hchar⟩ := h.shows.take hne
  refine ⟨hshows, ?_, ?_⟩
  · change x.delivered ++ [_] = (x.tty.consumed ++ x.tty.pending.take 1).filter _
    rw [hchar, filter_append, ← h.delivered]
    simp [hc]
  · change x.eofs = (x.tty.consumed ++ x.tty.pending.take 1).count _
    rw [hchar, count_append, ← h.eofs, count_singleton]
    simp [hc]

lemma sound (pc : ConsolePc) (x : ConsoleRun) (killed : Bool) (h : pc.holds = true → x.Inv ∧ pc.Got) :
    (code pc x killed).HolderSound ConsolePc.holds Inv (fun pc _ => pc.Got) ConsolePc.Got pc x := by
  cases pc with
  | idle => trivial
  | consoleintr cs => exact ⟨rfl, rfl, fun _ => trivial⟩
  | intrLoop cs =>
    cases cs with
    | nil => exact ⟨rfl, rfl, (h rfl).1, trivial⟩
    | cons c cs =>
      rw [code]
      split
      · exact ⟨rfl, rfl, (h rfl).1.intr c, trivial⟩
      · exact ⟨rfl, rfl, (h rfl).1.intr c, trivial⟩
  | intrWakeup cs => exact ⟨rfl, rfl, trivial⟩
  | intrDone => exact ⟨rfl, rfl⟩
  | consoleread n => exact ⟨rfl, rfl, fun _ => by simp [ConsolePc.Got]⟩
  | readLoop target n dst =>
    obtain ⟨hinv, hgot⟩ := h rfl
    have hgot : (dst.length : ℤ) = target - n := hgot
    rw [code]
    by_cases hn : 0 < n
    · rw [if_pos hn]
      by_cases hempty : x.input.r = x.input.w
      · rw [if_pos hempty]
        cases killed with
        | true => exact ⟨rfl, rfl, hinv, trivial⟩
        | false => exact ⟨rfl, rfl, hgot⟩
      · rw [if_neg hempty]
        dsimp only
        by_cases hc : x.input.buf (Ring.slot INPUT_BUF x.input.r) = ctrlD
        · rw [if_pos hc]
          by_cases hlt : n < target
          · rw [if_pos hlt]
            exact ⟨rfl, rfl, hinv, hgot, nofun⟩
          · rw [if_neg hlt]
            refine ⟨rfl, rfl, hinv.takeEof hempty hc, hgot, fun _ => ?_⟩
            exact length_eq_zero_iff.mp (by omega)
        · rw [if_neg hc]
          have hnext : ((dst ++ [x.input.buf (Ring.slot INPUT_BUF x.input.r)]).length : ℤ) = target - (n - 1) := by
            rw [length_append, length_singleton]
            omega
          split
          · exact ⟨rfl, rfl, hinv.take hempty hc, hnext, nofun⟩
          · exact ⟨rfl, rfl, hinv.take hempty hc, hnext⟩
    · rw [if_neg hn]
      exact ⟨rfl, rfl, hinv, hgot, nofun⟩
  | readDone target n dst eof => exact ⟨rfl, rfl⟩
  | readFail => exact ⟨rfl, rfl⟩

def outline (P : Type*) : HolderOutline (program P) where
  holds := ConsolePc.holds
  inv := Inv
  knows pc _ := pc.Got
  resumes := ConsolePc.Got
  idle := rfl
  start := by
    rintro x rfl
    exact ⟨⟨rfl, rfl, Nat.zero_le _, fun _ => rfl, not_mem_nil⟩, rfl, rfl⟩
  begins := by
    intro p pc entry x hbegins
    unfold program begins at hbegins
    dsimp only at hbegins
    split at hbegins
    · exact ⟨rfl, rfl⟩
    · exact ⟨rfl, rfl⟩
    · cases hbegins
  resume _ _ hgot _ := hgot
  sound _ := sound

/-! ### What a step takes from the buffer -/

/-- The reader that is at `pc` takes `c` and goes to `pc'`. A `^D` ends a read that has got nothing; any other character is added to
what the reader has got, and a newline ends the read. -/
def TakesChar (c : BitVec 8) (pc pc' : ConsolePc) : Prop :=
  ∃ target n dst, pc = .readLoop target n dst ∧ (c = ctrlD ∧ dst = [] ∧ pc' = .readDone target n [] true ∨
      c ≠ ctrlD ∧ pc' = if c = newline then .readDone target (n - 1) (dst ++ [c]) false else .readLoop target (n - 1) (dst ++ [c]))

section Step

variable [DecidableEq P] {s s' : State P Unit ConsoleRun ConsolePc} {e : Monitor.Event P ConsolePc} {p : P}

/-- A step takes one character for one reader, or none. -/
def Reads (e : Monitor.Event P ConsolePc) (s s' : State P Unit ConsoleRun ConsolePc) : Prop :=
  (s'.data.tty.consumed = s.data.tty.consumed ∧
    ∀ q, (s'.proc q).locals.dst = (s.proc q).locals.dst ∨ (s'.proc q).locals.dst = []) ∨
  ∃ p c, e = .step p ∧ s.data.tty.pending.head? = some c ∧ s'.data.tty.consumed = s.data.tty.consumed ++ [c] ∧
    TakesChar c (s.proc p).locals (s'.proc p).locals ∧ ∀ q, q ≠ p → (s'.proc q).locals = (s.proc q).locals

end Step

end ConsoleRun

end Xv6Bfs
