import Mathlib.Computability.Language
import Mathlib.Data.List.TakeWhile
import Xv6Bfs.Grep

/-!
# The language of a pattern

A pattern is read as a sequence of items, each a language of its own, between two optional anchors. The matcher finds the
pattern in a text if and only if some part of the text is a word of the product of these languages. `grep` writes the lines
that match if every call of `read` brings the end of a line; if one does not, the buffer is forgotten.
-/

namespace Xv6Bfs

open List

namespace Grep

open Computability

def str (m : List (BitVec 8)) : List (BitVec 8) :=
  m.takeWhile (· ≠ 0)

lemma str_zero (m : List (BitVec 8)) : str (0 :: m) = [] :=
  takeWhile_cons_of_neg (by simp)

lemma str_cons {a : BitVec 8} (ha : a ≠ 0) (m : List (BitVec 8)) : str (a :: m) = a :: str m :=
  takeWhile_cons_of_pos (decide_eq_true ha)

structure Item where
  char : BitVec 8
  starred : Bool

def letter (c : BitVec 8) : Language (BitVec 8) :=
  {w | ∃ a, (a = c ∨ c = dot) ∧ w = [a]}

def Item.lang (x : Item) : Language (BitVec 8) :=
  if x.starred then (letter x.char)∗ else letter x.char

/-- The items of a pattern without its leading `^`, and whether it ends with the anchor `$`. -/
def items : List (BitVec 8) → List Item × Bool
  | [] => ([], false)
  | [c] => if c = dollar then ([], true) else ([⟨c, false⟩], false)
  | c :: d :: re =>
    if d = star then (⟨c, true⟩ :: (items re).1, (items re).2)
    else (⟨c, false⟩ :: (items (d :: re)).1, (items (d :: re)).2)

/-- Some word of the items starts the text, and ends it if there is an anchor at the end. -/
def Here (xs : List Item) (anchored : Bool) (text : List (BitVec 8)) : Prop :=
  ∃ word post, text = word ++ post ∧ word ∈ (xs.map Item.lang).prod ∧ (anchored = true → post = [])

/-- Some word of the items is a part of the text where the anchors allow it. -/
def Occurs (re text : List (BitVec 8)) : Prop :=
  if re.head? = some caret then Here (items re.tail).1 (items re.tail).2 text
  else ∃ pre post, text = pre ++ post ∧ Here (items re).1 (items re).2 post

section Words

variable {c : BitVec 8} {xs : List Item} {e : Bool} {text : List (BitVec 8)}

lemma mem_letter_kstar {w : List (BitVec 8)} : w ∈ (letter c)∗ ↔ ∀ a ∈ w, a = c ∨ c = dot := by
  rw [Language.mem_kstar]
  constructor
  · rintro ⟨ws, rfl, hws⟩ a ha
    obtain ⟨v, hv, hmem⟩ := mem_flatten.mp ha
    obtain ⟨b, hb, rfl⟩ := hws v hv
    rwa [mem_singleton.mp hmem]
  · intro h
    refine ⟨w.map (fun a => [a]), by rw [← flatMap_def, flatMap_singleton'], ?_⟩
    intro v hv
    obtain ⟨a, ha, rfl⟩ := mem_map.mp hv
    exact ⟨a, h a ha, rfl⟩

lemma here_nil : Here [] e text ↔ (e = true → text = []) := by
  simp [Here]

lemma here_cons {x : Item} : Here (x :: xs) e text ↔ ∃ u v, text = u ++ v ∧ u ∈ x.lang ∧ Here xs e v := by
  simp only [Here, map_cons, prod_cons, Language.mem_mul]
  constructor
  · rintro ⟨-, post, rfl, ⟨u, hu, w, hw, rfl⟩, he⟩
    exact ⟨u, w ++ post, append_assoc .., hu, w, post, rfl, hw, he⟩
  · rintro ⟨u, -, rfl, hu, w, post, rfl, hw, he⟩
    exact ⟨u ++ w, post, (append_assoc ..).symm, ⟨u, hu, w, hw, rfl⟩, he⟩

lemma here_letter : Here (⟨c, false⟩ :: xs) e text ↔ ∃ a v, text = a :: v ∧ (a = c ∨ c = dot) ∧ Here xs e v := by
  rw [here_cons]
  constructor
  · rintro ⟨-, v, rfl, ⟨a, ha, rfl⟩, hv⟩
    exact ⟨a, v, rfl, ha, hv⟩
  · rintro ⟨a, v, rfl, ha, hv⟩
    exact ⟨[a], v, rfl, ⟨a, ha, rfl⟩, hv⟩

lemma here_starred :
    Here (⟨c, true⟩ :: xs) e text ↔ ∃ u v, text = u ++ v ∧ (∀ a ∈ u, a = c ∨ c = dot) ∧ Here xs e v := by
  have hlang : (Item.mk c true).lang = (letter c)∗ := if_pos rfl
  simp only [here_cons, hlang, mem_letter_kstar]

end Words

/-! ### The matcher -/

lemma matchstar_iff {here : List (BitVec 8) → Bool} {P : List (BitVec 8) → Prop}
    (hhere : ∀ text, here text = true ↔ P (str text)) (c : BitVec 8) (text : List (BitVec 8)) :
    matchstar here c text = true ↔ ∃ u v, str text = u ++ v ∧ (∀ a ∈ u, a = c ∨ c = dot) ∧ P v := by
  induction text with
  | nil =>
    rw [matchstar, hhere]
    constructor
    · exact fun h => ⟨[], [], rfl, nofun, h⟩
    · rintro ⟨u, v, huv, -, hv⟩
      obtain ⟨-, rfl⟩ := append_eq_nil_iff.mp huv.symm
      exact hv
  | cons a text ih =>
    rw [matchstar, Bool.or_eq_true, hhere]
    by_cases ha : a = 0
    · subst ha
      rw [str_zero]
      constructor
      · rintro (h | h)
        · exact ⟨[], [], rfl, nofun, h⟩
        · simp at h
      · rintro ⟨u, v, huv, -, hv⟩
        obtain ⟨-, rfl⟩ := append_eq_nil_iff.mp huv.symm
        exact .inl hv
    · simp only [ne_eq, ha, not_false_eq_true, decide_true, Bool.true_and, Bool.and_eq_true, Bool.or_eq_true,
        decide_eq_true_eq, ih, str_cons ha]
      constructor
      · rintro (h | ⟨hc, u, v, huv, hu, hv⟩)
        · exact ⟨[], _, rfl, nofun, h⟩
        · refine ⟨a :: u, v, by rw [huv]; rfl, ?_, hv⟩
          intro b hb
          rcases mem_cons.mp hb with rfl | hb
          · exact hc
          · exact hu b hb
      · rintro ⟨u, v, huv, hu, hv⟩
        cases u with
        | nil =>
          left
          rwa [huv]
        | cons b u =>
          obtain ⟨rfl, hrest⟩ := List.cons.inj huv
          exact .inr ⟨hu a mem_cons_self, u, v, hrest, fun b hb => hu b (mem_cons_of_mem _ hb), hv⟩

lemma headD_eq_zero {text : List (BitVec 8)} : text.headD 0 = 0 ↔ str text = [] := by
  cases text with
  | nil => simp [str]
  | cons a text =>
    by_cases ha : a = 0
    · subst ha
      exact iff_of_true rfl (str_zero text)
    · rw [str_cons ha]
      exact iff_of_false ha (cons_ne_nil _ _)

lemma letter_test {c : BitVec 8} {xs : List Item} {e : Bool} {text : List (BitVec 8)} {rest : List (BitVec 8) → Bool}
    (hrest : ∀ text, rest text = true ↔ Here xs e (str text)) :
    (if text.headD 0 ≠ 0 ∧ (c = dot ∨ c = text.headD 0) then rest text.tail else false) = true ↔
      Here (⟨c, false⟩ :: xs) e (str text) := by
  rw [here_letter]
  cases text with
  | nil => simp [str]
  | cons a text =>
    by_cases ha : a = 0
    · subst ha
      rw [str_zero, if_neg (fun h => h.1 rfl)]
      exact iff_of_false Bool.false_ne_true (fun ⟨_, _, h, _⟩ => cons_ne_nil _ _ h.symm)
    · simp only [headD_cons, ne_eq, ha, not_false_eq_true, true_and, tail_cons, str_cons ha, List.cons.injEq]
      split
      · rename_i hc
        rw [hrest]
        constructor
        · exact fun h => ⟨a, str text, ⟨rfl, rfl⟩, hc.symm.imp_left Eq.symm, h⟩
        · rintro ⟨b, v, ⟨rfl, rfl⟩, -, h⟩
          exact h
      · rename_i hc
        constructor
        · nofun
        · rintro ⟨b, v, ⟨rfl, rfl⟩, hb, -⟩
          exact absurd (hb.symm.imp_right Eq.symm) hc

lemma matchhere_iff (re text : List (BitVec 8)) :
    matchhere re text = true ↔ Here (items (str re)).1 (items (str re)).2 (str text) := by
  -- the pattern gets shorter by one character or by two
  induction hn : re.length using Nat.strong_induction_on generalizing re text with
  | _ n ih =>
    match re with
    | [] => simp [matchhere, str, items, here_nil]
    | c :: re =>
      by_cases hc : c = 0
      · subst hc
        rw [str_zero]
        simp [matchhere, items, here_nil]
      rw [str_cons hc, matchhere, if_neg hc]
      have hlast : ∀ rest : List (BitVec 8) → Bool, (∀ text, rest text = true ↔ Here [] false (str text)) →
          ((if c = dollar ∧ (0 : BitVec 8) = 0 then decide (text.headD 0 = 0)
            else if text.headD 0 ≠ 0 ∧ (c = dot ∨ c = text.headD 0) then rest text.tail else false) = true ↔
          Here (items [c]).1 (items [c]).2 (str text)) := by
        intro rest hrest
        rw [items]
        by_cases hdollar : c = dollar
        · rw [if_pos ⟨hdollar, rfl⟩, if_pos hdollar, decide_eq_true_eq, headD_eq_zero, here_nil]
          exact ⟨fun h _ => h, fun h => h rfl⟩
        · rw [if_neg (fun h => hdollar h.1), if_neg hdollar]
          exact letter_test hrest
      match re with
      | [] => exact hlast (fun _ => true) (fun _ => by simp [here_nil])
      | d :: re =>
        have hre := fun text => ih (d :: re).length (by rw [← hn]; exact Nat.lt_succ_self _) (d :: re) text rfl
        by_cases hd : d = 0
        · subst hd
          rw [str_zero] at hre ⊢
          exact hlast _ hre
        rw [str_cons hd] at hre ⊢
        rw [items]
        by_cases hstar : d = star
        · have hre' := fun text => ih re.length (by rw [← hn]; exact Nat.lt_add_of_pos_right Nat.two_pos) re text rfl
          rw [if_pos hstar, here_starred]
          simp only [if_pos hstar]
          exact matchstar_iff hre' c text
        · rw [if_neg hstar]
          simp only [if_neg hstar, headD_cons, hd, and_false, if_false]
          exact letter_test hre

lemma matchLoop_iff (re text : List (BitVec 8)) : matchLoop re text = true ↔
    ∃ pre post, str text = pre ++ post ∧ Here (items (str re)).1 (items (str re)).2 post := by
  induction text with
  | nil =>
    rw [matchLoop, matchhere_iff]
    constructor
    · exact fun h => ⟨[], [], rfl, h⟩
    · rintro ⟨pre, post, heq, h⟩
      obtain ⟨-, rfl⟩ := append_eq_nil_iff.mp heq.symm
      exact h
  | cons a text ih =>
    rw [matchLoop, Bool.or_eq_true, Bool.and_eq_true, decide_eq_true_eq, ih, matchhere_iff]
    by_cases ha : a = 0
    · subst ha
      rw [str_zero]
      constructor
      · rintro (h | ⟨h, -⟩)
        · exact ⟨[], [], rfl, h⟩
        · exact absurd rfl h
      · rintro ⟨pre, post, heq, h⟩
        obtain ⟨-, rfl⟩ := append_eq_nil_iff.mp heq.symm
        exact .inl h
    · rw [str_cons ha]
      constructor
      · rintro (h | ⟨-, pre, post, heq, h⟩)
        · exact ⟨[], _, rfl, h⟩
        · exact ⟨a :: pre, post, by rw [heq]; rfl, h⟩
      · rintro ⟨pre, post, heq, h⟩
        cases pre with
        | nil =>
          left
          rwa [show a :: str text = post from heq]
        | cons b pre =>
          obtain ⟨-, hrest⟩ := List.cons.inj heq
          exact .inr ⟨ha, pre, post, hrest, h⟩

/-- For every pattern and every text, `match` returns 1 if and only if the pattern occurs in the text. -/
theorem match_iff_occurs (re text : List (BitVec 8)) : matchText re text = true ↔ Occurs (str re) (str text) := by
  have hcaret : (re.headD 0 = caret ↔ (str re).head? = some caret) ∧ (re.headD 0 = caret → str re.tail = (str re).tail) := by
    cases re with
    | nil => exact ⟨iff_of_false (by decide) nofun, fun _ => rfl⟩
    | cons c re =>
      by_cases hc : c = 0
      · have hne : (0 : BitVec 8) ≠ caret := by decide
        subst hc
        rw [str_zero]
        exact ⟨iff_of_false hne nofun, fun h => absurd h hne⟩
      · rw [str_cons hc]
        exact ⟨(Option.some_inj).symm, fun _ => rfl⟩
  unfold matchText Occurs
  by_cases h : re.headD 0 = caret
  · rw [if_pos h, if_pos (hcaret.1.mp h), matchhere_iff, hcaret.2 h]
  · rw [if_neg h, if_neg (fun h' => h (hcaret.1.mpr h')), matchLoop_iff]

/-- `^`, `$` and `*` are characters where they are no operators, and a star belongs to the character before it. -/
example : matchText [0x61, caret, dollar, 0x62, star, star, dollar] [0x78, 0x61, caret, dollar, 0x62, 0x62, star] = true := by
  decide

/-! ### Lines -/

def join (lines : List (List (BitVec 8))) : List (BitVec 8) :=
  lines.flatMap (· ++ [newline])

def selected (pattern : List (BitVec 8)) (lines : List (List (BitVec 8))) : List (BitVec 8) :=
  join (lines.filter (fun line => matchText pattern line))

def IsLine (line : List (BitVec 8)) : Prop :=
  newline ∉ line ∧ 0 ∉ line

section Lines

variable {pattern buf out tail line : List (BitVec 8)} {lines : List (List (BitVec 8))}

lemma join_cons : join (line :: lines) = line ++ newline :: join lines := by
  simp [join]

lemma join_append (lines lines' : List (List (BitVec 8))) : join (lines ++ lines') = join lines ++ join lines' :=
  flatMap_append

lemma zero_notMem_join (hlines : ∀ line ∈ lines, IsLine line) : 0 ∉ join lines := by
  intro h
  obtain ⟨line, hline, hmem⟩ := mem_flatMap.mp h
  rcases mem_append.mp hmem with hmem | hmem
  · exact (hlines line hline).2 hmem
  · exact absurd (mem_singleton.mp hmem) (by decide)

lemma newline_mem_join (hne : lines ≠ []) : newline ∈ join lines := by
  cases lines with
  | nil => exact absurd rfl hne
  | cons line lines =>
    rw [join_cons]
    simp

lemma length_le_join (lines : List (List (BitVec 8))) : lines.length ≤ (join lines).length := by
  induction lines with
  | nil => rfl
  | cons line lines ih =>
    rw [join_cons, length_append, length_cons, length_cons]
    omega

lemma selected_append (pattern : List (BitVec 8)) (lines lines' : List (List (BitVec 8))) :
    selected pattern (lines ++ lines') = selected pattern lines ++ selected pattern lines' := by
  rw [selected, filter_append, join_append]
  rfl

lemma matchText_nil (text : List (BitVec 8)) : matchText [] text = true := by
  rw [matchText, if_neg (by decide)]
  cases text <;> rfl

lemma matchText_congr (re : List (BitVec 8)) {text text' : List (BitVec 8)} (h : str text = str text') :
    matchText re text = matchText re text' := by
  rw [Bool.eq_iff_iff]
  unfold matchText
  split
  · rw [matchhere_iff, matchhere_iff, h]
  · rw [matchLoop_iff, matchLoop_iff, h]

lemma matchText_line (hline : IsLine line) (rest : List (BitVec 8)) :
    matchText pattern (line ++ 0 :: rest) = matchText pattern line := by
  have hne : ∀ a ∈ line, decide (a ≠ 0) = true := fun a ha => decide_eq_true (fun h => hline.2 (h ▸ ha))
  apply matchText_congr
  rw [str, str, takeWhile_append_of_pos hne, takeWhile_cons_of_neg (by simp), append_nil,
    takeWhile_eq_self_iff.mpr hne]

lemma strchr_line (hline : IsLine line) (rest : List (BitVec 8)) :
    strchr newline (line ++ newline :: rest) = some line.length := by
  induction line with
  | nil => rfl
  | cons a line ih =>
    obtain ⟨hnew, hzero⟩ := hline
    rw [mem_cons, not_or] at hnew hzero
    rw [cons_append, strchr, if_neg (Ne.symm hzero.1), if_neg (Ne.symm hnew.1), ih ⟨hnew.2, hzero.2⟩]
    rfl

lemma strchr_eq_none (h : newline ∉ tail) : strchr newline tail = none := by
  induction tail with
  | nil => rfl
  | cons a tail ih =>
    rw [mem_cons, not_or] at h
    rw [strchr, if_neg (Ne.symm h.1), ih h.2]
    split <;> rfl

lemma grepLines_eq (hlines : ∀ line ∈ lines, IsLine line) (htail : newline ∉ tail) {fuel : ℕ} (hfuel : lines.length ≤ fuel) :
    grepLines pattern fuel (join lines ++ tail) out = (tail, out ++ selected pattern lines) := by
  induction lines generalizing fuel out with
  | nil =>
    have hdone : (tail, out) = (tail, out ++ selected pattern []) := by simp [selected, join]
    cases fuel with
    | zero => exact hdone
    | succ fuel =>
      rw [show join [] ++ tail = tail from rfl, grepLines, strchr_eq_none htail]
      exact hdone
  | cons line lines ih =>
    obtain ⟨hline, hlines⟩ := forall_mem_cons.mp hlines
    obtain ⟨fuel, rfl⟩ : ∃ k, fuel = k + 1 := ⟨fuel - 1, by simp at hfuel; omega⟩
    have hsplit : join (line :: lines) ++ tail = (line ++ [newline]) ++ (join lines ++ tail) := by
      rw [join_cons]
      simp
    have hat : (line ++ [newline] ++ (join lines ++ tail)).take line.length = line := by simp
    have hend : (line ++ [newline] ++ (join lines ++ tail)).take (line.length + 1) = line ++ [newline] :=
      take_left' (by simp)
    have hrest : (line ++ [newline] ++ (join lines ++ tail)).drop (line.length + 1) = join lines ++ tail :=
      drop_left' (by simp)
    have hfind : strchr newline (line ++ [newline] ++ (join lines ++ tail)) = some line.length := by
      rw [append_assoc]
      exact strchr_line hline _
    rw [hsplit, grepLines, hfind]
    dsimp only
    rw [hat, hend, hrest, matchText_line hline, ih hlines (by simpa using hfuel)]
    by_cases hmatch : matchText pattern line = true
    · simp [selected, hmatch, join_cons]
    · simp [selected, hmatch]

lemma exists_lines (h : 0 ∉ buf) :
    ∃ lines tail, buf = join lines ++ tail ∧ (∀ line ∈ lines, IsLine line) ∧ newline ∉ tail := by
  induction buf with
  | nil => exact ⟨[], [], rfl, nofun, nofun⟩
  | cons a buf ih =>
    rw [mem_cons, not_or] at h
    obtain ⟨lines, tail, rfl, hlines, htail⟩ := ih h.2
    by_cases ha : a = newline
    · refine ⟨[] :: lines, tail, ?_, ?_, htail⟩
      · rw [join_cons, ha]
        rfl
      · rw [forall_mem_cons]
        exact ⟨⟨nofun, nofun⟩, hlines⟩
    · cases lines with
      | nil => exact ⟨[], a :: tail, rfl, nofun, by simp [htail, Ne.symm ha]⟩
      | cons line lines =>
        rw [forall_mem_cons] at hlines
        refine ⟨(a :: line) :: lines, tail, by simp [join_cons], ?_, htail⟩
        rw [forall_mem_cons]
        refine ⟨⟨by simp [hlines.1.1, Ne.symm ha], ?_⟩, hlines.2⟩
        rw [mem_cons, not_or]
        exact ⟨h.1, hlines.1.2⟩

lemma join_append_inj {lines lines' : List (List (BitVec 8))} {rest : List (BitVec 8)} (hlines : ∀ line ∈ lines, IsLine line)
    (hlines' : ∀ line ∈ lines', IsLine line) (h : join lines ++ rest = join lines') :
    ∃ more, lines' = lines ++ more ∧ rest = join more := by
  induction lines generalizing lines' with
  | nil => exact ⟨lines', rfl, h⟩
  | cons line lines ih =>
    obtain ⟨hline, hold⟩ := forall_mem_cons.mp hlines
    cases lines' with
    | nil => simp [join] at h
    | cons line' lines' =>
      obtain ⟨hline', hnew⟩ := forall_mem_cons.mp hlines'
      rw [join_cons, join_cons, append_assoc] at h
      -- the first newline is at the same place
      have hlength : line.length = line'.length := by
        have hfind := strchr_line hline (join lines ++ rest)
        rw [show line ++ newline :: (join lines ++ rest) = line' ++ newline :: join lines' from h, strchr_line hline'] at hfind
        exact (Option.some.inj hfind).symm
      obtain ⟨rfl, hrest⟩ := append_inj h hlength
      obtain ⟨more, rfl, hmore⟩ := ih hold hnew (List.cons.inj hrest).2
      exact ⟨more, rfl, hmore⟩

/-! ### The calls of `read` -/

variable {reads : List (List (BitVec 8))} {piece result : List (BitVec 8)}

lemma grepLoop_cons (hlines : ∀ line ∈ lines, IsLine line) (htail : newline ∉ tail) (hbuf : buf ++ piece = join lines ++ tail)
    (hloop : grepLoop pattern (piece :: reads) buf out = some result) : piece ≠ [] ∧
      grepLoop pattern reads (if lines = [] then [] else tail) (out ++ selected pattern lines) = some result := by
  rw [grepLoop] at hloop
  obtain ⟨hread, hloop⟩ := Option.ite_none_left_eq_some.mp hloop
  have hfuel : lines.length ≤ (join lines ++ tail).length := by
    rw [length_append]
    exact (length_le_join lines).trans (Nat.le_add_right _ _)
  dsimp only at hloop
  rw [hbuf, grepLines_eq hlines htail hfuel] at hloop
  refine ⟨fun h => hread (.inl h), ?_⟩
  dsimp only at hloop
  by_cases hnil : lines = []
  · subst hnil
    have hsame : tail.length = (join [] ++ tail).length := rfl
    rw [if_pos hsame] at hloop
    rwa [if_pos rfl]
  · have hpos := length_le_join lines
    have := length_pos_iff.mpr hnil
    rw [length_append, if_neg (by omega)] at hloop
    rwa [if_neg hnil]

lemma grepLoop_selected (hreads : ∀ piece ∈ reads, newline ∈ piece) (hlines : ∀ line ∈ lines, IsLine line)
    (hbuf : newline ∉ buf) (htext : buf ++ reads.flatten = join lines)
    (hloop : grepLoop pattern reads buf out = some result) : result = out ++ selected pattern lines := by
  induction reads generalizing buf out lines with
  | nil =>
    have hnil : lines = [] := by
      by_contra hne
      rw [flatten_nil, append_nil] at htext
      exact hbuf (htext ▸ newline_mem_join hne)
    rw [grepLoop, Option.some.injEq] at hloop
    rw [hnil, ← hloop]
    simp [selected, join]
  | cons piece reads ih =>
    obtain ⟨hpiece, hreads⟩ := forall_mem_cons.mp hreads
    rw [flatten_cons, ← append_assoc] at htext
    have hzero : 0 ∉ buf ++ piece := fun h => zero_notMem_join hlines (htext ▸ mem_append_left _ h)
    obtain ⟨first, tail, hsplit, hfirst, htail⟩ := exists_lines hzero
    rw [hsplit, append_assoc] at htext
    obtain ⟨more, rfl, hrest⟩ := join_append_inj hfirst hlines htext
    have hne : first ≠ [] := by
      rintro rfl
      have hsame : buf ++ piece = tail := hsplit
      exact htail (hsame ▸ mem_append_right _ hpiece)
    obtain ⟨-, hloop⟩ := grepLoop_cons hfirst htail hsplit hloop
    rw [if_neg hne] at hloop
    rw [ih hreads (fun line hline => hlines line (mem_append_right _ hline)) htail hrest hloop, selected_append,
      append_assoc]

lemma grepLoop_forgets (hzero : 0 ∉ buf ++ reads.flatten) (hbuf : newline ∉ buf)
    (hloop : grepLoop [] reads buf out = some result) :
    result.length ≤ out.length + buf.length + reads.flatten.length ∧
      ((∃ piece ∈ reads, newline ∉ piece) → result.length < out.length + buf.length + reads.flatten.length) := by
  induction reads generalizing buf out with
  | nil =>
    rw [grepLoop, Option.some.injEq] at hloop
    rw [← hloop]
    exact ⟨by omega, nofun⟩
  | cons piece reads ih =>
    rw [flatten_cons, ← append_assoc] at hzero
    have hrest : 0 ∉ reads.flatten := fun h => hzero (mem_append_right _ h)
    obtain ⟨lines, tail, hsplit, hlines, htail⟩ := exists_lines (fun h => hzero (mem_append_left _ h))
    obtain ⟨hpiece, hloop⟩ := grepLoop_cons hlines htail hsplit hloop
    have hlength := congrArg List.length hsplit
    have hpos := length_pos_iff.mpr hpiece
    have hall : selected [] lines = join lines := by
      rw [selected, filter_eq_self.mpr (fun line _ => matchText_nil line)]
    rw [length_append, length_append] at hlength
    rw [flatten_cons, length_append]
    by_cases hnil : lines = []
    · subst hnil
      rw [if_pos rfl, hall] at hloop
      have hless := (ih hrest (not_mem_nil) hloop).1
      simp only [join, flatMap_nil, append_nil, length_nil] at hless
      constructor
      · omega
      · intro _
        omega
    · rw [if_neg hnil, hall] at hloop
      have htail' : 0 ∉ tail ++ reads.flatten := by
        rw [mem_append, not_or]
        exact ⟨fun h => hzero (mem_append_left _ (hsplit ▸ mem_append_right _ h)), hrest⟩
      obtain ⟨hle, hlt⟩ := ih htail' htail hloop
      rw [length_append] at hle hlt
      refine ⟨by omega, ?_⟩
      rintro ⟨short, hmem, hshort⟩
      rcases mem_cons.mp hmem with rfl | hmem
      · have hnew : newline ∈ buf ++ short := hsplit ▸ mem_append_left _ (newline_mem_join hnil)
        exact absurd hnew (by simp [hbuf, hshort])
      · have := hlt ⟨short, hmem, hshort⟩
        omega

lemma grepLines_fst (pattern pattern' : List (BitVec 8)) (fuel : ℕ) (p out out' : List (BitVec 8)) :
    (grepLines pattern fuel p out).1 = (grepLines pattern' fuel p out').1 := by
  induction fuel generalizing p out out' with
  | zero => rfl
  | succ fuel ih =>
    rw [grepLines, grepLines]
    cases strchr newline p with
    | none => rfl
    | some q => exact ih _ _ _

lemma isSome_grepLoop (pattern pattern' : List (BitVec 8)) (reads : List (List (BitVec 8))) (buf out out' : List (BitVec 8)) :
    (grepLoop pattern reads buf out).isSome = (grepLoop pattern' reads buf out').isSome := by
  induction reads generalizing buf out out' with
  | nil => rfl
  | cons piece reads ih =>
    rw [grepLoop, grepLoop]
    split
    · rfl
    · dsimp only
      rw [grepLines_fst pattern pattern' _ _ out out']
      split
      · exact ih _ _ _
      · exact ih _ _ _

end Lines

/-- A text of whole lines is cut into the pieces that the calls of `read` give. Whatever the pattern, `grep` writes exactly
the lines that match, if and only if every piece has the end of a line. -/
theorem grep_exact_iff {lines reads : List (List (BitVec 8))} (hlines : ∀ line ∈ lines, newline ∉ line ∧ 0 ∉ line)
    (htext : reads.flatten = lines.flatMap (· ++ [newline])) (hreads : grep [] reads ≠ none) :
    (∀ pattern, grep pattern reads = some ((lines.filter (fun line => matchText pattern line)).flatMap (· ++ [newline]))) ↔
      ∀ piece ∈ reads, newline ∈ piece := by
  constructor
  · intro h piece hpiece
    by_contra hshort
    have hall := h []
    rw [filter_eq_self.mpr (fun line _ => matchText_nil line), ← htext] at hall
    have hzero : 0 ∉ [] ++ reads.flatten := by
      rw [nil_append, htext]
      exact zero_notMem_join hlines
    have hless := (grepLoop_forgets hzero not_mem_nil hall).2 ⟨piece, hpiece, hshort⟩
    simp at hless
  · intro h pattern
    have hsome : (grep pattern reads).isSome := by
      rw [grep, isSome_grepLoop pattern [] reads [] [] []]
      exact Option.isSome_iff_ne_none.mpr hreads
    obtain ⟨result, hresult⟩ := Option.isSome_iff_exists.mp hsome
    rw [hresult, grepLoop_selected h hlines not_mem_nil htext hresult]
    rfl

/-- The lines `ab` and `c` in one piece each, and a search for `c`. -/
theorem grep_exact_whole_lines : grep [0x63] [[0x61, 0x62, newline], [0x63, newline]] = some [0x63, newline] := by
  have h := (@grep_exact_iff [[0x61, 0x62], [0x63]] [[0x61, 0x62, newline], [0x63, newline]] (by decide) (by decide)
    (by decide)).mpr (by decide) [0x63]
  exact h.trans (by decide)

/-- A pipe gives the line `ab` as `a` and the rest, and then its first letter is forgotten: a search for `a` writes nothing. -/
theorem grep_forgets_cut_line : matchText [0x61] [0x61, 0x62] = true ∧
    grep [0x61] [[0x61], [0x62, newline]] = some [] ∧
    grep [0x61] [[0x61, 0x62, newline]] = some [0x61, 0x62, newline] := by
  decide

end Grep

end Xv6Bfs
