import Xv6Bfs.ShellGrammar
import Mathlib.Data.List.DropRight

/-!
# Reading tokens

What the pointer of the parser stands for is the sequence of the tokens ahead of it: `gettoken`
takes the first one off, and `peek` looks at it.
-/

namespace Xv6Bfs

open List

namespace Shell

/-- A NUL-terminated text in a buffer. -/
structure Input where
  text : Bytes
  text_ne : 0 ∉ text
  rest : Bytes

namespace Input

variable (i : Input)

def buf : Bytes := i.text ++ 0 :: i.rest

def es : ℕ := i.text.length

def ahead (s : ℕ) : List (Token Bytes) := lex (i.text.drop s)

def slice (w : Span) : Bytes := (i.text.drop w.q).take (w.eq - w.q)

structure IsWord (w : Span) : Prop where
  le : w.q ≤ w.eq
  le_es : w.eq ≤ i.es
  inside : ∀ j, w.q ≤ j → j < w.eq → wordChar (deref i.buf j)
  behind : w.eq < i.es → wordChar (deref i.buf w.eq) = false

end Input

section Text

variable {i : Input} {s : ℕ} {c : BitVec 8} {r : Bytes}

lemma lt_es (h : i.text.drop s = c :: r) : s < i.es := by
  by_contra hs
  rw [drop_eq_nil_of_le (not_lt.mp hs)] at h
  simp at h

lemma drop_succ (h : i.text.drop s = c :: r) : i.text.drop (s + 1) = r := by
  rw [← drop_drop, h, drop_one, tail_cons]

lemma deref_of_lt (hs : s < i.es) : i.text[s]? = some (deref i.buf s) := by
  have hs' : s < i.text.length := hs
  rw [deref, Input.buf, getD_eq_getElem?_getD, getElem?_append_left hs',
    getElem?_eq_getElem hs', Option.getD_some]

lemma deref_eq (h : i.text.drop s = c :: r) : deref i.buf s = c := by
  have hhead : i.text[s]? = some c := by
    rw [← head?_drop, h, head?_cons]
  exact Option.some.inj ((deref_of_lt (lt_es h)).symm.trans hhead)

lemma deref_ne_zero (h : i.text.drop s = c :: r) : c ≠ 0 := by
  rintro rfl
  refine i.text_ne (mem_of_mem_drop (i := s) ?_)
  rw [h]
  exact mem_cons_self

lemma eq_es (hs : s ≤ i.es) (h : i.text.drop s = []) : s = i.es :=
  le_antisymm hs (drop_eq_nil_iff.mp h)

@[simp]
lemma deref_es : deref i.buf i.es = 0 := by
  simp [deref, Input.buf, Input.es]

lemma deref_eq_head (hs : s ≤ i.es) : deref i.buf s = (i.text.drop s).headD 0 := by
  cases h : i.text.drop s with
  | nil => rw [eq_es hs h, deref_es, headD_nil]
  | cons c r => rw [deref_eq h, headD_cons]

lemma skipLoop_eq (p : BitVec 8 → Bool) {fuel : ℕ} (hs : s ≤ i.es) (hfuel : i.es - s ≤ fuel) :
    skipLoop i.buf i.es p fuel s = s + ((i.text.drop s).takeWhile p).length := by
  induction fuel generalizing s with
  | zero =>
    have hlen : i.es ≤ s := Nat.sub_eq_zero_iff_le.mp (Nat.le_zero.mp hfuel)
    rw [drop_eq_nil_of_le hlen]
    rfl
  | succ fuel ih =>
    rw [skipLoop]
    cases h : i.text.drop s with
    | nil =>
      rw [if_neg (by rw [eq_es hs h]; simp)]
      rfl
    | cons c r =>
      have hlt := lt_es h
      rw [deref_eq h]
      by_cases hp : p c
      · rw [if_pos ⟨hlt, hp⟩, ih (by omega) (by omega), drop_succ h, takeWhile_cons, if_pos hp,
          length_cons]
        omega
      · rw [if_neg (fun h => hp h.2), takeWhile_cons, if_neg hp]
        rfl

lemma skip_eq (p : BitVec 8 → Bool) (hs : s ≤ i.es) :
    skip i.buf i.es p s = s + ((i.text.drop s).takeWhile p).length :=
  skipLoop_eq p hs le_rfl

lemma le_skip (p : BitVec 8 → Bool) (hs : s ≤ i.es) : s ≤ skip i.buf i.es p s := by
  rw [skip_eq p hs]
  exact Nat.le_add_right _ _

lemma skip_le (p : BitVec 8 → Bool) (hs : s ≤ i.es) : skip i.buf i.es p s ≤ i.es := by
  have hlen := (takeWhile_sublist (l := i.text.drop s) p).length_le
  rw [length_drop] at hlen
  rw [skip_eq p hs]
  simp only [Input.es] at hs ⊢
  omega

lemma drop_skip (p : BitVec 8 → Bool) (hs : s ≤ i.es) :
    i.text.drop (skip i.buf i.es p s) = (i.text.drop s).dropWhile p := by
  rw [skip_eq p hs, ← drop_drop]
  nth_rewrite 2 [← takeWhile_append_dropWhile (p := p) (l := i.text.drop s)]
  rw [drop_left]

lemma slice_skip (p : BitVec 8 → Bool) (hs : s ≤ i.es) :
    i.slice ⟨s, skip i.buf i.es p s⟩ = (i.text.drop s).takeWhile p := by
  rw [Input.slice, skip_eq p hs, Nat.add_sub_cancel_left]
  nth_rewrite 2 [← takeWhile_append_dropWhile (p := p) (l := i.text.drop s)]
  rw [take_left]

lemma isWord_skip (hs : s ≤ i.es) : i.IsWord ⟨s, skip i.buf i.es wordChar s⟩ where
  le := le_skip _ hs
  le_es := skip_le _ hs
  inside := by
    intro j hj hlt
    have hmem : i.text[j]? = some (deref i.buf j) :=
      deref_of_lt (lt_of_lt_of_le hlt (skip_le _ hs))
    have htake : ((i.text.drop s).takeWhile wordChar)[j - s]? = some (deref i.buf j) := by
      rw [← slice_skip wordChar hs, Input.slice, getElem?_take_of_lt (by simp only at hlt hj ⊢; omega),
        getElem?_drop, Nat.add_sub_cancel' hj, hmem]
    exact mem_takeWhile_imp (mem_of_getElem? htake)
  behind := by
    intro hlt
    cases h : i.text.drop (skip i.buf i.es wordChar s) with
    | nil => exact absurd (eq_es (skip_le _ hs) h) hlt.ne
    | cons c r =>
      have hhead : ((i.text.drop s).dropWhile wordChar).head? = some c := by
        rw [← drop_skip _ hs, h, head?_cons]
      rw [deref_eq h]
      by_contra hc
      have := head?_dropWhile_not wordChar (i.text.drop s)
      rw [hhead] at this
      simp_all

end Text

section Lex

variable {l r : Bytes} {c : BitVec 8}

lemma lex_of_nil (h : l.dropWhile (strchr whitespace) = []) : lex l = [] := by
  rw [lex]
  split
  · rfl
  · simp_all

lemma lex_of_cons (h : l.dropWhile (strchr whitespace) = c :: r) :
    lex l = (tokenAt c r).1 :: lex (tokenAt c r).2 := by
  rw [lex]
  split
  · simp_all
  · rename_i c' r' h'
    obtain ⟨rfl, rfl⟩ := List.cons.inj (h.symm.trans h')
    rfl

@[simp]
lemma lex_dropWhile : lex (l.dropWhile (strchr whitespace)) = lex l := by
  have hidem : (l.dropWhile (strchr whitespace)).dropWhile (strchr whitespace) =
      l.dropWhile (strchr whitespace) := dropWhile_idempotent _ _
  cases h : l.dropWhile (strchr whitespace) with
  | nil => rw [lex_of_nil h, lex_of_nil rfl]
  | cons c r => rw [lex_of_cons h, lex_of_cons (h ▸ hidem)]

lemma length_lex_le (l : Bytes) : (lex l).length ≤ l.length := by
  induction hn : l.length using Nat.strong_induction_on generalizing l with
  | h n ih =>
    have hdrop := (dropWhile_sublist (l := l) (strchr whitespace)).length_le
    cases h : l.dropWhile (strchr whitespace) with
    | nil => simp [lex_of_nil h]
    | cons c r =>
      have hrest := tokenAt_length c r
      rw [h, length_cons] at hdrop
      have hlen := ih _ (by omega) (tokenAt c r).2 rfl
      rw [lex_of_cons h, length_cons]
      omega

def Token.ret {α : Type} : Token α → BitVec 8
  | .word _ => code 'a'
  | .redir .input => code '<'
  | .redir .output => code '>'
  | .redir .append => code '+'
  | .bar => code '|'
  | .amp => code '&'
  | .semi => code ';'
  | .lparen => code '('
  | .rparen => code ')'

def Token.lead {α : Type} : Token α → Option (BitVec 8)
  | .word _ => none
  | .redir .append => some (code '>')
  | t => some t.ret

def starts {α : Type} (toks : Bytes) : List (Token α) → Bool
  | [] => false
  | t :: _ => t.lead.any (strchr toks)

lemma Token.ret_ne_zero {α : Type} (t : Token α) : t.ret ≠ 0 := by
  rcases t with _ | ⟨_ | _ | _⟩ | _ | _ | _ | _ | _ <;> exact of_decide_eq_true rfl

lemma Token.ret_eq_word {α : Type} {t : Token α} : t.ret = code 'a' ↔ ∃ w, t = .word w := by
  constructor
  · rcases t with w | ⟨_ | _ | _⟩ | _ | _ | _ | _ | _ <;> intro h
    · exact ⟨w, rfl⟩
    all_goals exact absurd h (of_decide_eq_true rfl)
  · rintro ⟨w, rfl⟩
    rfl

lemma punctuation_eq_none {α : Type} (h : (punctuation c : Option (Token α)) = none) :
    strchr symbols c = false := by
  unfold punctuation at h
  split_ifs at h
  simp_all [strchr, symbols, codes]

lemma punctuation_of_mem (α : Type) (h : c ∈ codes ['|', '(', ')', ';', '&', '<']) :
    ∃ t : Token α, punctuation c = some t ∧ t ≠ .redir .output ∧ t.ret = c ∧ t.lead = some c := by
  simp only [codes, map_cons, map_nil, mem_cons, not_mem_nil, or_false] at h
  rcases h with rfl | rfl | rfl | rfl | rfl | rfl
  · exact ⟨.bar, rfl, by simp, rfl, rfl⟩
  · exact ⟨.lparen, rfl, by simp, rfl, rfl⟩
  · exact ⟨.rparen, rfl, by simp, rfl, rfl⟩
  · exact ⟨.semi, rfl, by simp, rfl, rfl⟩
  · exact ⟨.amp, rfl, by simp, rfl, rfl⟩
  · exact ⟨.redir .input, rfl, by simp, rfl, rfl⟩

lemma punctuation_of_not_mem (α : Type) (h : c ∉ codes ['|', '(', ')', ';', '&', '<'])
    (hgt : c ≠ code '>') : (punctuation c : Option (Token α)) = none := by
  simp only [codes, map_cons, map_nil, mem_cons, not_mem_nil, or_false, not_or] at h
  simp [punctuation, h, hgt]

end Lex

section Tokens

variable {i : Input} {s : ℕ} {c : BitVec 8} {r : Bytes}

/-- The scan stops at the end of the next token. -/
lemma scan_spec (h : i.text.drop s = c :: r) (hc : strchr whitespace c = false) :
    (scan i.buf i.es s).1 = (tokenAt c r).1.ret ∧
      i.text.drop (scan i.buf i.es s).2 = (tokenAt c r).2 ∧ (scan i.buf i.es s).2 ≤ i.es ∧
      ∀ w, (tokenAt c r).1 = .word w →
        i.slice ⟨s, (scan i.buf i.es s).2⟩ = w ∧ i.IsWord ⟨s, (scan i.buf i.es s).2⟩ := by
  have hlt := lt_es h
  have hnext := drop_succ h
  simp only [scan, deref_eq h, if_neg (deref_ne_zero h)]
  by_cases hsym : c ∈ codes ['|', '(', ')', ';', '&', '<']
  · obtain ⟨t, ht, hne, hret, hlead⟩ := punctuation_of_mem Bytes hsym
    rw [if_pos hsym, tokenAt, ht]
    simp only [hne, false_and, if_false]
    refine ⟨hret.symm, hnext, hlt, ?_⟩
    rintro w rfl
    exact absurd hlead (by simp [Token.lead])
  rw [if_neg hsym]
  by_cases hgt : c = code '>'
  · have hp : (punctuation c : Option (Token Bytes)) = some (.redir .output) := by
      rw [hgt]
      rfl
    have hhead : r.head? = some (code '>') ↔ deref i.buf (s + 1) = code '>' := by
      rw [deref_eq_head hlt, hnext]
      cases r with
      | nil => simp [code]
      | cons d r => simp
    rw [if_pos hgt, tokenAt, hp]
    simp only [true_and, hhead]
    split_ifs with hgg
    · obtain ⟨r', hr'⟩ : ∃ r', r = code '>' :: r' := by
        cases r with
        | nil => simp [hgg] at hhead
        | cons d r => exact ⟨r, by simpa using hhead.mpr hgg⟩
      rw [hr'] at hnext
      exact ⟨rfl, by rw [drop_succ hnext, hr', tail_cons], lt_es hnext, by simp⟩
    · exact ⟨by rw [hgt]; rfl, hnext, hlt, by simp⟩
  -- everything else begins a word
  have hp := punctuation_of_not_mem Bytes hsym hgt
  have hword : wordChar c := by
    simp [wordChar, hc, punctuation_eq_none hp]
  rw [if_neg hgt, tokenAt, hp]
  refine ⟨rfl, ?_, skip_le _ hlt.le, ?_⟩
  · rw [drop_skip _ hlt.le, h, dropWhile_cons, if_pos hword]
  · rintro w hw
    refine ⟨?_, isWord_skip hlt.le⟩
    rw [slice_skip _ hlt.le, h, takeWhile_cons, if_pos hword]
    exact Token.word.inj hw

lemma not_blank (hs : s ≤ i.es)
    (h : i.text.drop (skip i.buf i.es (strchr whitespace) s) = c :: r) :
    strchr whitespace c = false := by
  have hhead := head?_dropWhile_not (strchr whitespace) (i.text.drop s)
  rw [← drop_skip _ hs, h] at hhead
  simpa using hhead

lemma ahead_skip (hs : s ≤ i.es) : i.ahead (skip i.buf i.es (strchr whitespace) s) = i.ahead s := by
  rw [Input.ahead, drop_skip _ hs, lex_dropWhile, Input.ahead]

lemma ahead_eq_nil (hs : s ≤ i.es) : i.ahead s = [] ↔ skip i.buf i.es (strchr whitespace) s = i.es := by
  rw [Input.ahead]
  cases h : i.text.drop (skip i.buf i.es (strchr whitespace) s) with
  | nil => simp [lex_of_nil (drop_skip _ hs ▸ h), eq_es (skip_le _ hs) h]
  | cons c r => simp [lex_of_cons (drop_skip _ hs ▸ h), (lt_es h).ne]

lemma gettoken_of_nil (hs : s ≤ i.es) (h : i.ahead s = []) :
    (gettoken i.buf i.es s).ret = 0 ∧ (gettoken i.buf i.es s).ps ≤ i.es ∧
      i.ahead (gettoken i.buf i.es s).ps = [] := by
  have hq := (ahead_eq_nil hs).mp h
  have hscan : scan i.buf i.es i.es = (0, i.es) := by simp [scan]
  have hps : (gettoken i.buf i.es s).ps = skip i.buf i.es (strchr whitespace) i.es := by
    simp [gettoken, hq, hscan]
  refine ⟨by simp [gettoken, hq, hscan], ?_, ?_⟩
  · rw [hps]
    exact skip_le _ le_rfl
  · rw [hps, ahead_skip le_rfl, ahead_eq_nil le_rfl]
    exact le_antisymm (skip_le _ le_rfl) (le_skip _ le_rfl)

lemma gettoken_of_cons {t : Token Bytes} {ts : List (Token Bytes)}
    (hs : s ≤ i.es) (h : i.ahead s = t :: ts) :
    (gettoken i.buf i.es s).ret = t.ret ∧ (gettoken i.buf i.es s).ps ≤ i.es ∧
      i.ahead (gettoken i.buf i.es s).ps = ts ∧
      ∀ w, t = .word w → i.slice ⟨(gettoken i.buf i.es s).q, (gettoken i.buf i.es s).eq⟩ = w ∧
        i.IsWord ⟨(gettoken i.buf i.es s).q, (gettoken i.buf i.es s).eq⟩ := by
  cases hq : i.text.drop (skip i.buf i.es (strchr whitespace) s) with
  | nil => simp [Input.ahead, lex_of_nil (drop_skip _ hs ▸ hq)] at h
  | cons c r =>
    obtain ⟨hret, hdrop, hle, hword⟩ := scan_spec hq (not_blank hs hq)
    rw [Input.ahead, lex_of_cons (drop_skip _ hs ▸ hq)] at h
    obtain ⟨rfl, rfl⟩ := List.cons.inj h
    refine ⟨hret, skip_le _ hle, ?_, hword⟩
    have hps : (gettoken i.buf i.es s).ps = skip i.buf i.es (strchr whitespace)
        (scan i.buf i.es (skip i.buf i.es (strchr whitespace) s)).2 := rfl
    rw [hps, ahead_skip hle, Input.ahead, hdrop]

lemma lead_tokenAt {toks : Bytes} (htoks : toks ⊆ symbols) :
    (tokenAt c r).1.lead.any (strchr toks) = strchr toks c := by
  by_cases hsym : c ∈ codes ['|', '(', ')', ';', '&', '<']
  · obtain ⟨t, ht, hne, -, hlead⟩ := punctuation_of_mem Bytes hsym
    simp [tokenAt, ht, hne, hlead]
  by_cases hgt : c = code '>'
  · have hp : (punctuation c : Option (Token Bytes)) = some (.redir .output) := by
      rw [hgt]
      rfl
    rw [tokenAt, hp, hgt]
    dsimp only
    split_ifs <;> rfl
  have hp := punctuation_of_not_mem Bytes hsym hgt
  have hno := punctuation_eq_none hp
  have hno' : strchr toks c = false := by
    simp only [strchr, contains_eq_mem, decide_eq_false_iff_not] at hno ⊢
    exact fun hmem => hno (htoks hmem)
  rw [tokenAt, hp, hno']
  rfl

lemma peek_spec {toks : Bytes} (hs : s ≤ i.es) (htoks : toks ⊆ symbols) :
    (peek i.buf i.es toks s).1 = starts toks (i.ahead s) ∧ (peek i.buf i.es toks s).2 ≤ i.es ∧
      i.ahead (peek i.buf i.es toks s).2 = i.ahead s := by
  refine ⟨?_, skip_le _ hs, ahead_skip hs⟩
  simp only [peek]
  cases hq : i.text.drop (skip i.buf i.es (strchr whitespace) s) with
  | nil =>
    rw [(ahead_eq_nil hs).mpr (eq_es (skip_le _ hs) hq), eq_es (skip_le _ hs) hq]
    simp [starts]
  | cons c r =>
    have hne : c ≠ 0 := deref_ne_zero hq
    rw [Input.ahead, lex_of_cons (drop_skip _ hs ▸ hq), starts, lead_tokenAt htoks, deref_eq hq,
      decide_eq_true hne, Bool.true_and]

end Tokens

end Shell

end Xv6Bfs
