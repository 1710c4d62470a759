import Xv6Bfs.Library.Outcome
import Xv6Bfs.Proofs.ShellTokens

/-!
# The parser accepts its grammar

Two directions. A run of a parsing function ends, and when it returns the tokens it took derive the
command it built (`Parsed`). And a derivation is followed by the run, whatever stands behind it
that may stand behind its nonterminal (`Follow`).
-/

namespace Xv6Bfs

open List

namespace Shell

section Commands

variable {α β : Type} {f : α → β} {c : Cmd α} {rs : List (Redir α)}

def Cmd.words : Cmd α → List α
  | .exec argv => argv
  | .redir cmd file _ _ => cmd.words ++ [file]
  | .pipe left right => left.words ++ right.words
  | .list left right => left.words ++ right.words
  | .back cmd => cmd.words

lemma words_iterate_back (n : ℕ) : (Cmd.back^[n] c).words = c.words := by
  induction n generalizing c with
  | zero => rfl
  | succ n ih => exact ih

lemma Cmd.words_map (f : α → β) (c : Cmd α) : (c.map f).words = c.words.map f := by
  induction c with
  | exec argv => rfl
  | redir cmd file mode fd ih => simp [Cmd.map, Cmd.words, ih]
  | pipe left right ihl ihr => simp [Cmd.map, Cmd.words, ihl, ihr]
  | list left right ihl ihr => simp [Cmd.map, Cmd.words, ihl, ihr]
  | back cmd ih => exact ih

lemma words_foldl_wrap : (rs.foldl Cmd.wrap c).words = c.words ++ rs.map Redir.file := by
  induction rs generalizing c with
  | nil => exact (append_nil _).symm
  | cons r rs ih =>
    rw [foldl_cons, ih, map_cons]
    exact append_assoc ..

lemma Cmd.map_congr {f g : α → β} (h : ∀ w ∈ c.words, f w = g w) : c.map f = c.map g := by
  induction c with
  | exec argv => simpa [Cmd.map, Cmd.words] using h
  | redir cmd file mode fd ih =>
    simp only [Cmd.words, mem_append, mem_singleton] at h
    simp [Cmd.map, ih fun w hw => h w (.inl hw), h file (.inr rfl)]
  | pipe left right ihl ihr | list left right ihl ihr =>
    simp only [Cmd.words, mem_append] at h
    simp [Cmd.map, ihl fun w hw => h w (.inl hw), ihr fun w hw => h w (.inr hw)]
  | back cmd ih => simp [Cmd.map, ih h]

lemma Cmd.map_addArg (w : α) : (c.addArg w).map f = (c.map f).addArg (f w) := by
  induction c with
  | exec argv => simp [Cmd.addArg, Cmd.map]
  | redir cmd file mode fd ih => simp [Cmd.addArg, Cmd.map, ih]
  | pipe left right => rfl
  | list left right => rfl
  | back cmd => rfl

lemma Cmd.addArg_foldl (w : α) : (rs.foldl Cmd.wrap c).addArg w = rs.foldl Cmd.wrap (c.addArg w) := by
  induction rs generalizing c with
  | nil => rfl
  | cons r rs ih => exact ih

lemma Cmd.mem_words_addArg {w v : α} (h : v ∈ (c.addArg w).words) : v ∈ c.words ∨ v = w := by
  induction c with
  | exec argv => simpa [Cmd.addArg, Cmd.words] using h
  | redir cmd file mode fd ih =>
    simp only [Cmd.addArg, Cmd.words, mem_append, mem_singleton] at h ⊢
    rcases h with h | h
    · exact (ih h).imp .inl id
    · exact .inl (.inr h)
  | pipe left right => exact .inl h
  | list left right => exact .inl h
  | back cmd => exact .inl h

lemma redircmd_ret {γ : Type} (op : Op) (cmd : Cmd Span) (w : Span) :
    redircmd (Token.redir op : Token γ).ret cmd w = cmd.wrap ⟨op, w⟩ := by
  cases op <;> rfl

end Commands

section Starts

variable {α : Type} {ts : List (Token α)}

lemma starts_redir (h : starts (codes ['<', '>']) ts) : ∃ op us, ts = .redir op :: us := by
  rcases ts with _ | ⟨w | op | _ | _ | _ | _ | _, us⟩
  case cons.redir => exact ⟨op, us, rfl⟩
  all_goals exact absurd h (of_decide_eq_true rfl)

def Token.Single (t : Token α) : Prop := t ∈ [.bar, .amp, .semi, .lparen, .rparen]

lemma starts_single {t : Token α} (ht : t.Single) (h : starts [t.ret] ts) : ∃ us, ts = t :: us := by
  rcases ts with _ | ⟨u, us⟩
  · exact absurd h (by simp [starts])
  refine ⟨us, ?_⟩
  simp only [Token.Single, mem_cons, not_mem_nil, or_false] at ht
  rcases ht with rfl | rfl | rfl | rfl | rfl <;>
    rcases u with w | ⟨_ | _ | _⟩ | _ | _ | _ | _ | _ <;>
    first | rfl | exact absurd h (of_decide_eq_true rfl)

end Starts

variable {i : Input} {s fuel : ℕ}

/-- A pointer within the text that has the tokens `ts` ahead of it. -/
def Input.At (i : Input) (ts : List (Token Bytes)) (s : ℕ) : Prop :=
  s ≤ i.es ∧ i.ahead s = ts

section Reading

variable {t : Token Bytes} {ts : List (Token Bytes)}

lemma Input.At.peek (h : i.At ts s) (toks : Bytes) (htoks : toks ⊆ symbols) :
    (peek i.buf i.es toks s).1 = starts toks ts ∧ i.At ts (peek i.buf i.es toks s).2 := by
  obtain ⟨hs, rfl⟩ := h
  obtain ⟨hlook, hle, hahead⟩ := peek_spec hs htoks
  exact ⟨hlook, hle, hahead⟩

lemma Input.At.next (h : i.At (t :: ts) s) : i.At ts (gettoken i.buf i.es s).ps := by
  obtain ⟨-, hle, hahead, -⟩ := gettoken_of_cons h.1 h.2
  exact ⟨hle, hahead⟩

lemma Input.At.ret (h : i.At (t :: ts) s) : (gettoken i.buf i.es s).ret = t.ret :=
  (gettoken_of_cons h.1 h.2).1

lemma Input.At.word {w : Bytes} (h : i.At (.word w :: ts) s) :
    i.slice ⟨(gettoken i.buf i.es s).q, (gettoken i.buf i.es s).eq⟩ = w ∧
      i.IsWord ⟨(gettoken i.buf i.es s).q, (gettoken i.buf i.es s).eq⟩ :=
  (gettoken_of_cons h.1 h.2).2.2.2 w rfl

lemma Input.At.ret_of_nil (h : i.At [] s) : (gettoken i.buf i.es s).ret = 0 :=
  (gettoken_of_nil h.1 h.2).1

lemma Input.At.ret_eq_word (h : i.At ts s) :
    (gettoken i.buf i.es s).ret = code 'a' ↔ ∃ w us, ts = .word w :: us := by
  cases ts with
  | nil =>
    rw [h.ret_of_nil]
    simp [code]
  | cons t ts =>
    rw [h.ret, Token.ret_eq_word]
    simp

lemma Input.At.ret_eq_zero (h : i.At ts s) : (gettoken i.buf i.es s).ret = 0 ↔ ts = [] := by
  cases ts with
  | nil => simp [h.ret_of_nil]
  | cons t ts =>
    rw [h.ret]
    exact iff_of_false t.ret_ne_zero (cons_ne_nil _ _)

end Reading

/-- What a parsing function that started at the tokens `ts` returns: the pointer behind a prefix of
them, and a command for that prefix. -/
structure Parsed (i : Input) (ts : List (Token Bytes))
    (A : List (Token Bytes) → Cmd Bytes → Prop) (x : Cmd Span × ℕ) : Prop where
  words : ∀ w ∈ x.1.words, i.IsWord w
  derives : ∃ us vs, ts = us ++ vs ∧ i.At vs x.2 ∧ A us (x.1.map i.slice)

def Ends {α : Type} (x : Except Stop α) (post : α → Prop) : Prop :=
  Outcome.Spec x post (· ≠ .diverges)

section Sound

variable {cmd : Cmd Span} {ts : List (Token Bytes)}

lemma parseredirs_ends (hs : i.At ts s) (hcmd : ∀ w ∈ cmd.words, i.IsWord w)
    (hfuel : ts.length < fuel) :
    Ends (parseredirs i.buf i.es fuel cmd s)
      (Parsed i ts fun us c => ∃ rs, Redirs us rs ∧ c = rs.foldl Cmd.wrap (cmd.map i.slice)) := by
  induction fuel generalizing cmd s ts with
  | zero => omega
  | succ fuel ih =>
    rw [parseredirs]
    obtain ⟨hlook, hs'⟩ := hs.peek (codes ['<', '>']) (of_decide_eq_true rfl)
    simp only [hlook]
    split_ifs with hstart hfile
    · simp [Ends]
    · obtain ⟨op, us, rfl⟩ := starts_redir hstart
      obtain ⟨w, vs, rfl⟩ := hs'.next.ret_eq_word.mp (not_not.mp hfile)
      obtain ⟨hw, hword⟩ := hs'.next.word
      rw [hs'.ret, redircmd_ret]
      refine (ih hs'.next.next ?_ (by simp at hfuel; omega)).imp ?_
      · intro v hv
        rcases mem_append.mp hv with hv | hv
        · exact hcmd v hv
        · rw [mem_singleton.mp hv]
          exact hword
      · rintro x ⟨hx, us, ws, rfl, hat, rs, hrs, hmap⟩
        refine ⟨hx, _, ws, rfl, hat, _, hrs.cons op w, ?_⟩
        rw [hmap, foldl_cons, ← hw]
        rfl
    · exact ⟨hcmd, [], ts, rfl, hs', [], .nil, rfl⟩

lemma argLoop_ends {argc : ℕ} {argv : List Bytes} {rs : List (Redir Bytes)}
    (hs : i.At ts s) (hcmd : ∀ w ∈ cmd.words, i.IsWord w)
    (hmap : cmd.map i.slice = rs.foldl Cmd.wrap (.exec argv)) (hargc : argv.length = argc)
    (hmax : argc < MAXARGS) (hfuel : ts.length < fuel) :
    Ends (argLoop i.buf i.es fuel argc cmd s)
      (Parsed i ts fun us c => ∃ ws ss, Words us ws ss ∧ argc + ws.length < MAXARGS ∧
        c = (rs ++ ss).foldl Cmd.wrap (.exec (argv ++ ws))) := by
  induction fuel generalizing cmd s ts argc argv rs with
  | zero => omega
  | succ fuel ih =>
    have hdone : ∀ {s'}, i.At ts s' →
        Parsed i ts (fun us c => ∃ ws ss, Words us ws ss ∧ argc + ws.length < MAXARGS ∧
          c = (rs ++ ss).foldl Cmd.wrap (.exec (argv ++ ws))) (cmd, s') := by
      intro s' hs'
      exact ⟨hcmd, [], ts, rfl, hs', [], [], .nil, hmax, by simpa using hmap⟩
    rw [argLoop]
    obtain ⟨hlook, hs'⟩ := hs.peek (codes ['|', ')', '&', ';']) (of_decide_eq_true rfl)
    simp only [hlook]
    split_ifs with hstart hzero hword hlt
    · exact hdone hs'
    · obtain rfl := hs'.ret_eq_zero.mp hzero
      obtain ⟨-, hle, hnil⟩ := gettoken_of_nil hs'.1 hs'.2
      exact hdone ⟨hle, hnil⟩
    · simp [Ends]
    · simp [Ends]
    obtain ⟨w, us, rfl⟩ := hs'.ret_eq_word.mp (not_not.mp hword)
    obtain ⟨hw, hspan⟩ := hs'.word
    simp only [length_cons] at hfuel
    refine Outcome.Spec.bind (parseredirs_ends hs'.next ?_ (by omega)) ?_
    · intro v hv
      rcases Cmd.mem_words_addArg hv with hv | rfl
      · exact hcmd v hv
      · exact hspan
    rintro ⟨cmd', s₁⟩ ⟨hcmd', us, vs, rfl, hs₁, ss, hss, hmap'⟩
    rw [Cmd.map_addArg, hmap, Cmd.addArg_foldl, Cmd.addArg, hw, ← foldl_append] at hmap'
    rw [length_append] at hfuel
    refine (ih hs₁ hcmd' hmap' (by simp [hargc]) (by omega) (by omega)).imp ?_
    rintro x ⟨hx, us', vs', rfl, hat, ws, ss', hws, hlen, hres⟩
    refine ⟨hx, _, vs', by simp, hat, _, _, hws.cons w hss, ?_, ?_⟩
    · rw [length_cons]
      omega
    · simpa using hres

lemma backLoop_ends (hs : i.At ts s) (hfuel : ts.length < fuel) :
    Ends (backLoop i.buf i.es fuel cmd s) (fun x => ∃ n vs, ts = List.replicate n .amp ++ vs ∧
      i.At vs x.2 ∧ x.1 = Cmd.back^[n] cmd) := by
  induction fuel generalizing cmd s ts with
  | zero => omega
  | succ fuel ih =>
    rw [backLoop]
    obtain ⟨hlook, hs'⟩ := hs.peek (codes ['&']) (of_decide_eq_true rfl)
    simp only [hlook]
    split_ifs with hstart
    · obtain ⟨us, rfl⟩ := starts_single (t := .amp) (by simp [Token.Single]) hstart
      refine (ih hs'.next (by simpa using hfuel)).imp ?_
      rintro x ⟨n, vs, rfl, hat, hx⟩
      exact ⟨n + 1, vs, rfl, hat, hx⟩
    · exact ⟨0, ts, rfl, hs', rfl⟩

lemma map_iterate_back {β : Type} (f : Span → β) (n : ℕ) :
    (Cmd.back^[n] cmd).map f = Cmd.back^[n] (cmd.map f) := by
  induction n generalizing cmd with
  | zero => rfl
  | succ n ih => exact ih

/-- With this fuel a parsing function ends if the tokens ahead are few enough, and builds what it
took. Four calls lie between a call of `parseline` and the next one further down, which has one
token less ahead. -/
structure ParserEnds (i : Input) (fuel : ℕ) : Prop where
  line : ∀ {ts s}, i.At ts s → 4 * ts.length + 4 ≤ fuel →
    Ends (parseline i.buf i.es fuel s) (Parsed i ts (Derives .line))
  pipe : ∀ {ts s}, i.At ts s → 4 * ts.length + 3 ≤ fuel →
    Ends (parsepipe i.buf i.es fuel s) (Parsed i ts (Derives .pipe))
  exec : ∀ {ts s}, i.At ts s → 4 * ts.length + 2 ≤ fuel →
    Ends (parseexec i.buf i.es fuel s) (Parsed i ts (Derives .exec))
  block : ∀ {ts s}, i.At ts s → 4 * ts.length + 1 ≤ fuel →
    Ends (parseblock i.buf i.es fuel s) (Parsed i ts (Derives .exec))

namespace ParserEnds

lemma line_succ (h : ParserEnds i fuel) (hs : i.At ts s) (hfuel : 4 * ts.length + 4 ≤ fuel + 1) :
    Ends (parseline i.buf i.es (fuel + 1) s) (Parsed i ts (Derives .line)) := by
  rw [parseline]
  refine Outcome.Spec.bind (h.pipe hs (by omega)) ?_
  rintro ⟨cmd, s₁⟩ ⟨hcmd, us, vs, rfl, hs₁, hder⟩
  rw [length_append] at hfuel
  refine Outcome.Spec.bind (backLoop_ends hs₁ (by omega)) ?_
  rintro ⟨cmd', s₂⟩ ⟨n, vs, rfl, hs₂, rfl⟩
  have hwords : ∀ w ∈ (Cmd.back^[n] cmd).words, i.IsWord w := by
    rwa [words_iterate_back]
  obtain ⟨hlook, hs₃⟩ := hs₂.peek (codes [';']) (of_decide_eq_true rfl)
  simp only [hlook]
  split_ifs with hstart
  · obtain ⟨vs, rfl⟩ := starts_single (t := .semi) (by simp [Token.Single]) hstart
    rw [length_append, length_cons] at hfuel
    refine Outcome.Spec.bind (h.line hs₃.next (by omega)) ?_
    rintro ⟨right, s₄⟩ ⟨hright, us', vs', rfl, hs₄, hder'⟩
    refine ⟨fun w hw => (mem_append.mp hw).elim (hwords w) (hright w),
      us ++ List.replicate n .amp ++ .semi :: us', vs', by simp, hs₄, ?_⟩
    rw [Cmd.map, map_iterate_back]
    exact .list n hder hder'
  · refine ⟨hwords, us ++ List.replicate n .amp, vs, (append_assoc _ _ _).symm, hs₃, ?_⟩
    rw [map_iterate_back]
    exact .line n hder

lemma pipe_succ (h : ParserEnds i fuel) (hs : i.At ts s) (hfuel : 4 * ts.length + 3 ≤ fuel + 1) :
    Ends (parsepipe i.buf i.es (fuel + 1) s) (Parsed i ts (Derives .pipe)) := by
  rw [parsepipe]
  refine Outcome.Spec.bind (h.exec hs (by omega)) ?_
  rintro ⟨cmd, s₁⟩ ⟨hcmd, us, vs, rfl, hs₁, hder⟩
  obtain ⟨hlook, hs₂⟩ := hs₁.peek (codes ['|']) (of_decide_eq_true rfl)
  simp only [hlook]
  split_ifs with hstart
  · obtain ⟨vs, rfl⟩ := starts_single (t := .bar) (by simp [Token.Single]) hstart
    rw [length_append, length_cons] at hfuel
    refine Outcome.Spec.bind (h.pipe hs₂.next (by omega)) ?_
    rintro ⟨right, s₃⟩ ⟨hright, us', vs', rfl, hs₃, hder'⟩
    exact ⟨fun w hw => (mem_append.mp hw).elim (hcmd w) (hright w),
      us ++ .bar :: us', vs', by simp, hs₃, .pipe hder hder'⟩
  · exact ⟨hcmd, us, vs, rfl, hs₂, .exec hder⟩

lemma exec_succ (h : ParserEnds i fuel) (hs : i.At ts s) (hfuel : 4 * ts.length + 2 ≤ fuel + 1) :
    Ends (parseexec i.buf i.es (fuel + 1) s) (Parsed i ts (Derives .exec)) := by
  rw [parseexec]
  obtain ⟨hlook, hs₁⟩ := hs.peek (codes ['(']) (of_decide_eq_true rfl)
  simp only [hlook]
  split_ifs with hstart
  · exact h.block hs₁ (by omega)
  refine Outcome.Spec.bind (parseredirs_ends hs₁ (by simp [execcmd, Cmd.words]) (by omega)) ?_
  rintro ⟨ret, s₂⟩ ⟨hret, us, vs, rfl, hs₂, rs, hrs, hmap⟩
  rw [length_append] at hfuel
  refine (argLoop_ends hs₂ hret hmap rfl (by simp [MAXARGS]) (by omega)).imp ?_
  rintro x ⟨hx, us', vs', rfl, hat, ws, ss, hws, hlen, hres⟩
  refine ⟨hx, _, vs', (append_assoc _ _ _).symm, hat, ?_⟩
  rw [hres]
  exact .words hrs hws (by simpa using hlen)

lemma block_succ (h : ParserEnds i fuel) (hs : i.At ts s)
    (hfuel : 4 * ts.length + 1 ≤ fuel + 1) :
    Ends (parseblock i.buf i.es (fuel + 1) s) (Parsed i ts (Derives .exec)) := by
  rw [parseblock]
  obtain ⟨hlook, hs₁⟩ := hs.peek (codes ['(']) (of_decide_eq_true rfl)
  simp only [hlook]
  split_ifs with hstart
  · simp [Ends]
  have hopen : starts (codes ['(']) ts = true := by simpa using hstart
  obtain ⟨us, rfl⟩ := starts_single (t := .lparen) (by simp [Token.Single]) hopen
  rw [length_cons] at hfuel
  refine Outcome.Spec.bind (h.line hs₁.next (by omega)) ?_
  rintro ⟨cmd, s₂⟩ ⟨hcmd, us, vs, rfl, hs₂, hder⟩
  obtain ⟨hlook', hs₃⟩ := hs₂.peek (codes [')']) (of_decide_eq_true rfl)
  simp only [hlook']
  split_ifs with hend
  · simp
  have hclose : starts (codes [')']) vs = true := by simpa using hend
  obtain ⟨vs, rfl⟩ := starts_single (t := .rparen) (by simp [Token.Single]) hclose
  rw [length_append, length_cons] at hfuel
  refine (parseredirs_ends hs₃.next hcmd (by omega)).imp ?_
  rintro x ⟨hx, us', vs', rfl, hat, rs, hrs, hres⟩
  refine ⟨hx, .lparen :: (us ++ .rparen :: us'), vs', by simp, hat, ?_⟩
  rw [hres]
  exact .block hder hrs

end ParserEnds

lemma parserEnds (i : Input) (fuel : ℕ) : ParserEnds i fuel := by
  induction fuel with
  | zero => constructor <;> intros <;> omega
  | succ fuel ih => exact ⟨ih.line_succ, ih.pipe_succ, ih.exec_succ, ih.block_succ⟩

end Sound

section Complete

variable {cmd : Cmd Span} {ts us rest : List (Token Bytes)} {rs : List (Redir Bytes)}

lemma Redirs.starts_eq_false {toks : Bytes} (h : Redirs ts rs)
    (htoks : ∀ op, (Token.redir op : Token Bytes).lead.any (strchr toks) = false)
    (hrest : starts toks rest = false) : starts toks (ts ++ rest) = false := by
  cases h with
  | nil => exact hrest
  | cons op w h => exact htoks op

lemma Words.starts_eq_false {ws : List Bytes} {toks : Bytes} (h : Words ts ws rs)
    (hrest : starts toks rest = false) : starts toks (ts ++ rest) = false := by
  cases h with
  | nil => exact hrest
  | cons w hr h => rfl

def Returns (i : Input) (x : Except Stop (Cmd Span × ℕ)) (c : Cmd Bytes)
    (rest : List (Token Bytes)) : Prop :=
  ∃ cmd s, x = .ok (cmd, s) ∧ cmd.map i.slice = c ∧ i.At rest s

lemma Returns.bind {x : Except Stop (Cmd Span × ℕ)} {c d : Cmd Bytes}
    {rest' : List (Token Bytes)} {f : Cmd Span × ℕ → Except Stop (Cmd Span × ℕ)}
    (h : Returns i x c rest)
    (hf : ∀ cmd s, cmd.map i.slice = c → i.At rest s → Returns i (f (cmd, s)) d rest') :
    Returns i (x >>= f) d rest' := by
  obtain ⟨cmd, s, rfl, hcmd, hs⟩ := h
  exact hf cmd s hcmd hs

lemma parseredirs_returns (cmd : Cmd Span) (h : Redirs ts rs) (hs : i.At (ts ++ rest) s)
    (hrest : starts (codes ['<', '>']) rest = false) (hfuel : ts.length < fuel) :
    Returns i (parseredirs i.buf i.es fuel cmd s) (rs.foldl Cmd.wrap (cmd.map i.slice)) rest := by
  induction h generalizing cmd s fuel with
  | nil =>
    obtain ⟨fuel, rfl⟩ := Nat.exists_eq_succ_of_ne_zero (Nat.ne_zero_of_lt hfuel)
    obtain ⟨hlook, hs'⟩ := hs.peek (codes ['<', '>']) (of_decide_eq_true rfl)
    rw [nil_append, hrest] at hlook
    rw [parseredirs]
    simp only [hlook]
    exact ⟨cmd, _, rfl, rfl, hs'⟩
  | @cons ts rs op w h ih =>
    obtain ⟨fuel, rfl⟩ := Nat.exists_eq_succ_of_ne_zero (Nat.ne_zero_of_lt hfuel)
    obtain ⟨hlook, hs'⟩ := hs.peek (codes ['<', '>']) (of_decide_eq_true rfl)
    have hstart : starts (codes ['<', '>']) (.redir op :: .word w :: ts ++ rest) = true := by
      cases op <;> rfl
    obtain ⟨hw, -⟩ := hs'.next.word
    have hfile : (gettoken i.buf i.es
        (gettoken i.buf i.es (peek i.buf i.es (codes ['<', '>']) s).2).ps).ret = code 'a' :=
      hs'.next.ret
    simp only [length_cons] at hfuel
    rw [parseredirs]
    simp only [hlook, hstart, if_true, hs'.ret, redircmd_ret, hfile, ne_eq, not_true_eq_false, if_false]
    rw [foldl_cons, ← hw]
    exact ih _ hs'.next.next (by omega)

lemma argLoop_returns {argc : ℕ} {argv ws : List Bytes} {ss : List (Redir Bytes)}
    (h : Words us ws ss) (hs : i.At (us ++ rest) s)
    (hmap : cmd.map i.slice = rs.foldl Cmd.wrap (.exec argv))
    (hrest : rest = [] ∨ starts (codes ['|', ')', '&', ';']) rest)
    (hredir : starts (codes ['<', '>']) rest = false)
    (hmax : argc + ws.length < MAXARGS) (hfuel : us.length < fuel) :
    Returns i (argLoop i.buf i.es fuel argc cmd s)
      ((rs ++ ss).foldl Cmd.wrap (.exec (argv ++ ws))) rest := by
  induction h generalizing cmd s fuel argc argv rs with
  | nil =>
    obtain ⟨fuel, rfl⟩ := Nat.exists_eq_succ_of_ne_zero (Nat.ne_zero_of_lt hfuel)
    obtain ⟨hlook, hs'⟩ := hs.peek (codes ['|', ')', '&', ';']) (of_decide_eq_true rfl)
    rw [nil_append] at hlook hs'
    rw [argLoop, append_nil, append_nil]
    simp only [hlook]
    rcases hrest with rfl | hrest
    · obtain ⟨hzero, hle, hnil⟩ := gettoken_of_nil hs'.1 hs'.2
      rw [starts, if_neg (by simp), if_pos hzero]
      exact ⟨cmd, _, rfl, hmap, hle, hnil⟩
    · rw [if_pos hrest]
      exact ⟨cmd, _, rfl, hmap, hs'⟩
  | @cons ts rs' us ws ss w hr h ih =>
    obtain ⟨fuel, rfl⟩ := Nat.exists_eq_succ_of_ne_zero (Nat.ne_zero_of_lt hfuel)
    obtain ⟨hlook, hs'⟩ := hs.peek (codes ['|', ')', '&', ';']) (of_decide_eq_true rfl)
    have hstart : starts (codes ['|', ')', '&', ';']) (.word w :: (ts ++ us) ++ rest) = false := rfl
    obtain ⟨hw, -⟩ := hs'.word
    have hret : (gettoken i.buf i.es (peek i.buf i.es (codes ['|', ')', '&', ';']) s).2).ret =
        code 'a' := hs'.ret
    have hat := hs'.next
    rw [show (ts ++ us).append rest = ts ++ (us ++ rest) from append_assoc ts us rest] at hat
    simp only [length_cons, length_append] at hfuel hmax
    have hlen : ts.length < fuel := by omega
    obtain ⟨cmd', s₁, hredirs, hmap', hs₁⟩ :=
      parseredirs_returns (cmd.addArg ⟨_, _⟩) hr hat (h.starts_eq_false hredir) hlen
    rw [Cmd.map_addArg, hmap, Cmd.addArg_foldl, Cmd.addArg, hw, ← foldl_append] at hmap'
    rw [argLoop]
    simp only [hlook, hstart, hret]
    rw [if_neg (by simp), if_neg (by decide), if_neg (by simp), if_neg (by omega), hredirs]
    have hnext : argc + 1 + ws.length < MAXARGS := by omega
    have hlen' : us.length < fuel := by omega
    have hres := ih hs₁ hmap' hnext hlen'
    rw [append_assoc, append_assoc] at hres
    exact hres

lemma backLoop_returns {n : ℕ} (hs : i.At (List.replicate n .amp ++ rest) s)
    (hrest : starts (codes ['&']) rest = false) (hfuel : n < fuel) :
    Returns i (backLoop i.buf i.es fuel cmd s) (Cmd.back^[n] (cmd.map i.slice)) rest := by
  induction n generalizing cmd s fuel with
  | zero =>
    obtain ⟨fuel, rfl⟩ := Nat.exists_eq_succ_of_ne_zero (Nat.ne_zero_of_lt hfuel)
    obtain ⟨hlook, hs'⟩ := hs.peek (codes ['&']) (of_decide_eq_true rfl)
    rw [replicate_zero, nil_append] at hlook hs'
    rw [backLoop]
    simp only [hlook, hrest]
    exact ⟨cmd, _, rfl, rfl, hs'⟩
  | succ n ih =>
    obtain ⟨fuel, rfl⟩ := Nat.exists_eq_succ_of_ne_zero (Nat.ne_zero_of_lt hfuel)
    obtain ⟨hlook, hs'⟩ := hs.peek (codes ['&']) (of_decide_eq_true rfl)
    have hstart : starts (codes ['&']) (List.replicate (n + 1) (.amp : Token Bytes) ++ rest) = true :=
      rfl
    rw [backLoop]
    simp only [hlook, hstart, if_true]
    change Returns i _ (Cmd.back^[n] ((Cmd.back cmd).map i.slice)) rest
    exact ih hs'.next (by omega)

def followSet : Nonterminal → List (Token Bytes)
  | .line => [.rparen]
  | .pipe => [.rparen, .amp, .semi]
  | .exec => [.rparen, .amp, .semi, .bar]

def Follow (x : Nonterminal) (rest : List (Token Bytes)) : Prop :=
  ∀ t ∈ rest.head?, t ∈ followSet x

lemma Follow.starts_eq_false {x : Nonterminal} (h : Follow x rest) (toks : Bytes)
    (htoks : ∀ t ∈ followSet x, t.lead.any (strchr toks) = false) : starts toks rest = false := by
  cases rest with
  | nil => rfl
  | cons t ts => exact htoks t (h t rfl)

def parser (i : Input) : Nonterminal → (fuel : ℕ) → (s : ℕ) → Except Stop (Cmd Span × ℕ)
  | .line => parseline i.buf i.es
  | .pipe => parsepipe i.buf i.es
  | .exec => parseexec i.buf i.es

def depth : Nonterminal → ℕ
  | .line => 4
  | .pipe => 3
  | .exec => 2

lemma follow_append_replicate {n : ℕ} (h : Follow .pipe rest) :
    Follow .pipe (List.replicate n .amp ++ rest) := by
  cases n with
  | zero => exact h
  | succ n =>
    rintro t ⟨⟩
    simp [followSet]

lemma Follow.pipe_of_line (h : Follow .line rest) : Follow .pipe rest := by
  intro t ht
  have hmem := h t ht
  simp only [followSet, mem_singleton] at hmem
  simp [followSet, hmem]

lemma Follow.exec_of_pipe (h : Follow .pipe rest) : Follow .exec rest := by
  intro t ht
  have hmem := h t ht
  simp only [followSet, mem_cons, not_mem_nil, or_false] at hmem ⊢
  tauto

lemma Follow.stops (h : Follow .exec rest) : rest = [] ∨ starts (codes ['|', ')', '&', ';']) rest := by
  cases rest with
  | nil => exact .inl rfl
  | cons t ts =>
    have hmem := h t rfl
    simp only [followSet, mem_cons, not_mem_nil, or_false] at hmem
    rcases hmem with rfl | rfl | rfl | rfl <;> exact .inr rfl

section Steps

variable {c d : Cmd Bytes} {n : ℕ}

lemma parseline_returns
    (hpipe : Returns i (parsepipe i.buf i.es fuel s) c (List.replicate n .amp ++ rest))
    (hrest : Follow .line rest) (hfuel : n < fuel) :
    Returns i (parseline i.buf i.es (fuel + 1) s) (Cmd.back^[n] c) rest := by
  rw [parseline]
  refine hpipe.bind fun cmd s₁ hcmd hs₁ => ?_
  refine (backLoop_returns hs₁ (hrest.starts_eq_false _ (of_decide_eq_true rfl)) hfuel).bind
    fun cmd' s₂ hcmd' hs₂ => ?_
  obtain ⟨hlook, hs₃⟩ := hs₂.peek (codes [';']) (of_decide_eq_true rfl)
  simp only [hlook, hrest.starts_eq_false (codes [';']) (of_decide_eq_true rfl)]
  exact ⟨cmd', _, rfl, by rw [hcmd', hcmd], hs₃⟩

lemma parseline_returns_list
    (hpipe : Returns i (parsepipe i.buf i.es fuel s) c (List.replicate n .amp ++ .semi :: us))
    (hline : ∀ s, i.At us s → Returns i (parseline i.buf i.es fuel s) d rest) (hfuel : n < fuel) :
    Returns i (parseline i.buf i.es (fuel + 1) s) (.list (Cmd.back^[n] c) d) rest := by
  rw [parseline]
  refine hpipe.bind fun cmd s₁ hcmd hs₁ => ?_
  refine (backLoop_returns hs₁ rfl hfuel).bind fun cmd' s₂ hcmd' hs₂ => ?_
  obtain ⟨hlook, hs₃⟩ := hs₂.peek (codes [';']) (of_decide_eq_true rfl)
  have hstart : starts (codes [';']) (.semi :: us) = true := rfl
  simp only [hlook, hstart, if_true]
  refine (hline _ hs₃.next).bind fun right s₄ hright hs₄ => ?_
  exact ⟨.list cmd' right, s₄, rfl, by rw [Cmd.map, hcmd', hcmd, hright], hs₄⟩

lemma parsepipe_returns (hexec : Returns i (parseexec i.buf i.es fuel s) c rest)
    (hrest : Follow .pipe rest) : Returns i (parsepipe i.buf i.es (fuel + 1) s) c rest := by
  rw [parsepipe]
  refine hexec.bind fun cmd s₁ hcmd hs₁ => ?_
  obtain ⟨hlook, hs₂⟩ := hs₁.peek (codes ['|']) (of_decide_eq_true rfl)
  simp only [hlook, hrest.starts_eq_false (codes ['|']) (of_decide_eq_true rfl)]
  exact ⟨cmd, _, rfl, hcmd, hs₂⟩

lemma parsepipe_returns_pipe (hexec : Returns i (parseexec i.buf i.es fuel s) c (.bar :: us))
    (hpipe : ∀ s, i.At us s → Returns i (parsepipe i.buf i.es fuel s) d rest) :
    Returns i (parsepipe i.buf i.es (fuel + 1) s) (.pipe c d) rest := by
  rw [parsepipe]
  refine hexec.bind fun cmd s₁ hcmd hs₁ => ?_
  obtain ⟨hlook, hs₂⟩ := hs₁.peek (codes ['|']) (of_decide_eq_true rfl)
  have hstart : starts (codes ['|']) (.bar :: us) = true := rfl
  simp only [hlook, hstart, if_true]
  refine (hpipe _ hs₂.next).bind fun right s₃ hright hs₃ => ?_
  exact ⟨.pipe cmd right, s₃, rfl, by rw [Cmd.map, hcmd, hright], hs₃⟩

lemma parseexec_returns_block (hs : i.At (.lparen :: ts) s)
    (hline : ∀ s, i.At ts s → Returns i (parseline i.buf i.es fuel s) c (.rparen :: (us ++ rest)))
    (hr : Redirs us rs) (hrest : Follow .exec rest) (hfuel : us.length < fuel) :
    Returns i (parseexec i.buf i.es (fuel + 2) s) (rs.foldl Cmd.wrap c) rest := by
  have hstart : starts (codes ['(']) (.lparen :: ts) = true := rfl
  have hclose : starts (codes [')']) (.rparen :: (us ++ rest)) = true := rfl
  obtain ⟨hlook, hs₁⟩ := hs.peek (codes ['(']) (of_decide_eq_true rfl)
  obtain ⟨hlook', hs₂⟩ := hs₁.peek (codes ['(']) (of_decide_eq_true rfl)
  rw [parseexec]
  simp only [hlook, hstart, if_true]
  rw [parseblock]
  simp only [hlook', hstart, Bool.not_true]
  refine (hline _ hs₂.next).bind fun cmd s₃ hcmd hs₃ => ?_
  obtain ⟨hlook'', hs₄⟩ := hs₃.peek (codes [')']) (of_decide_eq_true rfl)
  simp only [hlook'', hclose, Bool.not_true]
  rw [← hcmd]
  exact parseredirs_returns cmd hr hs₄.next (hrest.starts_eq_false _ (of_decide_eq_true rfl)) hfuel

lemma parseexec_returns_words {ws : List Bytes} {ss : List (Redir Bytes)}
    (hs : i.At (ts ++ (us ++ rest)) s) (hr : Redirs ts rs) (hw : Words us ws ss)
    (hlen : ws.length < MAXARGS) (hrest : Follow .exec rest) (hts : ts.length < fuel)
    (hus : us.length < fuel) :
    Returns i (parseexec i.buf i.es (fuel + 1) s) ((rs ++ ss).foldl Cmd.wrap (.exec ws)) rest := by
  have hredir : starts (codes ['<', '>']) rest = false :=
    hrest.starts_eq_false _ (of_decide_eq_true rfl)
  have hstart : starts (codes ['(']) (ts ++ (us ++ rest)) = false := by
    refine hr.starts_eq_false ?_ (hw.starts_eq_false (hrest.starts_eq_false _ (of_decide_eq_true rfl)))
    intro op
    cases op <;> rfl
  obtain ⟨hlook, hs₁⟩ := hs.peek (codes ['(']) (of_decide_eq_true rfl)
  rw [parseexec]
  simp only [hlook, hstart]
  refine (parseredirs_returns execcmd hr hs₁ (hw.starts_eq_false hredir) hts).bind
    fun ret s₂ hret hs₂ => ?_
  exact argLoop_returns hw hs₂ hret hrest.stops hredir (by omega) hus

end Steps

/-- A derivation is followed by the run. -/
lemma parser_returns {x : Nonterminal} {c : Cmd Bytes} (h : Derives x ts c)
    (hs : i.At (ts ++ rest) s) (hrest : Follow x rest) (hfuel : 4 * ts.length + depth x ≤ fuel) :
    Returns i (parser i x fuel s) c rest := by
  induction h generalizing s fuel rest with
  | @line ts c n h ih =>
    simp only [length_append, length_replicate, depth] at hfuel
    obtain ⟨fuel, rfl⟩ : ∃ k, fuel = k + 1 := ⟨fuel - 1, by omega⟩
    rw [append_assoc] at hs
    have hlen : 4 * ts.length + depth .pipe ≤ fuel := by
      rw [depth]
      omega
    exact parseline_returns (ih hs (follow_append_replicate hrest.pipe_of_line) hlen) hrest
      (by omega)
  | @list ts c us d n h h' ih ih' =>
    simp only [length_append, length_replicate, length_cons, depth] at hfuel
    obtain ⟨fuel, rfl⟩ : ∃ k, fuel = k + 1 := ⟨fuel - 1, by omega⟩
    rw [append_assoc, append_assoc] at hs
    have hlen : 4 * ts.length + depth .pipe ≤ fuel := by
      rw [depth]
      omega
    have hlen' : 4 * us.length + depth .line ≤ fuel := by
      rw [depth]
      omega
    have hsemi : Follow .pipe (.semi :: us ++ rest) := by
      rintro t ⟨⟩
      simp [followSet]
    exact parseline_returns_list (ih hs (follow_append_replicate hsemi) hlen)
      (fun s hs => ih' hs hrest hlen') (by omega)
  | @exec ts c h ih =>
    simp only [depth] at hfuel
    obtain ⟨fuel, rfl⟩ : ∃ k, fuel = k + 1 := ⟨fuel - 1, by omega⟩
    have hlen : 4 * ts.length + depth .exec ≤ fuel := by
      rw [depth]
      omega
    exact parsepipe_returns (ih hs hrest.exec_of_pipe hlen) hrest
  | @pipe ts c us d h h' ih ih' =>
    simp only [length_append, length_cons, depth] at hfuel
    obtain ⟨fuel, rfl⟩ : ∃ k, fuel = k + 1 := ⟨fuel - 1, by omega⟩
    rw [append_assoc] at hs
    have hlen : 4 * ts.length + depth .exec ≤ fuel := by
      rw [depth]
      omega
    have hlen' : 4 * us.length + depth .pipe ≤ fuel := by
      rw [depth]
      omega
    have hbar : Follow .exec (.bar :: us ++ rest) := by
      rintro t ⟨⟩
      simp [followSet]
    exact parsepipe_returns_pipe (ih hs hbar hlen) (fun s hs => ih' hs hrest hlen')
  | @block ts c us rs h hr ih =>
    simp only [length_append, length_cons, depth] at hfuel
    obtain ⟨fuel, rfl⟩ : ∃ k, fuel = k + 2 := ⟨fuel - 2, by omega⟩
    rw [cons_append, append_assoc] at hs
    have hlen : 4 * ts.length + depth .line ≤ fuel := by
      rw [depth]
      omega
    have hclose : Follow .line (.rparen :: us ++ rest) := by
      rintro t ⟨⟩
      simp [followSet]
    exact parseexec_returns_block hs (fun s hs => ih hs hclose hlen) hr hrest (by omega)
  | @words ts rs us ws ss hr hw h =>
    simp only [length_append, depth] at hfuel
    obtain ⟨fuel, rfl⟩ : ∃ k, fuel = k + 1 := ⟨fuel - 1, by omega⟩
    rw [append_assoc] at hs
    exact parseexec_returns_words hs hr hw h hrest (by omega) (by omega)

end Complete

section Strings

variable {buf : Bytes} {cmd : Cmd Span}

lemma deref_set (j k : ℕ) : deref (buf.set k 0) j = if j = k then 0 else deref buf j := by
  simp only [deref, getD_eq_getElem?_getD, getElem?_set]
  split_ifs <;> simp_all

lemma deref_foldl_set (argv : List Span) (j : ℕ) :
    deref (argv.foldl (fun buf w => buf.set w.eq 0) buf) j =
      if ∃ w ∈ argv, w.eq = j then 0 else deref buf j := by
  induction argv generalizing buf with
  | nil => simp
  | cons w argv ih =>
    rw [foldl_cons, ih, deref_set]
    by_cases hj : j = w.eq <;> simp [hj, eq_comm]

lemma nulterminate_eq : nulterminate cmd buf = cmd.words.foldl (fun buf w => buf.set w.eq 0) buf := by
  induction cmd generalizing buf with
  | exec argv => rfl
  | redir cmd file mode fd ih => rw [nulterminate, ih, Cmd.words, foldl_append]; rfl
  | pipe left right ihl ihr => rw [nulterminate, ihr, ihl, Cmd.words, foldl_append]
  | list left right ihl ihr => rw [nulterminate, ihr, ihl, Cmd.words, foldl_append]
  | back cmd ih => exact ih

lemma deref_nulterminate (j : ℕ) :
    deref (nulterminate cmd buf) j = if ∃ w ∈ cmd.words, w.eq = j then 0 else deref buf j := by
  rw [nulterminate_eq, deref_foldl_set]

lemma deref_eq_headD (q : ℕ) : deref buf q = (buf.drop q).headD 0 := by
  rw [deref, getD_eq_getElem?_getD, ← head?_drop, headD_eq_head?_getD]

lemma cstr_of_zero {q : ℕ} (h : deref buf q = 0) : cstr buf q = [] := by
  rw [deref_eq_headD] at h
  rw [cstr]
  cases hq : buf.drop q with
  | nil => rfl
  | cons c r =>
    rw [hq] at h
    rw [takeWhile_cons, if_neg (by simpa using h)]

lemma cstr_of_ne {q : ℕ} (h : deref buf q ≠ 0) : cstr buf q = deref buf q :: cstr buf (q + 1) := by
  rw [deref_eq_headD] at h ⊢
  rw [cstr, cstr, ← tail_drop]
  cases hq : buf.drop q with
  | nil => simp [hq] at h
  | cons c r =>
    rw [hq] at h
    rw [takeWhile_cons, if_pos (by simpa using h)]
    rfl

lemma cstr_eq {q : ℕ} {l : Bytes} (hchars : ∀ k a, l[k]? = some a → deref buf (q + k) = a ∧ a ≠ 0)
    (hend : deref buf (q + l.length) = 0) : cstr buf q = l := by
  induction l generalizing q with
  | nil => exact cstr_of_zero hend
  | cons a l ih =>
    obtain ⟨ha, hne⟩ := hchars 0 a rfl
    have htail : cstr buf (q + 1) = l := by
      refine ih (fun k b hb => ?_) ?_
      · rw [Nat.add_assoc, Nat.add_comm 1]
        exact hchars (k + 1) b hb
      · rw [Nat.add_assoc, Nat.add_comm 1]
        exact hend
    rw [Nat.add_zero] at ha
    rw [cstr_of_ne (ha ▸ hne), ha, htail]

lemma Input.IsWord.not_end {w v : Span} (hw : i.IsWord w) (hle : w.q ≤ v.eq) (hlt : v.eq < w.eq) : ¬ i.IsWord v := by
  intro hv
  have hend := hv.behind (lt_of_lt_of_le hlt hw.le_es)
  rw [hw.inside v.eq hle hlt] at hend
  cases hend

lemma cstr_eq_slice {w : Span} (hcmd : ∀ v ∈ cmd.words, i.IsWord v) (hw : w ∈ cmd.words) :
    cstr (nulterminate cmd i.buf) w.q = i.slice w := by
  have hword := hcmd w hw
  have hle := hword.le
  have hes := hword.le_es
  have hlen : (i.slice w).length = w.eq - w.q := by
    simp only [Input.slice, length_take, length_drop, Input.es] at hes ⊢
    omega
  apply cstr_eq
  · intro k a hk
    have hlt : w.q + k < w.eq := by
      have := (List.getElem?_eq_some_iff.mp hk).1
      omega
    have htext := deref_of_lt (i := i) (s := w.q + k) (by omega)
    have hget : deref i.buf (w.q + k) = a := by
      apply Option.some.inj
      rw [← htext, ← hk, Input.slice, getElem?_take_of_lt (by omega), getElem?_drop]
    -- the stores are at characters that end a word, and this one is inside a word
    have hno : ¬ ∃ v ∈ cmd.words, v.eq = w.q + k := by
      rintro ⟨v, hv, hvk⟩
      exact hword.not_end (by omega) (by omega) (hcmd v hv)
    rw [deref_nulterminate, if_neg hno]
    refine ⟨hget, ?_⟩
    rintro rfl
    exact i.text_ne (hget ▸ mem_of_getElem? htext)
  · rw [hlen, Nat.add_sub_cancel' hle, deref_nulterminate, if_pos ⟨w, hw, rfl⟩]

end Strings

lemma strlenLoop_eq {n : ℕ} (hn : n ≤ i.es) (hfuel : i.es - n ≤ fuel) : strlenLoop i.buf fuel n = i.es := by
  induction fuel generalizing n with
  | zero => exact le_antisymm hn (Nat.sub_eq_zero_iff_le.mp (Nat.le_zero.mp hfuel))
  | succ fuel ih =>
    rw [strlenLoop]
    rcases hn.lt_or_eq with hlt | rfl
    · have hne : deref i.buf n ≠ 0 := fun hzero =>
        i.text_ne (hzero ▸ mem_of_getElem? (deref_of_lt hlt))
      rw [if_pos hne]
      exact ih hlt (by omega)
    · simp

lemma strlen_eq (i : Input) : strlen i.buf = i.es := by
  refine strlenLoop_eq (Nat.zero_le _) ?_
  simp only [Input.buf, Input.es, length_append, length_cons]
  omega

lemma parsecmd_of_line {cmd : Cmd Span} {ts : List (Token Bytes)}
    (h : parseline i.buf i.es (4 * i.es + 4) 0 = .ok (cmd, s)) (hs : i.At ts s) :
    parsecmd i.buf = if ts = [] then .ok (cmd, nulterminate cmd i.buf)
      else .error (.leftovers (peek i.buf i.es [] s).2) := by
  have hps : (peek i.buf i.es [] s).2 = i.es ↔ ts = [] := by
    rw [← hs.2]
    exact (ahead_eq_nil hs.1).symm
  simp only [parsecmd, strlen_eq, h]
  by_cases hnil : ts = []
  · rw [if_pos hnil]
    simp only [bind, Except.bind, ne_eq, hps, hnil, not_true_eq_false, if_false]
    rfl
  · rw [if_neg hnil]
    simp only [bind, Except.bind, ne_eq, hps, hnil, not_false_eq_true, if_true]

lemma fuel_le (i : Input) : 4 * (lex i.text).length + 4 ≤ 4 * i.es + 4 := by
  have hlen : (lex i.text).length ≤ i.es := length_lex_le i.text
  omega

lemma parseline_of_derives {c : Cmd Bytes} (h : Derives .line (lex i.text) c) :
    Returns i (parseline i.buf i.es (4 * i.es + 4) 0) c [] := by
  have hstart : i.At (lex i.text ++ []) 0 := by
    rw [append_nil]
    exact ⟨Nat.zero_le _, rfl⟩
  exact parser_returns h hstart (fun t ht => by simp at ht) (fuel_le i)

/-- What `parsecmd` returns is derived from the text, and only `nulterminate` has changed the buffer. -/
lemma parsecmd_ok {cmd : Cmd Span} {buf : Bytes} (h : parsecmd i.buf = .ok (cmd, buf)) :
    (∀ w ∈ cmd.words, i.IsWord w) ∧ Derives .line (lex i.text) (cmd.map i.slice) ∧ buf = nulterminate cmd i.buf := by
  have hends := (parserEnds i _).line (⟨Nat.zero_le _, rfl⟩ : i.At (lex i.text) 0) (fuel_le i)
  cases hline : parseline i.buf i.es (4 * i.es + 4) 0 with
  | error e =>
    simp only [parsecmd, strlen_eq, hline] at h
    cases h
  | ok x =>
    rw [hline] at hends
    obtain ⟨hwords, us, vs, hsplit, hs, hder⟩ := hends
    rw [parsecmd_of_line hline hs] at h
    split_ifs at h with hnil
    obtain ⟨rfl, rfl⟩ := Prod.mk.inj (Except.ok.inj h)
    refine ⟨hwords, ?_, rfl⟩
    rw [hsplit, hnil, append_nil]
    exact hder

/-- The parser accepts the texts that the grammar derives and builds the command that the
derivation stands for, and on every other text it ends with a panic. -/
theorem parsecmd_accepts_grammar (i : Input) :
    parsecmd i.buf ≠ .error .diverges ∧ ∀ c : Cmd Bytes, (∃ cmd buf, parsecmd i.buf = .ok (cmd, buf) ∧
        cmd.map (fun w => cstr buf w.q) = c) ↔ Derives .line (lex i.text) c := by
  refine ⟨?_, fun c => ⟨?_, fun hder => ?_⟩⟩
  · have hends := (parserEnds i _).line (⟨Nat.zero_le _, rfl⟩ : i.At (lex i.text) 0) (fuel_le i)
    cases hline : parseline i.buf i.es (4 * i.es + 4) 0 with
    | error e =>
      rw [hline] at hends
      simp only [parsecmd, strlen_eq, hline]
      exact fun h => hends (Except.error.inj h)
    | ok x =>
      rw [hline] at hends
      obtain ⟨-, -, vs, -, hs, -⟩ := hends
      rw [parsecmd_of_line hline hs]
      split_ifs <;> simp
  · rintro ⟨cmd, buf, h, rfl⟩
    obtain ⟨hwords, hder, rfl⟩ := parsecmd_ok h
    rw [Cmd.map_congr fun w hw => cstr_eq_slice hwords hw]
    exact hder
  · obtain ⟨cmd, s, h, hmap, hs⟩ := parseline_of_derives hder
    have hcmd := parsecmd_of_line h hs
    rw [if_pos rfl] at hcmd
    refine ⟨cmd, _, hcmd, ?_⟩
    rw [← hmap]
    exact Cmd.map_congr fun w hw => cstr_eq_slice (parsecmd_ok hcmd).1 hw

section Texts

variable {α : Type} {ts : List (Token α)} {rs : List (Redir α)}

def Token.text : Token α → Option α
  | .word w => some w
  | _ => none

lemma Redirs.texts (h : Redirs ts rs) : ts.filterMap Token.text = rs.map Redir.file := by
  induction h with
  | nil => rfl
  | cons op w h ih => exact congrArg (w :: ·) ih

lemma Words.texts {ws : List α} (h : Words ts ws rs) : (ts.filterMap Token.text).Perm (ws ++ rs.map Redir.file) := by
  induction h with
  | nil => exact List.Perm.nil
  | @cons ts rs us ws ss w hr h ih =>
    have htexts : (Token.word w :: (ts ++ us)).filterMap Token.text = w :: (rs.map Redir.file ++ us.filterMap Token.text) := by
      rw [← hr.texts, ← filterMap_append]
      rfl
    rw [htexts, map_append, cons_append]
    refine List.Perm.cons w ((ih.append_left _).trans ?_)
    rw [← append_assoc, ← append_assoc]
    exact perm_append_comm.append_right _

lemma Derives.texts {x : Nonterminal} {c : Cmd α} (h : Derives x ts c) : (ts.filterMap Token.text).Perm c.words := by
  have hamp : ∀ n, (List.replicate n (Token.amp : Token α)).filterMap Token.text = [] := by
    intro n
    induction n with
    | zero => rfl
    | succ n ih => exact ih
  induction h with
  | line n h ih =>
    rw [filterMap_append, hamp, append_nil, words_iterate_back]
    exact ih
  | list n h h' ih ih' =>
    rw [filterMap_append, filterMap_append, hamp, append_nil, Cmd.words, words_iterate_back]
    exact ih.append ih'
  | exec h ih => exact ih
  | pipe h h' ih ih' =>
    rw [filterMap_append]
    exact ih.append ih'
  | @block ts c us rs h hr ih =>
    have htexts : (Token.lparen :: (ts ++ Token.rparen :: us)).filterMap Token.text =
        ts.filterMap Token.text ++ us.filterMap Token.text := filterMap_append
    rw [htexts, hr.texts, words_foldl_wrap]
    exact ih.append_right _
  | @words ts rs us ws ss hr hw h =>
    rw [filterMap_append, hr.texts, words_foldl_wrap, map_append]
    refine (hw.texts.append_left _).trans ?_
    rw [← append_assoc, Cmd.words, ← append_assoc]
    exact perm_append_comm.append_right _

end Texts

/-- The command holds every word of the line once. After `nulterminate` the string at each of its pointers is the text of the
word: a NUL stands behind it, and none that was stored for another word falls into it. -/
theorem parsecmd_texts {cmd : Cmd Span} {buf : Bytes} (h : parsecmd i.buf = .ok (cmd, buf)) :
    (cmd.words.map i.slice).Perm ((lex i.text).filterMap Token.text) ∧
      ∀ w ∈ cmd.words, cstr buf w.q = i.slice w ∧ deref buf w.eq = 0 ∧
        ∀ v ∈ cmd.words, ¬ (w.q ≤ v.eq ∧ v.eq < w.eq) := by
  obtain ⟨hwords, hder, rfl⟩ := parsecmd_ok h
  have htexts := hder.texts
  rw [Cmd.words_map] at htexts
  refine ⟨htexts.symm, fun w hw => ⟨cstr_eq_slice hwords hw, ?_, ?_⟩⟩
  · rw [deref_nulterminate, if_pos ⟨w, hw, rfl⟩]
  · rintro v hv ⟨hle, hlt⟩
    exact (hwords w hw).not_end hle hlt (hwords v hv)

/-- `ls|wc>f`, where the terminators fall on the symbols. -/
theorem parsecmd_texts_pipe : ∃ (i : Input) (cmd : Cmd Span) (buf : Bytes), i.text = codes ['l', 's', '|', 'w', 'c', '>', 'f'] ∧
    parsecmd i.buf = .ok (cmd, buf) ∧ (cmd.words.map i.slice).Perm ((lex i.text).filterMap Token.text) ∧
      ∀ w ∈ cmd.words, cstr buf w.q = i.slice w := by
  let line : Input := ⟨codes ['l', 's', '|', 'w', 'c', '>', 'f'], by decide, []⟩
  let cmd : Cmd Span := .pipe (.exec [⟨0, 2⟩]) (.redir (.exec [⟨3, 5⟩]) ⟨6, 7⟩ (O_WRONLY ||| O_CREATE) 1)
  have hparse : parsecmd line.buf = .ok (cmd, nulterminate cmd line.buf) := by decide +kernel
  obtain ⟨hperm, htexts⟩ := parsecmd_texts hparse
  exact ⟨line, cmd, _, rfl, hparse, hperm, fun w hw => (htexts w hw).1⟩

end Shell

end Xv6Bfs
