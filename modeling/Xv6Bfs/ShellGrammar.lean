import Xv6Bfs.Shell
import Mathlib.Logic.Function.Iterate

/-!
# The shell's language

The command language by itself: how a text falls into tokens, and which commands a sequence of
tokens stands for. Nothing here knows of the parser, of its pointer or of the buffer.
-/

namespace Xv6Bfs

namespace Shell

/-- `<`, `>` and `>>`. -/
inductive Op where
  | input
  | output
  | append
  deriving DecidableEq, Repr

inductive Token (α : Type) where
  | word (w : α)
  | redir (op : Op)
  | bar
  | amp
  | semi
  | lparen
  | rparen
  deriving DecidableEq, Repr

/-- The token a symbol is, or begins. -/
def punctuation {α : Type} (c : BitVec 8) : Option (Token α) :=
  if c = code '|' then some .bar
  else if c = code '&' then some .amp
  else if c = code ';' then some .semi
  else if c = code '(' then some .lparen
  else if c = code ')' then some .rparen
  else if c = code '<' then some (.redir .input)
  else if c = code '>' then some (.redir .output)
  else none

/-- The first token of a text that starts with a character `c` that is not a blank, and the text
behind it. -/
def tokenAt (c : BitVec 8) (l : Bytes) : Token Bytes × Bytes :=
  match punctuation c with
  | some t =>
    -- `>` has to look at the character behind it
    if t = .redir .output ∧ l.head? = some (code '>') then (.redir .append, l.tail) else (t, l)
  | none => (.word (c :: l.takeWhile wordChar), l.dropWhile wordChar)

theorem tokenAt_length (c : BitVec 8) (l : Bytes) : (tokenAt c l).2.length ≤ l.length := by
  unfold tokenAt
  split
  · split
    · simp
    · exact Nat.le_refl _
  · exact (List.dropWhile_sublist _).length_le

def lex (l : Bytes) : List (Token Bytes) :=
  match _h : l.dropWhile (strchr whitespace) with
  | [] => []
  | c :: r => (tokenAt c r).1 :: lex (tokenAt c r).2
termination_by l.length
decreasing_by
  have hdrop := (List.dropWhile_sublist (l := l) (strchr whitespace)).length_le
  have hrest := tokenAt_length c r
  rw [_h, List.length_cons] at hdrop
  omega

section Grammar

variable {α : Type}

structure Redir (α : Type) where
  op : Op
  file : α

def Op.mode : Op → ℕ
  | .input => O_RDONLY
  | .output => O_WRONLY ||| O_CREATE
  | .append => O_WRONLY ||| O_CREATE

def Op.fd : Op → ℕ
  | .input => 0
  | .output => 1
  | .append => 1

def Cmd.wrap (c : Cmd α) (r : Redir α) : Cmd α := .redir c r.file r.op.mode r.op.fd

def Cmd.map {β : Type} (f : α → β) : Cmd α → Cmd β
  | .exec argv => .exec (argv.map f)
  | .redir cmd file mode fd => .redir (cmd.map f) (f file) mode fd
  | .pipe left right => .pipe (left.map f) (right.map f)
  | .list left right => .list (left.map f) (right.map f)
  | .back cmd => .back (cmd.map f)

/-- `redir*`, with `redir ::= ('<' | '>' | '>>') word`. -/
inductive Redirs : List (Token α) → List (Redir α) → Prop
  | nil : Redirs [] []
  | cons {ts rs} (op : Op) (w : α) (h : Redirs ts rs) :
      Redirs (.redir op :: .word w :: ts) (⟨op, w⟩ :: rs)

/-- `(word redir*)*`, with the words and the redirections in order. -/
inductive Words : List (Token α) → List α → List (Redir α) → Prop
  | nil : Words [] [] []
  | cons {ts rs us ws ss} (w : α) (hr : Redirs ts rs) (h : Words us ws ss) :
      Words (.word w :: (ts ++ us)) (w :: ws) (rs ++ ss)

inductive Nonterminal where
  | line
  | pipe
  | exec

/-- The grammar, with the command that a derivation stands for:

    line ::= pipe '&'* [';' line]
    pipe ::= exec ['|' pipe]
    exec ::= '(' line ')' redir*  |  redir* (word redir*)*

where a command has fewer than `MAXARGS` words. -/
inductive Derives : Nonterminal → List (Token α) → Cmd α → Prop
  | line {ts c} (n : ℕ) (h : Derives .pipe ts c) :
      Derives .line (ts ++ List.replicate n .amp) (Cmd.back^[n] c)
  | list {ts c us d} (n : ℕ) (h : Derives .pipe ts c) (h' : Derives .line us d) :
      Derives .line (ts ++ List.replicate n .amp ++ .semi :: us) (.list (Cmd.back^[n] c) d)
  | exec {ts c} (h : Derives .exec ts c) : Derives .pipe ts c
  | pipe {ts c us d} (h : Derives .exec ts c) (h' : Derives .pipe us d) :
      Derives .pipe (ts ++ .bar :: us) (.pipe c d)
  | block {ts c us rs} (h : Derives .line ts c) (hr : Redirs us rs) :
      Derives .exec (.lparen :: (ts ++ .rparen :: us)) (rs.foldl Cmd.wrap c)
  | words {ts rs us ws ss} (hr : Redirs ts rs) (hw : Words us ws ss) (h : ws.length < MAXARGS) :
      Derives .exec (ts ++ us) ((rs ++ ss).foldl Cmd.wrap (.exec ws))

end Grammar

end Shell

end Xv6Bfs
