import Mathlib.Data.List.Basic
import Mathlib.Algebra.Ring.Nat

/-!
# The shell's parser

`sh.c` parses a command line in place: `parsecmd` moves one pointer over the buffer, `gettoken` and
`peek` read it, and the commands it builds hold pointers into the buffer, where `nulterminate`
finally ends every word. Pointers are offsets into the buffer, and a loop or a recursive call that
has used up its fuel is a run that does not end.
-/

namespace Xv6Bfs

namespace Shell

def MAXARGS : ℕ := 20

def O_RDONLY : ℕ := 0x000

def O_WRONLY : ℕ := 0x001

def O_CREATE : ℕ := 0x200

abbrev Bytes := List (BitVec 8)

def code (c : Char) : BitVec 8 := BitVec.ofNat 8 c.toNat

def codes (s : List Char) : Bytes := s.map code

-- The last character is '\v'.
def whitespace : Bytes := codes [' ', '\t', '\r', '\n', '\x0b']

def symbols : Bytes := codes ['<', '|', '>', '&', ';', '(', ')']

/-- A counted string: where it starts and where it ends. -/
structure Span where
  q : ℕ
  eq : ℕ
  deriving DecidableEq, Repr

/-- The parsed commands, over what they hold for a word. -/
inductive Cmd (α : Type) where
  | exec (argv : List α)
  | redir (cmd : Cmd α) (file : α) (mode fd : ℕ)
  | pipe (left right : Cmd α)
  | list (left right : Cmd α)
  | back (cmd : Cmd α)
  deriving DecidableEq, Repr

def execcmd : Cmd Span := .exec []

/-- `cmd->argv[argc] = q; cmd->eargv[argc] = eq;`. The parser keeps a pointer to the `execcmd` it
is filling, and reaches it below the redirections it has put around it since. -/
def Cmd.addArg {α : Type} (w : α) : Cmd α → Cmd α
  | .exec argv => .exec (argv ++ [w])
  | .redir cmd file mode fd => .redir (cmd.addArg w) file mode fd
  | cmd => cmd

/-- How a run of the parser can stop. -/
inductive Stop where
  /-- `panic`, with its message. -/
  | panic (msg : String)
  /-- `printf(2, "leftovers: %s\n", s)` and then `panic("syntax")`. -/
  | leftovers (s : ℕ)
  /-- The run does not end. -/
  | diverges
  deriving DecidableEq, Repr

def strchr (s : Bytes) (c : BitVec 8) : Bool := s.contains c

section Parser

variable (buf : Bytes)

/-- `*s`. -/
def deref (s : ℕ) : BitVec 8 := buf.getD s 0

def strlenLoop : (fuel : ℕ) → (n : ℕ) → ℕ
  | 0, n => n
  | fuel + 1, n => if deref buf n ≠ 0 then strlenLoop fuel (n + 1) else n

def strlen : ℕ := strlenLoop buf buf.length 0

variable (es : ℕ)

/-- `while(s < es && p(*s)) s++;`, which takes at most `es - s` steps. -/
def skipLoop (p : BitVec 8 → Bool) : (fuel : ℕ) → (s : ℕ) → ℕ
  | 0, s => s
  | fuel + 1, s => if s < es ∧ p (deref buf s) then skipLoop p fuel (s + 1) else s

def skip (p : BitVec 8 → Bool) (s : ℕ) : ℕ := skipLoop buf es p (es - s) s

/-- What ends neither at a blank nor at a symbol. -/
def wordChar (c : BitVec 8) : Bool := !strchr whitespace c && !strchr symbols c

local instance lawfulChar : LawfulBEq (BitVec 8) := instLawfulBEq

/-- The `switch` of `gettoken`: the token at `s` and the pointer behind it. -/
def scan (s : ℕ) : BitVec 8 × ℕ :=
  let c := deref buf s
  if c = 0 then (c, s)
  else if c ∈ codes ['|', '(', ')', ';', '&', '<'] then (c, s + 1)
  else if c = code '>' then
    if deref buf (s + 1) = code '>' then (code '+', s + 2) else (c, s + 1)
  else (code 'a', skip buf es wordChar s)

/-- What `gettoken` returns, stores in `*q` and `*eq`, and leaves in `*ps`. -/
structure Gettoken where
  ret : BitVec 8
  q : ℕ
  eq : ℕ
  ps : ℕ

def gettoken (s : ℕ) : Gettoken :=
  let q := skip buf es (strchr whitespace) s
  let (ret, eq) := scan buf es q
  ⟨ret, q, eq, skip buf es (strchr whitespace) eq⟩

def peek (toks : Bytes) (s : ℕ) : Bool × ℕ :=
  let s := skip buf es (strchr whitespace) s
  (deref buf s ≠ 0 && strchr toks (deref buf s), s)

def redircmd (tok : BitVec 8) (cmd : Cmd Span) (w : Span) : Cmd Span :=
  if tok = code '<' then .redir cmd w O_RDONLY 0
  else if tok = code '>' then .redir cmd w (O_WRONLY ||| O_CREATE) 1
  else if tok = code '+' then .redir cmd w (O_WRONLY ||| O_CREATE) 1
  else cmd

def parseredirs : (fuel : ℕ) → Cmd Span → (s : ℕ) → Except Stop (Cmd Span × ℕ)
  | 0, _, _ => .error .diverges
  | fuel + 1, cmd, s =>
    let look := peek buf es (codes ['<', '>']) s
    if look.1 then
      let op := gettoken buf es look.2
      let file := gettoken buf es op.ps
      if file.ret ≠ code 'a' then .error (.panic "missing file for redirection")
      else parseredirs fuel (redircmd op.ret cmd ⟨file.q, file.eq⟩) file.ps
    else .ok (cmd, look.2)

def argLoop : (fuel : ℕ) → (argc : ℕ) → Cmd Span → (s : ℕ) → Except Stop (Cmd Span × ℕ)
  | 0, _, _, _ => .error .diverges
  | fuel + 1, argc, ret, s =>
    let look := peek buf es (codes ['|', ')', '&', ';']) s
    if look.1 then .ok (ret, look.2)
    else
      let tok := gettoken buf es look.2
      if tok.ret = 0 then .ok (ret, tok.ps)
      else if tok.ret ≠ code 'a' then .error (.panic "syntax")
      else if argc + 1 ≥ MAXARGS then .error (.panic "too many args")
      else do
        let (ret, s) ← parseredirs buf es fuel (ret.addArg ⟨tok.q, tok.eq⟩) tok.ps
        argLoop fuel (argc + 1) ret s

def backLoop : (fuel : ℕ) → Cmd Span → (s : ℕ) → Except Stop (Cmd Span × ℕ)
  | 0, _, _ => .error .diverges
  | fuel + 1, cmd, s =>
    let look := peek buf es (codes ['&']) s
    if look.1 then backLoop fuel (.back cmd) (gettoken buf es look.2).ps else .ok (cmd, look.2)

mutual

def parseline : (fuel : ℕ) → (s : ℕ) → Except Stop (Cmd Span × ℕ)
  | 0, _ => .error .diverges
  | fuel + 1, s => do
    let (cmd, s) ← parsepipe fuel s
    let (cmd, s) ← backLoop buf es fuel cmd s
    let look := peek buf es (codes [';']) s
    if look.1 then
      let (right, s) ← parseline fuel (gettoken buf es look.2).ps
      return (.list cmd right, s)
    else return (cmd, look.2)

def parsepipe : (fuel : ℕ) → (s : ℕ) → Except Stop (Cmd Span × ℕ)
  | 0, _ => .error .diverges
  | fuel + 1, s => do
    let (cmd, s) ← parseexec fuel s
    let look := peek buf es (codes ['|']) s
    if look.1 then
      let (right, s) ← parsepipe fuel (gettoken buf es look.2).ps
      return (.pipe cmd right, s)
    else return (cmd, look.2)

def parseexec : (fuel : ℕ) → (s : ℕ) → Except Stop (Cmd Span × ℕ)
  | 0, _ => .error .diverges
  | fuel + 1, s =>
    let look := peek buf es (codes ['(']) s
    if look.1 then parseblock fuel look.2
    else do
      let (ret, s) ← parseredirs buf es fuel execcmd look.2
      argLoop buf es fuel 0 ret s

def parseblock : (fuel : ℕ) → (s : ℕ) → Except Stop (Cmd Span × ℕ)
  | 0, _ => .error .diverges
  | fuel + 1, s =>
    let look := peek buf es (codes ['(']) s
    if !look.1 then .error (.panic "parseblock")
    else do
      let (cmd, s) ← parseline fuel (gettoken buf es look.2).ps
      let look := peek buf es (codes [')']) s
      if !look.1 then .error (.panic "syntax - missing )")
      else parseredirs buf es fuel cmd (gettoken buf es look.2).ps

end

end Parser

def nulterminate : Cmd Span → Bytes → Bytes
  | .exec argv, buf => argv.foldl (fun buf w => buf.set w.eq 0) buf
  | .redir cmd file _ _, buf => (nulterminate cmd buf).set file.eq 0
  | .pipe left right, buf => nulterminate right (nulterminate left buf)
  | .list left right, buf => nulterminate right (nulterminate left buf)
  | .back cmd, buf => nulterminate cmd buf

def cstr (buf : Bytes) (q : ℕ) : Bytes := (buf.drop q).takeWhile (· ≠ 0)

/-- `parsecmd`, with the buffer it leaves. The fuel is what `4 * es + 4` nested calls need. -/
def parsecmd (buf : Bytes) : Except Stop (Cmd Span × Bytes) := do
  let es := strlen buf
  let (cmd, s) ← parseline buf es (4 * es + 4) 0
  let look := peek buf es [] s
  if look.2 ≠ es then .error (.leftovers look.2)
  else return (cmd, nulterminate cmd buf)

end Shell

end Xv6Bfs
