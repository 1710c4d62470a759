import Mathlib.Data.List.Basic

/-!
# `grep`

`grep.c`: the matcher for patterns with `^`, `.`, `*` and `$`, and the loop that reads lines into a buffer. A pointer into
a string is the memory from there on, where a byte behind the end of the list is 0.
-/

namespace Xv6Bfs

namespace Grep

def caret : BitVec 8 := 0x5E

def dollar : BitVec 8 := 0x24

def dot : BitVec 8 := 0x2E

def star : BitVec 8 := 0x2A

def newline : BitVec 8 := 0x0A

/-- `matchstar(c, re, text)`, with `matchhere(re, ·)` for the rest of the pattern. -/
def matchstar (matchhere : List (BitVec 8) → Bool) (c : BitVec 8) : List (BitVec 8) → Bool
  | [] => matchhere []
  | a :: text => matchhere (a :: text) || (a ≠ 0 && (a = c || c = dot) && matchstar matchhere c text)

def matchhere : List (BitVec 8) → List (BitVec 8) → Bool
  | [], _ => true
  | c :: re, text =>
    if c = 0 then true
    else
      -- the last two tests of the source, which look at one character of the text
      let one (rest : List (BitVec 8) → Bool) : Bool :=
        if c = dollar ∧ re.headD 0 = 0 then text.headD 0 = 0
        else if text.headD 0 ≠ 0 ∧ (c = dot ∨ c = text.headD 0) then rest text.tail
        else false
      match re with
      | [] => one (fun _ => true)
      | d :: re' => if d = star then matchstar (matchhere re') c text else one (matchhere (d :: re'))

def matchLoop (re : List (BitVec 8)) : List (BitVec 8) → Bool
  | [] => matchhere re []
  | a :: text => matchhere re (a :: text) || (a ≠ 0 && matchLoop re text)

def matchText (re text : List (BitVec 8)) : Bool :=
  if re.headD 0 = caret then matchhere re.tail text else matchLoop re text

/-- `strchr(s, c)`, as the distance from `s`. -/
def strchr (c : BitVec 8) : List (BitVec 8) → Option ℕ
  | [] => none
  | a :: s => if a = 0 then none else if a = c then some 0 else (strchr c s).map (· + 1)

/-- The inner loop of `grep`: it writes the lines that match, and returns the last `p` and what has been written. -/
def grepLines (pattern : List (BitVec 8)) : (fuel : ℕ) → (p out : List (BitVec 8)) → List (BitVec 8) × List (BitVec 8)
  | 0, p, out => (p, out)
  | fuel + 1, p, out =>
    match strchr newline p with
    | none => (p, out)
    | some q =>
      -- `*q = 0`
      let line := p.take q ++ 0 :: p.drop (q + 1)
      grepLines pattern fuel (p.drop (q + 1)) (if matchText pattern line then out ++ p.take (q + 1) else out)

def bufSize : ℕ := 1024

/-- The outer loop with the `m` bytes that are in the buffer, for what the calls of `read` give one after the other before
one gives nothing; `none` if a call would give more than it was asked for. -/
def grepLoop (pattern : List (BitVec 8)) : (reads : List (List (BitVec 8))) → (buf out : List (BitVec 8)) →
    Option (List (BitVec 8))
  | [], _, out => some out
  | piece :: reads, buf, out =>
    if piece = [] ∨ bufSize - buf.length - 1 < piece.length then none
    else
      let buf := buf ++ piece
      let (p, out) := grepLines pattern buf.length buf out
      -- `if(p == buf) m = 0`
      if p.length = buf.length then grepLoop pattern reads [] out else grepLoop pattern reads p out

def grep (pattern : List (BitVec 8)) (reads : List (List (BitVec 8))) : Option (List (BitVec 8)) :=
  grepLoop pattern reads [] []

end Grep

end Xv6Bfs
