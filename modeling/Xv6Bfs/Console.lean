import Xv6Bfs.Library.Monitor
import Xv6Bfs.Library.Ring

/-!
# Console input

`consoleintr` and `consoleread` of `console.c` at the grain of `cons.lock`: the interrupt handler
takes in one character in a step, and a reader takes one out. Next to the buffer stands what its
users see, a terminal with lines that can be edited until they are committed.
-/

namespace Xv6Bfs

open Monitor

def INPUT_BUF : ℕ := 128

instance : NeZero INPUT_BUF := ⟨by decide⟩

def ctrlP : BitVec 8 := 16

def ctrlU : BitVec 8 := 21

def ctrlH : BitVec 8 := 8

def ctrlD : BitVec 8 := 4

def newline : BitVec 8 := 10

def cook (c : BitVec 8) : BitVec 8 :=
  if c = 13 then newline else c

structure Input where
  buf : Fin INPUT_BUF → BitVec 8
  r : BitVec 32
  w : BitVec 32
  e : BitVec 32

namespace Input

/-- The loop of `^U`; it ends when `e` is `w`, at the latest after `fuel` steps. -/
def killLine : (fuel : ℕ) → Input → Input
  | 0, x => x
  | fuel + 1, x =>
    if x.e ≠ x.w ∧ x.buf (Ring.slot INPUT_BUF (x.e - 1)) ≠ newline then killLine fuel { x with e := x.e - 1 } else x

/-- The body of the loop of `consoleintr`, and whether it wakes the readers. -/
def intr (x : Input) (c : BitVec 8) : Input × Bool :=
  if c = ctrlP then (x, false)
  else if c = ctrlU then (x.killLine (x.e - x.w).toNat, false)
  else if c = ctrlH ∨ c = 0x7f then (if x.e ≠ x.w then { x with e := x.e - 1 } else x, false)
  else if c ≠ 0 ∧ x.e - x.r < BitVec.ofNat 32 INPUT_BUF then
    let c := cook c
    let x := { x with buf := Function.update x.buf (Ring.slot INPUT_BUF x.e) c, e := x.e + 1 }
    if c = newline ∨ c = ctrlD ∨ x.e = x.r + BitVec.ofNat 32 INPUT_BUF then ({ x with w := x.e }, true) else (x, false)
  else (x, false)

end Input

/-- What has been read, what can be read, and the line that is being edited. -/
structure Tty where
  consumed : List (BitVec 8)
  pending : List (BitVec 8)
  line : List (BitVec 8)

namespace Tty

def committed (t : Tty) : List (BitVec 8) :=
  t.consumed ++ t.pending

/-- What a key does; a line is committed at its end, at `^D` or when there is no more room. -/
def key (t : Tty) (c : BitVec 8) : Tty :=
  if c = ctrlP then t
  else if c = ctrlU then { t with line := [] }
  else if c = ctrlH ∨ c = 0x7f then { t with line := t.line.dropLast }
  else if c ≠ 0 ∧ t.pending.length + t.line.length < INPUT_BUF then
    let line := t.line ++ [cook c]
    if cook c = newline ∨ cook c = ctrlD ∨ t.pending.length + line.length = INPUT_BUF then
      { t with pending := t.pending ++ line, line := [] }
    else { t with line := line }
  else t

def next (t : Tty) : Tty :=
  { t with consumed := t.consumed ++ t.pending.take 1, pending := t.pending.drop 1 }

end Tty

/-- The buffer, the terminal, the bytes that reads have delivered and how many reads have ended with
`^D`. -/
structure ConsoleRun where
  input : Input
  tty : Tty
  delivered : List (BitVec 8)
  eofs : ℕ

/-- Where an interrupt handler or a reader is in `console.c`; `dst` is what the reader has got. -/
inductive ConsolePc
  | idle
  | consoleintr (cs : List (BitVec 8))
  | intrLoop (cs : List (BitVec 8))
  | intrWakeup (cs : List (BitVec 8))
  | intrDone
  | consoleread (n : ℤ)
  | readLoop (target n : ℤ) (dst : List (BitVec 8))
  | readDone (target n : ℤ) (dst : List (BitVec 8)) (eof : Bool)
  | readFail

namespace ConsoleRun

def intr (x : ConsoleRun) (c : BitVec 8) : ConsoleRun :=
  { x with input := (x.input.intr c).1, tty := x.tty.key c }

/-- `input.buf[input.r++ % INPUT_BUF]` is `^D`, and ends the read. -/
def takeEof (x : ConsoleRun) : ConsoleRun :=
  { x with input := { x.input with r := x.input.r + 1 }, tty := x.tty.next, eofs := x.eofs + 1 }

/-- `*dst++ = input.buf[input.r++ % INPUT_BUF]`. -/
def take (x : ConsoleRun) (c : BitVec 8) : ConsoleRun :=
  { x with input := { x.input with r := x.input.r + 1 }, tty := x.tty.next, delivered := x.delivered ++ [c] }

/-- `consoleread` gives `^D` back, by `input.r--`, if it has read something before it. -/
def code (pc : ConsolePc) (x : ConsoleRun) (killed : Bool) : Monitor.Action Unit ConsoleRun ConsolePc :=
  match pc with
  | .idle => .halt
  | .consoleintr cs => .acquire (.intrLoop cs)
  | .intrLoop [] => .compute x .intrDone
  | .intrLoop (c :: cs) => .compute (x.intr c) (if (x.input.intr c).2 then .intrWakeup cs else .intrLoop cs)
  | .intrWakeup cs => .wakeup () (.intrLoop cs)
  | .intrDone => .release .idle
  | .consoleread n => .acquire (.readLoop n n [])
  | .readLoop target n dst =>
    if 0 < n then
      if x.input.r = x.input.w then
        if killed then .compute x .readFail else .sleep () (.readLoop target n dst)
      else
        let c := x.input.buf (Ring.slot INPUT_BUF x.input.r)
        if c = ctrlD then
          if n < target then .compute x (.readDone target n dst false)
          else .compute x.takeEof (.readDone target n dst true)
        else .compute (x.take c) (if c = newline then .readDone target (n - 1) (dst ++ [c]) false
          else .readLoop target (n - 1) (dst ++ [c]))
    else .compute x (.readDone target n dst false)
  | .readDone _ _ _ _ => .release .idle
  | .readFail => .release .idle

def begins (pc entry : ConsolePc) (_x : ConsoleRun) : Bool :=
  match pc, entry with
  | .idle, .consoleintr _ => true
  | .idle, .consoleread _ => true
  | _, _ => false

/-- `input` is in memory that starts as zeros. -/
def init : ConsoleRun where
  input := ⟨fun _ => 0, 0, 0, 0⟩
  tty := ⟨[], [], []⟩
  delivered := []
  eofs := 0

def program (P : Type*) : Program P Unit ConsoleRun ConsolePc where
  code _ := code
  begins _ := begins
  start := (· = init)
  idle := .idle

end ConsoleRun

end Xv6Bfs
