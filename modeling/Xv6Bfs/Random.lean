import Xv6Bfs.Skiplist

/-!
# The heights of towers

The generator of `proc.c` and the loop of `randomize_max_level`. The seed is a 32-bit `int`:
its shifts wrap, the right shift copies the sign, and the remainder has the sign of the seed.
-/

namespace Xv6Bfs

def seed₀ : BitVec 32 := 1234567

def nextSeed (seed : BitVec 32) : BitVec 32 :=
  let seed := seed ^^^ (seed <<< 17)
  let seed := seed ^^^ seed.sshiftRight 7
  seed ^^^ (seed <<< 5)

def random (seed max : BitVec 32) : BitVec 32 × BitVec 32 :=
  ((nextSeed seed).srem max, nextSeed seed)

def randomizeLoop : ℕ → ℕ → BitVec 32 → ℕ × BitVec 32
  | 0, insertionMaxLevel, seed => (insertionMaxLevel, seed)
  | n + 1, insertionMaxLevel, seed =>
    let (x, seed) := random seed 4
    if x = 0 then randomizeLoop n (insertionMaxLevel + 1) seed else (insertionMaxLevel, seed)

/-- `randomize_max_level`. The loop runs while the level is at most `skiplistMaxLevel`. -/
def randomizeMaxLevel (skiplistMaxLevel : ℕ) (seed : BitVec 32) : ℕ × BitVec 32 :=
  randomizeLoop (skiplistMaxLevel + 1) 0 seed

def seedAfter (n : ℕ) : BitVec 32 := nextSeed^[n] seed₀

def heightAfter (n : ℕ) : ℕ := (randomizeMaxLevel (SKIPLIST_LEVELS - 1) (seedAfter n)).1

end Xv6Bfs
