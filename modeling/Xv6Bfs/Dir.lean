import Xv6Bfs.Icache

/-!
# Directories

A directory is a file of entries of 16 bytes, an inode number and a name that is padded with
zeros but not terminated when it fills its 14 bytes. A C string is the list of its bytes,
followed by zeros.
-/

namespace Xv6Bfs

def DIRSIZ : ℕ := 14

/-! ### `string.c` -/

def strncmp : (p q : List (BitVec 8)) → (n : ℕ) → ℤ
  | _, _, 0 => 0
  | p, q, n + 1 =>
    if p.headD 0 ≠ 0 ∧ p.headD 0 = q.headD 0 then strncmp p.tail q.tail n
    else (p.headD 0).toNat - (q.headD 0).toNat

/-- The `n` bytes that are stored at the destination. -/
def strncpy : (t : List (BitVec 8)) → (n : ℕ) → List (BitVec 8)
  | _, 0 => []
  | t, n + 1 => t.headD 0 :: if t.headD 0 = 0 then List.replicate n 0 else strncpy t.tail n

def namecmp (s t : List (BitVec 8)) : ℤ :=
  strncmp s t DIRSIZ

/-! ### Entries -/

/-- `struct dirent`. -/
structure Dirent where
  inum : BitVec 16
  name : List (BitVec 8)
  deriving DecidableEq

namespace Dirent

def ofBytes (bytes : List (BitVec 8)) : Dirent where
  inum := bytes.getD 1 0 ++ bytes.getD 0 0
  name := bytes.drop 2

def bytes (de : Dirent) : List (BitVec 8) :=
  de.inum.extractLsb' 0 8 :: de.inum.extractLsb' 8 8 :: de.name

def Matches (name : List (BitVec 8)) (de : Dirent) : Prop :=
  de.inum ≠ 0 ∧ namecmp name de.name = 0

instance (name : List (BitVec 8)) (de : Dirent) : Decidable (de.Matches name) :=
  inferInstanceAs (Decidable (_ ∧ _))

end Dirent

section Scan

variable (sb : FsSuperblock) (devsw : Devsw)

/-- The loop over the entries of `dp`, up to the first that passes the test, with the offset at
which it ends. -/
def dirScan (panic : FsPanic) (test : Dirent → Bool) (dp : Dinode) : (fuel off : ℕ) → Content →
    Except FsPanic ((ℕ × Option Dirent) × Dinode × Content)
  | 0, off, c => .ok ((off, none), dp, c)
  | fuel + 1, off, c =>
    if off < dp.size.toNat then do
      let (bytes, dp, c) ← readi sb devsw dp (BitVec.ofNat 32 off) 16 c
      let bytes := bytes.getD []
      if bytes.length ≠ 16 then .error panic
      else if test (Dirent.ofBytes bytes) then .ok ((off, some (Dirent.ofBytes bytes)), dp, c)
      else dirScan panic test dp fuel (off + 16) c
    else .ok ((off, none), dp, c)

end Scan

namespace Fs

variable (sb : FsSuperblock) (devsw : Devsw) (fs : Fs)

def dirlookup (dp : Fin NINODE) (name : List (BitVec 8)) :
    Except FsPanic (Option (Fin NINODE × ℕ) × Fs) := do
  let x := (fs.icache dp).toDinode
  if x.type ≠ T_DIR then .error .dirlookupNotDir
  else do
    let ((off, found), d, c) ← dirScan sb devsw .dirlookupRead (·.Matches name) x x.size.toNat 0 fs.content
    let fs := fs.setDinode dp d c
    match found with
    | some de => do
      let (ip, fs) ← fs.iget de.inum.toNat
      .ok (some (ip, off), fs)
    | none => .ok (none, fs)

/-- The part of `dirlink` after the check that the name is not present. -/
def linkEntry (dp : Fin NINODE) (name : List (BitVec 8)) (inum : BitVec 16) : Except FsPanic Fs := do
  let x := (fs.icache dp).toDinode
  let ((off, _), d, c) ← dirScan sb devsw .dirlinkRead (·.inum = 0) x x.size.toNat 0 fs.content
  let fs := fs.setDinode dp d c
  let de := Dirent.mk inum (strncpy name DIRSIZ)
  let (r, fs) ← fs.writei sb devsw dp de.bytes (BitVec.ofNat 32 off) 16
  if r ≠ 16 then .error .dirlink
  else .ok fs

/-- What the call returns; `none` means that it sleeps in `iput`, for the lock of the inode that
it has found. -/
def dirlink (dp : Fin NINODE) (name : List (BitVec 8)) (inum : BitVec 16) :
    Except FsPanic (Option ℤ × Fs) := do
  let (found, fs) ← fs.dirlookup sb devsw dp name
  match found with
  | some (ip, _) =>
    if (fs.icache ip).lock ≠ none then .ok (none, fs)
    else do
      let fs ← fs.iput sb ip
      .ok (some (-1), fs)
  | none => do
    let fs ← fs.linkEntry sb devsw dp name inum
    .ok (some 0, fs)

/-- `sys_unlink` writes an entry of zeros. -/
def clearEntry (dp : Fin NINODE) (off : ℕ) : Except FsPanic Fs := do
  let (r, fs) ← fs.writei sb devsw dp (List.replicate 16 0) (BitVec.ofNat 32 off) 16
  if r ≠ 16 then .error .unlinkWritei
  else .ok fs

end Fs

end Xv6Bfs
