import Mathlib.Data.List.TakeWhile
import Xv6Bfs.Dir
import Xv6Bfs.Proofs.IcacheInv

/-!
# The entries of a directory

The contents of a directory are the bytes of its entries one after the other. The loops of
`dirlookup` and `dirlink` search this list, and a write of 16 bytes at an entry's offset
replaces the entry or appends a new one.
-/

namespace Xv6Bfs

open List Outcome

/-! ### Names -/

/-- The part of a name that counts: the bytes before the terminator, 14 of them at most. -/
def nameKey (s : List (BitVec 8)) : List (BitVec 8) :=
  (s.takeWhile (· ≠ 0)).take DIRSIZ

lemma nameKey_nameKey (s : List (BitVec 8)) : nameKey (nameKey s) = nameKey s := by
  have hall : (nameKey s).takeWhile (· ≠ 0) = nameKey s := by
    rw [takeWhile_eq_self_iff]
    intro b hb
    have hmem : b ∈ s.takeWhile (· ≠ 0) := mem_of_mem_take hb
    have hne := mem_takeWhile_imp hmem
    exact hne
  rw [nameKey, hall, nameKey, take_take, Nat.min_self]

lemma takeWhile_eq_nil_iff (s : List (BitVec 8)) : s.takeWhile (· ≠ 0) = [] ↔ s.headD 0 = 0 := by
  cases s with
  | nil => simp
  | cons a s => by_cases ha : a = 0 <;> simp [takeWhile_cons, ha]

lemma takeWhile_of_headD_ne {s : List (BitVec 8)} (h : s.headD 0 ≠ 0) :
    s.takeWhile (· ≠ 0) = s.headD 0 :: s.tail.takeWhile (· ≠ 0) := by
  cases s with
  | nil => exact absurd rfl h
  | cons a s =>
    exact takeWhile_cons_of_pos (decide_eq_true h)

lemma strncmp_eq_zero_iff (p q : List (BitVec 8)) (n : ℕ) :
    strncmp p q n = 0 ↔ (p.takeWhile (· ≠ 0)).take n = (q.takeWhile (· ≠ 0)).take n := by
  induction n generalizing p q with
  | zero => simp [strncmp]
  | succ n ih =>
    rw [strncmp]
    by_cases hp : p.headD 0 = 0
    · rw [if_neg (fun h => h.1 hp), hp, (takeWhile_eq_nil_iff p).mpr hp, take_nil, eq_comm (a := []),
        take_eq_nil_iff, or_iff_right (by omega), takeWhile_eq_nil_iff, ← BitVec.toNat_inj]
      have hzero : (0 : BitVec 8).toNat = 0 := rfl
      omega
    · by_cases hpq : p.headD 0 = q.headD 0
      · have hq : q.headD 0 ≠ 0 := hpq ▸ hp
        rw [if_pos ⟨hp, hpq⟩, ih, takeWhile_of_headD_ne hp, takeWhile_of_headD_ne hq, take_succ_cons,
          take_succ_cons, hpq, cons_inj_right]
      · rw [if_neg (fun h => hpq h.2)]
        constructor
        · intro h
          exact absurd (BitVec.eq_of_toNat_eq (by omega)) hpq
        · intro h
          rw [takeWhile_of_headD_ne hp, take_succ_cons] at h
          by_cases hq : q.headD 0 = 0
          · rw [(takeWhile_eq_nil_iff q).mpr hq] at h
            cases h
          · rw [takeWhile_of_headD_ne hq, take_succ_cons] at h
            exact absurd (List.cons.inj h).1 hpq

lemma namecmp_eq_zero_iff (s t : List (BitVec 8)) : namecmp s t = 0 ↔ nameKey s = nameKey t :=
  strncmp_eq_zero_iff s t DIRSIZ

lemma length_strncpy (t : List (BitVec 8)) (n : ℕ) : (strncpy t n).length = n := by
  induction n generalizing t with
  | zero => rfl
  | succ n ih =>
    rw [strncpy, length_cons]
    split
    · rw [length_replicate]
    · rw [ih]

lemma takeWhile_strncpy (t : List (BitVec 8)) (n : ℕ) :
    (strncpy t n).takeWhile (· ≠ 0) = (t.takeWhile (· ≠ 0)).take n := by
  induction n generalizing t with
  | zero => simp [strncpy]
  | succ n ih =>
    rw [strncpy]
    by_cases ht : t.headD 0 = 0
    · rw [ht, (takeWhile_eq_nil_iff t).mpr ht, take_nil]
      simp
    · rw [if_neg ht, takeWhile_of_headD_ne ht, take_succ_cons, ← ih]
      exact takeWhile_cons_of_pos (decide_eq_true ht)

lemma nameKey_strncpy (t : List (BitVec 8)) : nameKey (strncpy t DIRSIZ) = nameKey t := by
  rw [nameKey, takeWhile_strncpy, take_take, Nat.min_self, nameKey]

/-! ### Entries as bytes -/

namespace Dirent

lemma length_bytes (de : Dirent) : de.bytes.length = de.name.length + 2 := by
  simp [bytes]

lemma ofBytes_bytes (de : Dirent) : ofBytes de.bytes = de := by
  unfold ofBytes bytes
  simp only [getD_cons_succ, getD_cons_zero, drop_succ_cons, drop_zero, Block.extract_append_extract]

lemma matches_iff {name : List (BitVec 8)} {de : Dirent} :
    de.Matches name ↔ de.inum ≠ 0 ∧ nameKey name = nameKey de.name := by
  rw [Matches, namecmp_eq_zero_iff]

end Dirent

def dirents (bytes : List (BitVec 8)) : List Dirent :=
  (List.range (bytes.length / 16)).map (fun k => Dirent.ofBytes ((bytes.drop (16 * k)).take 16))

lemma length_dirents (bytes : List (BitVec 8)) : (dirents bytes).length = bytes.length / 16 := by
  simp [dirents]

lemma getElem?_dirents (bytes : List (BitVec 8)) (k : ℕ) :
    (dirents bytes)[k]? =
      if k < bytes.length / 16 then some (Dirent.ofBytes ((bytes.drop (16 * k)).take 16)) else none := by
  by_cases hk : k < bytes.length / 16 <;> simp [dirents, hk]

def putEntry (es : List Dirent) (k : ℕ) (de : Dirent) : List Dirent :=
  es.splice k [de]

lemma getElem?_putEntry {es : List Dirent} {k : ℕ} (hk : k ≤ es.length) (de : Dirent) (j : ℕ) :
    (putEntry es k de)[j]? = if j = k then some de else es[j]? := by
  rw [putEntry, List.getElem?_splice hk, length_singleton]
  by_cases hj : j = k
  · rw [if_pos ⟨hj.ge, by omega⟩, if_pos hj, hj, Nat.sub_self]
    rfl
  · rw [if_neg (by omega), if_neg hj]

lemma take_drop_splice {bytes src : List (BitVec 8)} {k j : ℕ} (hsrc : src.length = 16)
    (hk : 16 * k ≤ bytes.length) :
    ((bytes.splice (16 * k) src).drop (16 * j)).take 16 =
      if j = k then src else (bytes.drop (16 * j)).take 16 := by
  apply ext_getElem?
  intro o
  rw [getElem?_take, getElem?_drop, List.getElem?_splice hk, hsrc]
  by_cases ho : o < 16
  · rw [if_pos ho]
    by_cases hj : j = k
    · rw [if_pos hj, if_pos (by omega), hj, Nat.add_sub_cancel_left]
    · rw [if_neg hj, if_neg (by omega), getElem?_take, if_pos ho, getElem?_drop]
  · rw [if_neg ho]
    split
    · rw [getElem?_eq_none (by omega)]
    · rw [getElem?_take, if_neg ho]

lemma dirents_splice {bytes src : List (BitVec 8)} {n k : ℕ} (hn : bytes.length = 16 * n) (hk : k ≤ n)
    (hsrc : src.length = 16) :
    dirents (bytes.splice (16 * k) src) = putEntry (dirents bytes) k (Dirent.ofBytes src) := by
  have hle : 16 * k ≤ bytes.length := by omega
  have hlen : (dirents bytes).length = n := by
    rw [length_dirents]
    omega
  apply ext_getElem?
  intro j
  rw [getElem?_dirents, List.length_splice hle, hsrc, take_drop_splice hsrc hle,
    getElem?_putEntry (by omega), getElem?_dirents]
  by_cases hj : j = k
  · rw [if_pos (by omega), if_pos hj, if_pos hj]
  · rw [if_neg hj, if_neg hj]
    by_cases hjn : j < bytes.length / 16
    · rw [if_pos (by omega), if_pos hjn]
    · rw [if_neg (by omega), if_neg hjn]

/-! ### The loops -/

section Scan

variable {sb : FsSuperblock} {c : Content} {i n : ℕ} {d : Dinode} (devsw : Devsw)

lemma readi_entry (hwf : (c.image sb).WellFormed sb) (hd : (c.image sb).inode i = d) (hfile : d.IsFile)
    (hn : d.size.toNat = 16 * n) {k : ℕ} (hk : k < n) :
    readi sb devsw d (BitVec.ofNat 32 (16 * k)) 16 c =
      .ok (some (((d.bytes (c.image sb).data d.size.toNat).drop (16 * k)).take 16), d, c) := by
  have hmax := (hwf.noHoles i (by rwa [hd])).size_le
  have hfits : MAXFILE * BSIZE < 2 ^ 31 := by decide
  rw [hd] at hmax
  have hoff : (BitVec.ofNat 32 (16 * k)).toNat = 16 * k := by
    rw [BitVec.toNat_ofNat, Nat.mod_eq_of_lt (by omega)]
  have hlen : (16 : BitVec 32).toNat = 16 := rfl
  rw [readi_eq_readSlice devsw hwf hd hfile, readSlice, hoff, hlen, Dinode.length_bytes, if_neg (by omega)]

lemma dirScan_of_reads (panic : FsPanic) (test : Dirent → Bool) {bytes : List (BitVec 8)}
    (hlen : bytes.length = 16 * n) (hn : 16 * n ≤ d.size.toNat)
    (hread : ∀ k < n, readi sb devsw d (BitVec.ofNat 32 (16 * k)) 16 c =
      .ok (some ((bytes.drop (16 * k)).take 16), d, c)) :
    ∀ fuel k, n ≤ fuel + k → k ≤ n → (d.size.toNat = 16 * n ∨ ∃ de ∈ (dirents bytes).drop k, test de = true) →
      dirScan sb devsw panic test d fuel (16 * k) c =
        .ok ((16 * (k + ((dirents bytes).drop k).findIdx test), ((dirents bytes).drop k).find? test), d, c) := by
  have hdirents : (dirents bytes).length = n := by
    rw [length_dirents]
    omega
  -- past the last of these entries
  have hend : ∀ k, k = n → (d.size.toNat = 16 * n ∨ ∃ de ∈ (dirents bytes).drop k, test de = true) →
      (dirents bytes).drop k = [] ∧ d.size.toNat = 16 * k := by
    rintro k rfl hall
    have hnil := drop_eq_nil_of_le hdirents.le
    refine ⟨hnil, hall.resolve_right ?_⟩
    rintro ⟨de, hde, -⟩
    rw [hnil] at hde
    cases hde
  intro fuel
  induction fuel with
  | zero =>
    intro k hfuel hk hall
    rw [(hend k (by omega) hall).1]
    rfl
  | succ fuel ih =>
    intro k hfuel hk hall
    rw [dirScan]
    by_cases hkn : k < n
    · have hentry : (dirents bytes)[k]? = some (Dirent.ofBytes ((bytes.drop (16 * k)).take 16)) := by
        rw [getElem?_dirents, if_pos (by omega)]
      obtain ⟨hlt, hget⟩ := List.getElem?_eq_some_iff.mp hentry
      have h16 : ((bytes.drop (16 * k)).take 16).length = 16 := by
        rw [length_take, length_drop]
        omega
      rw [drop_eq_getElem_cons hlt, hget] at hall ⊢
      rw [if_pos (by omega), hread k hkn]
      simp only [bind, Except.bind, Option.getD_some, h16, ne_eq, not_true, if_false]
      by_cases htest : test (Dirent.ofBytes ((bytes.drop (16 * k)).take 16))
      · simp [htest, findIdx_cons]
      · have hrest : d.size.toNat = 16 * n ∨ ∃ de ∈ (dirents bytes).drop (k + 1), test de = true := by
          simpa [htest] using hall
        rw [if_neg htest, show 16 * k + 16 = 16 * (k + 1) by omega, ih (k + 1) (by omega) (by omega) hrest]
        simp [htest, findIdx_cons]
        omega
    · obtain ⟨hnil, hsize⟩ := hend k (by omega) hall
      rw [if_neg hsize.not_gt, hnil]
      rfl

lemma dirScan_eq (panic : FsPanic) (test : Dirent → Bool) (hwf : (c.image sb).WellFormed sb)
    (hd : (c.image sb).inode i = d) (hfile : d.IsFile) (hn : d.size.toNat = 16 * n) :
    ∀ fuel k, n ≤ fuel + k → k ≤ n → dirScan sb devsw panic test d fuel (16 * k) c =
        .ok ((16 * (k + ((dirents (d.bytes (c.image sb).data d.size.toNat)).drop k).findIdx test),
          ((dirents (d.bytes (c.image sb).data d.size.toNat)).drop k).find? test), d, c) := by
  intro fuel k hfuel hk
  apply dirScan_of_reads devsw panic test (by rw [Dinode.length_bytes, hn]) hn.ge _ _ _ hfuel hk (.inl hn)
  intro k hk
  exact readi_entry devsw hwf hd hfile hn hk

end Scan

/-! ### A directory in the inode cache -/

lemma Fs.dirlookup_of_scan {sb : FsSuperblock} {devsw : Devsw} {fs : Fs} {dp : Fin NINODE} {es : List Dirent}
    {name : List (BitVec 8)} (htype : (fs.icache dp).type = T_DIR)
    (hscan : dirScan sb devsw .dirlookupRead (·.Matches name) (fs.icache dp).toDinode (fs.icache dp).size.toNat 0
        fs.content =
      .ok ((16 * es.findIdx (·.Matches name), es.find? (·.Matches name)), (fs.icache dp).toDinode, fs.content)) :
    fs.dirlookup sb devsw dp name =
      match es.find? (·.Matches name) with
      | some de => (fs.iget de.inum.toNat).map
          (fun r => (some (r.1, 16 * es.findIdx (·.Matches name)), r.2))
      | none => .ok (none, fs) := by
  unfold Fs.dirlookup
  dsimp only
  rw [htype, if_neg (by simp), hscan]
  simp only [bind, Except.bind, FsInv.setDinode_self]
  cases es.find? (·.Matches name) with
  | none => rfl
  | some de =>
    dsimp only
    cases fs.iget de.inum.toNat <;> rfl

/-- The locked inode `dp` is a directory with the entries `es`. -/
structure IsDir (sb : FsSuperblock) (fs : Fs) (dp : Fin NINODE) (es : List Dirent) : Prop where
  inv : FsInv sb fs
  lock : (fs.icache dp).lock ≠ none
  type : (fs.icache dp).type = T_DIR
  size : (fs.icache dp).size.toNat = 16 * es.length
  entries : dirents ((fs.icache dp).toDinode.bytes (fs.content.image sb).data (fs.icache dp).size.toNat) = es

namespace IsDir

variable {sb : FsSuperblock} {devsw : Devsw} {fs fs' : Fs} {dp : Fin NINODE} {es : List Dirent}

lemma isFile (h : IsDir sb fs dp es) : (fs.icache dp).toDinode.IsFile := by
  rw [Dinode.IsFile, h.type]
  decide

lemma inode (h : IsDir sb fs dp es) :
    0 < (fs.icache dp).ref ∧ (fs.content.image sb).inode (fs.icache dp).inum = (fs.icache dp).toDinode := by
  obtain ⟨p, hp⟩ := Option.ne_none_iff_exists'.mp h.lock
  obtain ⟨hip, -, -, hd⟩ := h.inv.of_locked hp
  exact ⟨hip, hd⟩

lemma scan (h : IsDir sb fs dp es) (panic : FsPanic) (test : Dirent → Bool) :
    dirScan sb devsw panic test (fs.icache dp).toDinode (fs.icache dp).size.toNat 0 fs.content =
      .ok ((16 * es.findIdx test, es.find? test), (fs.icache dp).toDinode, fs.content) := by
  have hsize := h.size
  have hscan := dirScan_eq devsw panic test h.inv.wellFormed h.inode.2 h.isFile h.size
    (fs.icache dp).size.toNat 0 (by omega) (Nat.zero_le _)
  rw [h.entries, drop_zero, Nat.mul_zero, Nat.zero_add] at hscan
  exact hscan

lemma dirlookup_eq (h : IsDir sb fs dp es) (name : List (BitVec 8)) :
    fs.dirlookup sb devsw dp name =
      match es.find? (·.Matches name) with
      | some de => (fs.iget de.inum.toNat).map
          (fun r => (some (r.1, 16 * es.findIdx (·.Matches name)), r.2))
      | none => .ok (none, fs) :=
  Fs.dirlookup_of_scan h.type (h.scan _ _)

lemma writei (h : IsDir sb fs dp es) (devsw : Devsw) {src : List (BitVec 8)} {k : ℕ} (hk : k ≤ es.length)
    (hsrc : src.length = 16) (hmax : 16 * k + 16 ≤ MAXFILE * BSIZE) :
    Spec (fs.writei sb devsw dp src (BitVec.ofNat 32 (16 * k)) 16)
      (fun r => r.1 = 16 ∧ IsDir sb r.2 dp (putEntry es k (Dirent.ofBytes src)) ∧
        ∀ ip, ip ≠ dp → r.2.icache ip = fs.icache ip)
      (fun e => e = .ballocOutOfBlocks) := by
  obtain ⟨p, hp⟩ := Option.ne_none_iff_exists'.mp h.lock
  obtain ⟨hip, hd⟩ := h.inode
  have hfits : MAXFILE * BSIZE < 2 ^ 31 := by decide
  have hsize := h.size
  have hoff : (BitVec.ofNat 32 (16 * k)).toNat = 16 * k := by
    rw [BitVec.toNat_ofNat, Nat.mod_eq_of_lt (by omega)]
  have h16 : (16 : BitVec 32).toNat = 16 := rfl
  have hspec := h.inv.writei_file devsw hp h.isFile src (BitVec.ofNat 32 (16 * k)) 16 (by rw [hsrc, h16])
    (by rw [BitVec.le_def, hoff]; omega) (by rw [hoff, h16]; exact hmax)
  refine hspec.imp ?_
  rintro ⟨r, fs'⟩ ⟨hr, hinv, hs, hfs'⟩
  dsimp only at hr hinv hs hfs' ⊢
  have hslot : fs'.icache dp = { fs.icache dp with toDinode := (fs'.icache dp).toDinode } := by
    rw [hfs']
    simp only [Fs.setDinode, Function.update_self]
  have hsize' := hs.size
  have hbytes := hs.bytes
  rw [hd, hsrc, hoff] at hsize'
  rw [hd, hoff] at hbytes
  have hentries : dirents ((fs'.icache dp).toDinode.bytes (fs'.content.image sb).data
      (fs'.icache dp).size.toNat) = putEntry es k (Dirent.ofBytes src) := by
    rw [hbytes, dirents_splice (by rw [Dinode.length_bytes, hsize]) hk hsrc, h.entries]
  refine ⟨by rw [hr, h16]; rfl, ⟨hinv, ?_, ?_, ?_, hentries⟩, ?_⟩
  · rw [hslot]
    exact h.lock
  · rw [hs.attrs, hd]
    exact h.type
  · rw [← hentries, length_dirents, Dinode.length_bytes]
    omega
  · intro ip hne
    rw [hfs']
    exact Function.update_of_ne hne ..

end IsDir

end Xv6Bfs
