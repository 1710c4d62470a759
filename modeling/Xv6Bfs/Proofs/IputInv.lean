import Xv6Bfs.Iput
import Xv6Bfs.Proofs.IcacheInv

/-!
# What the inode cache keeps while its users run

While `iput` frees an inode its entry stays locked and referenced, and the inode on disk stays
allocated, so that no process can get a reference that counts; once the inode is free on disk,
`iput` writes nothing more of it. A process that allocates the number meanwhile finds the old
entry, waits for its lock and reads the inode again.
-/

namespace Xv6Bfs

namespace InodeLabel

/-- The process holds the lock of the entry. -/
def critical : InodeLabel → Bool
  | ilockSleep | iputSleep | iputDrop => false
  | _ => true

/-- The place is in `iput`. -/
def puts : InodeLabel → Bool
  | ilockSleep | ilockTest | ilockRead | ilockValid | ilockReturn => false
  | _ => true

/-- `iput` has found that it drops the last reference. -/
def sole : InodeLabel → Bool
  | iputTrunc | iputType | iputUpdate => true
  | _ => false

/-- `iput` has freed the inode, or keeps it. -/
def finishing : InodeLabel → Bool
  | iputInvalid | iputUnlock | iputDrop => true
  | _ => false

end InodeLabel

def InodePc.label (ip : Fin NINODE) : InodePc → Option InodeLabel
  | .inside jp l => if jp = ip then some l else none
  | _ => none

@[simp] lemma InodePc.label_inside (ip : Fin NINODE) (l : InodeLabel) : (InodePc.inside ip l).label ip = some l :=
  if_pos rfl

lemma InodeLabel.critical_of_sole {l : InodeLabel} (hl : l.sole = true) : l.critical = true := by
  cases l <;> first | rfl | cases hl

/-- The entry has the inode as it is on disk, where it is allocated. -/
def Clean (x : Inode) (d : Dinode) : Prop :=
  x.toDinode = d ∧ d.type ≠ 0

/-- What a locked entry has to do with the inode on disk, by the place of the process that holds
the lock; `none` is a process that has locked the entry and uses it. -/
def Fits (x : Inode) (d : Dinode) : Option InodeLabel → Prop
  | some .ilockTest | some .iputTest | some .iputUnlock => x.valid = true → Clean x d
  | some .ilockRead => x.valid = false
  | some .ilockValid => x.valid = false ∧ (x.type = 0 ∨ x.toDinode = d)
  | some .iputRef | some .iputTrunc => x.valid = true ∧ Clean x d ∧ d.nlink = 0
  | some .iputType => x.valid = true ∧ Clean x d ∧ d.nlink = 0 ∧ d.size = 0 ∧ d.addrs = fun _ => 0
  | some .iputUpdate => x.valid = true ∧ d.type ≠ 0 ∧ x.toDinode = { d with type := 0 } ∧ d.nlink = 0 ∧
      d.size = 0 ∧ d.addrs = fun _ => 0
  | some .iputInvalid => True
  | some .iputDrop => False
  | _ => x.valid = true ∧ Clean x d

lemma Fits.of_free {x : Inode} {d : Dinode} {l : Option InodeLabel} (h : Fits x d l) (hfree : d.type = 0)
    (d' : Dinode) : Fits x d' l := by
  have hclean : ∀ {x : Inode}, ¬ Clean x d := fun hx => hx.2 hfree
  match l, h with
  | some .ilockTest, h => exact fun hvalid => absurd (h hvalid) hclean
  | some .iputTest, h => exact fun hvalid => absurd (h hvalid) hclean
  | some .iputUnlock, h => exact fun hvalid => absurd (h hvalid) hclean
  | some .ilockRead, h => exact h
  | some .ilockValid, h =>
    refine ⟨h.1, .inl ?_⟩
    obtain hzero | hcopy := h.2
    · exact hzero
    · rw [hcopy, hfree]
  | some .iputRef, h => exact absurd h.2.1 hclean
  | some .iputTrunc, h => exact absurd h.2.1 hclean
  | some .iputType, h => exact absurd h.2.1 hclean
  | some .iputUpdate, h => exact absurd hfree h.2.1
  | some .iputInvalid, _ => exact trivial
  | some .iputDrop, h => exact h
  | none, h => exact absurd h.2 hclean
  | some .ilockSleep, h => exact absurd h.2 hclean
  | some .ilockReturn, h => exact absurd h.2 hclean
  | some .iputSleep, h => exact absurd h.2 hclean

lemma Fits.of_sole {x : Inode} {d : Dinode} {l : InodeLabel} (h : Fits x d (some l)) (hl : l.sole = true) :
    d.type ≠ 0 ∧ d.nlink = 0 := by
  cases l with
  | iputTrunc => exact ⟨h.2.1.2, h.2.2⟩
  | iputType => exact ⟨h.2.1.2, h.2.2.1⟩
  | iputUpdate => exact ⟨h.2.1, h.2.2.2.1⟩
  | _ => cases hl

namespace InodeRun

/-- The process that calls `iput`, `writei` or `iupdate` got its reference while the inode had links, or has allocated the inode. -/
def Named (s : InodeRun) : InodeEvent → Prop
  | .call p (.iput ip) | .call p (.writei ip _ _ _) | .call p (.update ip _ _ _) => ⟨p, ip, true⟩ ∈ s.refs
  | _ => True

instance (s : InodeRun) (e : InodeEvent) : Decidable (s.Named e) :=
  match e with
  | .call p (.iput ip) | .call p (.writei ip _ _ _) | .call p (.update ip _ _ _) =>
    inferInstanceAs (Decidable ((⟨p, ip, true⟩ : Reference) ∈ s.refs))
  | .call _ (.iget _) | .call _ (.ialloc _) | .call _ (.idup _ _) | .call _ (.ilock _) | .call _ (.iunlock _) | .step _ =>
    .isTrue trivial

/-- The process is about to drop the reference, and has no other such one. -/
def Leaving (pc : Pid → InodePc) (refs : Multiset Reference) (r : Reference) : Prop :=
  (∃ l, pc r.pid = .inside r.ip l ∧ l.finishing = true) ∧ refs.count r = 1

/-- Nobody but `owner` has a reference that counts to the entry, except those who are about to drop it. -/
def OnlyLeaving (s : InodeRun) (owner : Option Pid) (ip : Fin NINODE) : Prop :=
  ∀ r ∈ s.refs, r.ip = ip → r.named = true → owner = some r.pid ∨ Leaving s.pc s.refs r

/-- Nobody but `p` has a reference that counts to the entry, and the inode is not a new one. -/
def Sole (s : InodeRun) (p : Pid) (ip : Fin NINODE) : Prop :=
  (∀ r ∈ s.refs, r.ip = ip → r.named = true → r = ⟨p, ip, true⟩) ∧ s.refs.count ⟨p, ip, true⟩ = 1 ∧
    s.born (s.fs.icache ip).inum = none

def disk (sb : FsSuperblock) (s : InodeRun) (i : ℕ) : Dinode :=
  (s.fs.content.image sb).inode i

/-- `q` has allocated the inode and not locked it yet: it is on disk as `ialloc` wrote it, and `q` will read it so. -/
structure Born (sb : FsSuperblock) (s : InodeRun) (i : ℕ) (q : Pid) (type : BitVec 16) : Prop where
  range : i < sb.ninodes
  type_ne : type ≠ 0
  disk : s.disk sb i = fresh type
  refs : ∀ ip, 0 < (s.fs.icache ip).ref → (s.fs.icache ip).inum = i → s.OnlyLeaving (some q) ip
  ilock : ∀ ip l, 0 < (s.fs.icache ip).ref → (s.fs.icache ip).inum = i → s.pc q = .inside ip l → l.puts = false
  lock : ∀ ip, 0 < (s.fs.icache ip).ref → (s.fs.icache ip).inum = i → (s.fs.icache ip).lock = some q →
    ∃ l, s.pc q = .inside ip l
  read : ∀ ip, 0 < (s.fs.icache ip).ref → (s.fs.icache ip).inum = i → s.pc q = .inside ip .ilockValid →
    (s.fs.icache ip).toDinode = fresh type

/-- What every step keeps: entries in use are of distinct inodes and are counted, and a valid one agrees with the disk unless
the process that has it locked is about to change either. -/
structure Inv (sb : FsSuperblock) (s : InodeRun) : Prop where
  wellFormed : (s.fs.content.image sb).WellFormed sb
  count : ∀ ip, (s.fs.icache ip).ref = s.refs.countP (·.ip = ip)
  unique : ∀ ip jp, 0 < (s.fs.icache ip).ref → 0 < (s.fs.icache jp).ref →
    (s.fs.icache ip).inum = (s.fs.icache jp).inum → ip = jp
  range : ∀ ip, 0 < (s.fs.icache ip).ref → (s.fs.icache ip).inum < sb.ninodes
  unlocked : ∀ ip, 0 < (s.fs.icache ip).ref → (s.fs.icache ip).lock = none → (s.fs.icache ip).valid = true →
    Clean (s.fs.icache ip) (s.disk sb (s.fs.icache ip).inum)
  locked : ∀ ip p, (s.fs.icache ip).lock = some p → (∃ b, ⟨p, ip, b⟩ ∈ s.refs) ∧
    Fits (s.fs.icache ip) (s.disk sb (s.fs.icache ip).inum) ((s.pc p).label ip)
  critical : ∀ p ip l, s.pc p = .inside ip l → l.critical = true → (s.fs.icache ip).lock = some p
  holds : ∀ p ip l, s.pc p = .inside ip l → ∃ b, ⟨p, ip, b⟩ ∈ s.refs ∧ (l.puts = true → b = true)
  sole : ∀ p ip l, s.pc p = .inside ip l → l.sole = true → s.Sole p ip
  free : ∀ ip, 0 < (s.fs.icache ip).ref → (s.disk sb (s.fs.icache ip).inum).type = 0 → s.OnlyLeaving none ip
  born : ∀ i q type, s.born i = some (q, type) → Born sb s i q type
  iget : ∀ p i, s.pc p = .iget i → ∃ type, s.born i = some (p, type)
  ialloc : ∀ p type i, s.pc p = .ialloc type i → type ≠ 0

variable {sb : FsSuperblock} {s : InodeRun} {p : Pid} {ip : Fin NINODE}

lemma Inv.ref_pos (h : Inv sb s) {r : Reference} (hr : r ∈ s.refs) : 0 < (s.fs.icache r.ip).ref := by
  rw [h.count, Multiset.countP_pos]
  exact ⟨r, hr, rfl⟩

lemma Inv.ref_pos_of_lock (h : Inv sb s) (hlock : (s.fs.icache ip).lock = some p) : 0 < (s.fs.icache ip).ref := by
  obtain ⟨⟨b, hb⟩, -⟩ := h.locked ip p hlock
  exact h.ref_pos hb

end InodeRun

end Xv6Bfs
