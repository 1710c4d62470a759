import Xv6Bfs.BufList
import Xv6Bfs.Proofs.Bcache
import Mathlib.Data.Fintype.Card

/-!
# The buffers are one list in the order of their release

The pointers are a circular list of all the buffers, and on it the searches of `bget` are those over the list of buffers of the
cache. A buffer that is in use comes before all the others with its block, so that a search finds it first.
-/

namespace Xv6Bfs

open Function LinkedRing List Transition

namespace Bcache

variable (c : Bcache) (i : BufId)

lemma unref_buf : (c.unref i).buf = update c.buf i { c.buf i with refcnt := (c.buf i).refcnt - 1 } := by
  rw [unref]
  dsimp only
  split_ifs
  · rfl
  · rfl

lemma unref_list : (c.unref i).list = if (c.buf i).refcnt - 1 = 0 then i :: c.list.erase i else c.list := by
  simp only [unref, setBuf, update_self, apply_ite list]

end Bcache

namespace BufList

variable {c : BufList} {l : List BufId} {i j : BufId} {dev : BitVec 32} {b : Blockno}

structure Lists (c : BufList) (l : List BufId) : Prop where
  ring : IsRing c.next c.prev none (l.map some)
  listed : ∀ i, i ∈ l

lemma Lists.nodup (h : c.Lists l) : l.Nodup :=
  List.Nodup.of_map some (nodup_cons.mp h.ring.nodup).2

lemma Lists.bget_eq (h : c.Lists l) (disk : Blockno → Block) (dev : BitVec 32) (b : Blockno) :
    c.bget dev b = some (((Bcache.mk disk c.buf l).bget dev b).map fun r => (r.1, { c with buf := r.2.buf })) := by
  have hfuel : (l.map some).length < NBUF + 1 := by
    have hle := h.nodup.length_le_card
    rw [Fintype.card_fin] at hle
    rw [length_map]
    exact Nat.lt_succ_of_le hle
  have hfuel' : (l.map some).reverse.length < NBUF + 1 := by
    rwa [length_reverse]
  have hblock : c.isBlock dev b ∘ some = fun i => decide ((c.buf i).dev = dev ∧ (c.buf i).blockno = b) := rfl
  have hunused : c.isUnused ∘ some = fun i => decide ((c.buf i).refcnt = 0 ∧ (c.buf i).dirty = false) := rfl
  rw [bget, h.ring.scan_eq _ hfuel, h.ring.reverse.scan_eq _ hfuel', Bcache.bget, ← map_reverse, find?_map,
    find?_map, hblock, hunused]
  cases l.find? fun i => decide ((c.buf i).dev = dev ∧ (c.buf i).blockno = b) with
  | some i => rfl
  | none =>
    cases l.reverse.find? fun i => decide ((c.buf i).refcnt = 0 ∧ (c.buf i).dirty = false) with
    | some i => rfl
    | none => rfl

lemma ring_pushFront {l : List BufPtr} (h : IsRing c.next c.prev none l) (hi : some i ∉ l) :
    IsRing (c.pushFront (some i)).next (c.pushFront (some i)).prev none (some i :: l) := by
  have hring := h.cons (x := some i) (by simp [hi])
  have hnext : update c.next (some i) (c.next none) none = c.next none :=
    update_of_ne (Option.some_ne_none i).symm ..
  rw [pushFront]
  dsimp only
  rw [hnext]
  exact hring

lemma binit_lists (c : BufList) : c.binit.Lists (List.finRange NBUF).reverse ∧ c.binit.buf = c.buf := by
  have hloop : ∀ (is : List BufId) (c : BufList) (l : List BufId), IsRing c.next c.prev none (l.map some) → (is ++ l).Nodup →
      IsRing (is.foldl (fun c i => c.pushFront (some i)) c).next (is.foldl (fun c i => c.pushFront (some i)) c).prev none
        ((is.reverse ++ l).map some) ∧ (is.foldl (fun c i => c.pushFront (some i)) c).buf = c.buf := by
    intro is
    induction is with
    | nil => exact fun c l hring _ => ⟨hring, rfl⟩
    | cons i is ih =>
      intro c l hring hnodup
      rw [cons_append, nodup_cons, mem_append, not_or] at hnodup
      obtain ⟨hring', hbuf⟩ := ih (c.pushFront (some i)) (i :: l) (ring_pushFront hring (by simp [hnodup.1.2])) (by
        rw [nodup_middle, nodup_cons, mem_append, not_or]
        exact hnodup)
      rw [reverse_cons, append_assoc]
      exact ⟨hring', hbuf⟩
  have hempty : IsRing (update c.next none none) (update c.prev none none) none ([].map some) :=
    isRing_nil (update_self ..) (update_self ..)
  obtain ⟨hring, hbuf⟩ := hloop (List.finRange NBUF)
    { c with prev := update c.prev none none, next := update c.next none none } [] hempty
    (by simpa using nodup_finRange NBUF)
  rw [append_nil] at hring
  exact ⟨⟨hring, fun i => mem_reverse.mpr (mem_finRange i)⟩, hbuf⟩

/-- On the list, `brelse` is the one of the cache: the last reference moves the buffer to the front. -/
lemma Lists.brelse (h : c.Lists l) (disk : Blockno → Block) (i : BufId) :
    (c.brelse i).Lists ((Bcache.mk disk c.buf l).unref i).list ∧ (c.brelse i).buf = ((Bcache.mk disk c.buf l).unref i).buf := by
  simp only [BufList.brelse, Bcache.unref, setBuf, Bcache.setBuf, update_self]
  by_cases hzero : (c.buf i).refcnt - 1 = 0
  · rw [if_pos hzero, if_pos hzero]
    refine ⟨?_, rfl⟩
    obtain ⟨as, bs, rfl⟩ := append_of_mem (h.listed i)
    have hnodup := h.nodup
    rw [nodup_middle, nodup_cons, mem_append, not_or] at hnodup
    have hring := h.ring
    rw [map_append, map_cons] at hring
    have hprev : update c.prev (c.next (some i)) (c.prev (some i)) (some i) = c.prev (some i) :=
      update_of_ne hring.next_ne.symm ..
    have hout := hring.unlink
    rw [← map_append] at hout
    rw [erase_append_right _ hnodup.1.1, erase_cons_head]
    refine ⟨?_, ?_⟩
    · rw [map_cons]
      apply ring_pushFront
      · rw [unlink]
        dsimp only
        rw [hprev]
        exact hout
      · simp [hnodup.1]
    · intro j
      have hj := h.listed j
      simp only [mem_append, mem_cons] at hj ⊢
      tauto
  · rw [if_neg hzero, if_neg hzero]
    exact ⟨⟨h.ring, h.listed⟩, rfl⟩

lemma pairwise_of_find? {p : BufId → Bool} (hl : l.Nodup) (hfind : l.find? p = some i) :
    l.Pairwise fun j k => k = i → p j = false := by
  induction l with
  | nil => exact List.Pairwise.nil
  | cons a l ih =>
    rw [nodup_cons] at hl
    rw [find?_cons] at hfind
    cases ha : p a with
    | false =>
      rw [ha] at hfind
      exact pairwise_cons.mpr ⟨fun _ _ _ => ha, ih hl.2 hfind⟩
    | true =>
      rw [ha] at hfind
      obtain rfl : a = i := Option.some.inj hfind
      refine pairwise_cons.mpr ⟨?_, hl.2.imp_of_mem ?_⟩
      · rintro k hk rfl
        exact absurd hk hl.1
      · rintro j k - hk - rfl
        exact absurd hk hl.1

lemma bget_order {buf : BufId → Bbuf} {disk : Blockno → Block} {c' : Bcache} (hl : l.Nodup)
    (hget : (Bcache.mk disk buf l).bget dev b = some (i, c')) :
    (buf i).Is dev b ∧ l.Pairwise (fun j k => k = i → ¬ (buf j).Is dev b) ∧
        c'.buf = update buf i { buf i with refcnt := (buf i).refcnt + 1 } ∨
      (∀ j ∈ l, ¬ (buf j).Is dev b) ∧ ¬ (buf i).InUse ∧ l.Pairwise (fun j k => j = i → (buf k).InUse) ∧
        c'.buf = update buf i
          { buf i with dev := dev, blockno := b, valid := false, dirty := false, refcnt := 1 } := by
  have huse : ∀ j, decide ((buf j).refcnt = 0 ∧ (buf j).dirty = false) = false ↔ (buf j).InUse := by
    intro j
    rw [decide_eq_false_iff_not, not_and_or, Bool.not_eq_false, Bbuf.InUse, Nat.pos_iff_ne_zero]
  unfold Bcache.bget at hget
  dsimp only at hget
  split at hget
  · rename_i k hfind
    cases hget
    refine .inl ⟨?_, ?_, rfl⟩
    · have hblock := find?_some hfind
      exact of_decide_eq_true hblock
    · refine (pairwise_of_find? hl hfind).imp fun hp hk => ?_
      exact of_decide_eq_false (hp hk)
  · rename_i hmiss
    split at hget
    · rename_i k hfind
      cases hget
      refine .inr ⟨?_, ?_, ?_, rfl⟩
      · intro j hj hblock
        exact find?_eq_none.mp hmiss j hj (decide_eq_true hblock)
      · intro hinUse
        rw [← huse i, find?_some hfind] at hinUse
        cases hinUse
      · refine (pairwise_reverse.mp (pairwise_of_find? (nodup_reverse.mpr hl) hfind)).imp fun hp hk => ?_
        exact (huse _).mp (hp hk)
    · cases hget

end BufList

/-- The buffer is used, or it holds the data of its block. -/
def Bbuf.Live (x : Bbuf) : Prop :=
  0 < x.refcnt ∨ x.valid = true ∨ x.dirty = true

/-- The list is in the order of the releases, the last one first, and no live buffer has another one of its block before it. -/
structure BufRun.Ordered (x : BufRun) (l : List BufId) : Prop where
  lists : x.list.Lists l
  first : l.Pairwise fun j k =>
    (x.list.buf k).Live → ¬ (x.list.buf j).Is (x.list.buf k).dev (x.list.buf k).blockno
  held : ∀ i, (x.list.buf i).refcnt = x.held i
  order : l.Pairwise fun j k =>
    (x.list.buf j).refcnt = 0 → (x.list.buf k).refcnt = 0 → x.released k ≤ x.released j
  past : ∀ i, x.released i ≤ x.clock

namespace BufRun

variable {x x' : BufRun} {l : List BufId} {i j : BufId} {dev : BitVec 32} {b : Blockno}

lemma refcnt_eq_zero {y : Bbuf} (hfree : ¬ y.InUse) : y.refcnt = 0 := by
  by_contra hne
  exact hfree (.inl (Nat.pos_of_ne_zero hne))

lemma Ordered.unique (h : x.Ordered l) (hi : (x.list.buf i).Live) (hj : (x.list.buf j).Live)
    (hblock : (x.list.buf j).Is (x.list.buf i).dev (x.list.buf i).blockno) : i = j := by
  let R : BufId → BufId → Prop := fun j k => (x.list.buf j).Live → (x.list.buf k).Live →
    ¬ ((x.list.buf j).dev = (x.list.buf k).dev ∧ (x.list.buf j).blockno = (x.list.buf k).blockno)
  have : Std.Symm R := ⟨fun j k hp hk hj hsame => hp hj hk ⟨hsame.1.symm, hsame.2.symm⟩⟩
  have hpair : l.Pairwise R := h.first.imp fun hp _ hk => hp hk
  by_contra hne
  exact hpair.forall (h.lists.listed i) (h.lists.listed j) hne hi hj ⟨hblock.1.symm, hblock.2.symm⟩

lemma Ordered.change (h : x.Ordered l) {y : Bbuf} (hpos : 0 < y.refcnt)
    (hbefore : l.Pairwise fun j k => k = i → ¬ (x.list.buf j).Is y.dev y.blockno)
    (hafter : l.Pairwise fun j k => j = i → (x.list.buf k).Live → ¬ y.Is (x.list.buf k).dev (x.list.buf k).blockno)
    (hlists : x'.list.Lists l) (hbuf : x'.list.buf = update x.list.buf i y)
    (hheld : x'.held = update x.held i y.refcnt)
    (hreleased : ∀ j, j ≠ i → x'.released j = x.released j) (hpast : ∀ j, x'.released j ≤ x'.clock) : x'.Ordered l := by
  have hself : x'.list.buf i = y := by
    rw [hbuf]
    exact update_self ..
  have hother : ∀ j, j ≠ i → x'.list.buf j = x.list.buf j := by
    intro j hj
    rw [hbuf]
    exact update_of_ne hj ..
  refine ⟨hlists, ?_, ?_, ?_, hpast⟩
  · refine (h.lists.nodup.and (h.first.and (hbefore.and hafter))).imp ?_
    rintro j k ⟨hjk, hfirst, hbefore, hafter⟩
    by_cases hk : k = i
    · subst hk
      rw [hself, hother j hjk]
      exact fun _ => hbefore rfl
    · rw [hother k hk]
      by_cases hj : j = i
      · rw [hj, hself]
        exact hafter hj
      · rw [hother j hj]
        exact hfirst
  · intro j
    rw [hheld]
    by_cases hj : j = i
    · rw [hj, hself, update_self]
    · rw [hother j hj, update_of_ne hj, h.held j]
  · refine h.order.imp ?_
    intro j k horder hj hk
    have hne : ∀ {j}, (x'.list.buf j).refcnt = 0 → j ≠ i := by
      rintro j hzero rfl
      rw [hself] at hzero
      omega
    rw [hreleased j (hne hj), hreleased k (hne hk)]
    rw [hother j (hne hj)] at hj
    rw [hother k (hne hk)] at hk
    exact horder hj hk

lemma Ordered.bget (h : x.Ordered l) {c : BufList} (hget : x.list.bget dev b = some (some (i, c))) :
    Ordered { x with list := c, held := update x.held i (x.held i + 1) } l := by
  rw [h.lists.bget_eq (fun _ _ => 0), Option.some_inj, Option.map_eq_some_iff] at hget
  obtain ⟨⟨i', c'⟩, hget, heq⟩ := hget
  obtain ⟨rfl, rfl⟩ := Prod.mk.inj heq
  obtain ⟨hblock, hfirst, hbuf⟩ | ⟨hmiss, hfree, -, hbuf⟩ := BufList.bget_order h.lists.nodup hget
  · refine h.change (i := i') (y := { x.list.buf i' with refcnt := (x.list.buf i').refcnt + 1 }) (Nat.succ_pos _) ?_ ?_
      ⟨h.lists.ring, h.lists.listed⟩ hbuf ?_ (fun _ _ => rfl) h.past
    · rw [hblock.1, hblock.2]
      exact hfirst
    · refine h.first.imp fun hp hj => ?_
      rw [← hj]
      exact hp
    · rw [h.held]
  · have hmiss : ∀ j, ¬ (x.list.buf j).Is dev b := fun j => hmiss j (h.lists.listed j)
    refine h.change (i := i') (y := { x.list.buf i' with
      dev := dev, blockno := b, valid := false, dirty := false, refcnt := 1 }) Nat.one_pos ?_ ?_
      ⟨h.lists.ring, h.lists.listed⟩ hbuf ?_ (fun _ _ => rfl) h.past
    · exact h.first.imp fun _ _ => hmiss _
    · refine h.first.imp fun _ _ _ hblock => ?_
      exact hmiss _ ⟨hblock.1.symm, hblock.2.symm⟩
    · rw [← h.held, refcnt_eq_zero hfree]

lemma Ordered.live (h : x.Ordered l) (hheld : 0 < x.held i) : (x.list.buf i).Live :=
  .inl (h.held i ▸ hheld)

lemma Ordered.keep (h : x.Ordered l) (hheld : 0 < x.held i) {y : Bbuf} (hpos : 0 < y.refcnt)
    (hblock : y.Is (x.list.buf i).dev (x.list.buf i).blockno)
    (hlists : x'.list.Lists l) (hbuf : x'.list.buf = update x.list.buf i y)
    (hheld' : x'.held = update x.held i y.refcnt)
    (hreleased : ∀ j, j ≠ i → x'.released j = x.released j) (hpast : ∀ j, x'.released j ≤ x'.clock) : x'.Ordered l := by
  refine h.change hpos ?_ ?_ hlists hbuf hheld' hreleased hpast
  · refine h.first.imp fun hp hk => ?_
    rw [hblock.1, hblock.2, ← hk]
    exact hp (hk ▸ h.live hheld)
  · refine h.first.imp fun hp hj hk hsame => ?_
    rw [hj] at hp
    exact hp hk ⟨hblock.1.symm.trans hsame.1, hblock.2.symm.trans hsame.2⟩

lemma Ordered.brelse (h : x.Ordered l) (hheld : 0 < x.held i) :
    ∃ l', Ordered ⟨x.list.brelse i, update x.held i (x.held i - 1),
      update x.released i (x.clock + 1), x.clock + 1⟩ l' := by
  obtain ⟨hlists, hbuf⟩ := h.lists.brelse (fun _ _ => 0) i
  rw [Bcache.unref_buf] at hbuf
  rw [Bcache.unref_list, h.held] at hlists
  have hpast : ∀ j, update x.released i (x.clock + 1) j ≤ x.clock + 1 := by
    intro j
    by_cases hj : j = i
    · rw [hj, update_self]
    · rw [update_of_ne hj]
      exact Nat.le_succ_of_le (h.past j)
  by_cases hlast : x.held i - 1 = 0
  · rw [if_pos hlast] at hlists
    have hother : ∀ j ∈ l.erase i, j ≠ i ∧ (x.list.brelse i).buf j = x.list.buf j ∧
        update x.released i (x.clock + 1) j = x.released j := by
      intro j hj
      have hne : j ≠ i := (h.lists.nodup.mem_erase_iff.mp hj).1
      rw [hbuf]
      exact ⟨hne, update_of_ne hne .., update_of_ne hne ..⟩
    have hself : (x.list.brelse i).buf i = { x.list.buf i with refcnt := (x.list.buf i).refcnt - 1 } := by
      rw [hbuf]
      exact update_self ..
    refine ⟨i :: l.erase i, hlists, pairwise_cons.mpr ⟨?_, ?_⟩, ?_, pairwise_cons.mpr ⟨?_, ?_⟩, hpast⟩
    · -- the buffer was live, so no other live buffer has its block
      intro k hk
      obtain ⟨hne, hkbuf, -⟩ := hother k hk
      dsimp only
      rw [hkbuf, hself]
      intro hlive hblock
      exact hne (h.unique (h.live hheld) hlive ⟨hblock.1.symm, hblock.2.symm⟩).symm
    · refine (h.first.sublist (erase_sublist ..)).imp_of_mem fun hj hk hp => ?_
      dsimp only
      rw [(hother _ hj).2.1, (hother _ hk).2.1]
      exact hp
    · intro j
      dsimp only
      by_cases hj : j = i
      · rw [hj, hself, update_self]
        dsimp only
        rw [h.held]
      · rw [hbuf, update_of_ne hj, update_of_ne hj]
        exact h.held j
    · intro k hk _ _
      dsimp only
      rw [(hother k hk).2.2, update_self]
      exact Nat.le_succ_of_le (h.past k)
    · refine (h.order.sublist (erase_sublist ..)).imp_of_mem fun hj hk hp => ?_
      dsimp only
      rw [(hother _ hj).2.1, (hother _ hk).2.1, (hother _ hj).2.2, (hother _ hk).2.2]
      exact hp
  · rw [if_neg hlast] at hlists
    refine ⟨l, h.keep hheld (y := { x.list.buf i with refcnt := (x.list.buf i).refcnt - 1 }) ?_ ⟨rfl, rfl⟩ hlists hbuf ?_
      (fun j hj => update_of_ne hj ..) hpast⟩
    · dsimp only
      rw [h.held]
      omega
    · dsimp only
      rw [h.held]

lemma Ordered.flags (h : x.Ordered l) (hheld : 0 < x.held i) (valid dirty : Bool) :
    Ordered { x with list := x.list.setBuf i { x.list.buf i with valid := valid, dirty := dirty } } l := by
  have hpos : 0 < (x.list.buf i).refcnt := h.held i ▸ hheld
  refine h.keep (y := { x.list.buf i with valid := valid, dirty := dirty }) hheld hpos ⟨rfl, rfl⟩
    ⟨h.lists.ring, h.lists.listed⟩ rfl ?_ (fun _ _ => rfl) h.past
  dsimp only
  rw [h.held, update_eq_self]

lemma Ordered.oldest (h : x.Ordered l) (hlast : l.Pairwise fun j k => j = i → (x.list.buf k).InUse)
    (hi : ¬ (x.list.buf i).InUse) (hj : ¬ (x.list.buf j).InUse) : x.released i ≤ x.released j := by
  have horder := h.order
  have hmem := h.lists.listed j
  obtain ⟨as, bs, rfl⟩ := append_of_mem (h.lists.listed i)
  rw [pairwise_append, pairwise_cons] at horder hlast
  rcases mem_append.mp hmem with hbefore | hafter
  · exact horder.2.2 j hbefore i mem_cons_self (refcnt_eq_zero hj) (refcnt_eq_zero hi)
  · rcases mem_cons.mp hafter with rfl | hafter
    · exact le_rfl
    · exact absurd (hlast.2.1.1 j hafter rfl) hj

/-- A step moves buffers in the list and loses none. -/
lemma Ordered.step (h : x.Ordered l) {e : BufEvent} (hstep : e.step x = some x') : ∃ l', x'.Ordered l' := by
  cases e with
  | bget dev b =>
    simp only [BufEvent.step, Option.bind_eq_bind, Option.bind_eq_some_iff, Option.pure_def, Option.some_inj] at hstep
    obtain ⟨_, hget, ⟨i, c⟩, rfl, rfl⟩ := hstep
    exact ⟨l, h.bget hget⟩
  | brelse i =>
    rw [BufEvent.step, Option.ite_none_right_eq_some, Option.some_inj] at hstep
    obtain ⟨hheld, rfl⟩ := hstep
    exact h.brelse hheld
  | flags i valid dirty =>
    rw [BufEvent.step, Option.ite_none_right_eq_some, Option.some_inj] at hstep
    obtain ⟨hheld, rfl⟩ := hstep
    exact ⟨l, h.flags hheld valid dirty⟩

lemma exists_ordered (hx : Reachable bufSystem x) : ∃ l, x.Ordered l := by
  refine Reach.invariant (fun x => ∃ l, x.Ordered l) ?_ ?_ hx
  · rintro x ⟨c, hzero, rfl⟩
    obtain ⟨hlists, hbuf⟩ := c.binit_lists
    refine ⟨(List.finRange NBUF).reverse, hlists, ?_, ?_, ?_, fun _ => le_rfl⟩
    · refine hlists.nodup.imp ?_
      intro j k _ hlive
      simp [hbuf, Bbuf.Live, hzero] at hlive
    · intro i
      rw [hbuf]
      exact (hzero i).1
    · exact hlists.nodup.imp fun _ _ _ => le_rfl
  · rintro x e x' ⟨l, h⟩ - hstep
    exact h.step hstep

end BufRun

/-- After every sequence of calls the pointers are one circular list of all the buffers, a block has one live buffer, `refcnt`
counts the outstanding calls, and a call for a block without a buffer takes the free one that was released first. -/
theorem buffers_listed {x : BufRun} (hx : Reachable bufSystem x) :
    (∃ l : List BufId, IsRing x.list.next x.list.prev none (l.map some) ∧ l.Nodup ∧ ∀ i, i ∈ l) ∧
      (∀ i j, (x.list.buf i).Live → (x.list.buf j).Live →
        (x.list.buf j).Is (x.list.buf i).dev (x.list.buf i).blockno → i = j) ∧
      (∀ i, (x.list.buf i).refcnt = x.held i) ∧
      ∀ dev b, ∃ r, x.list.bget dev b = some r ∧ ((∀ j, ¬ (x.list.buf j).Is dev b) →
        (r = none ↔ ∀ j, (x.list.buf j).InUse) ∧
        ∀ i c, r = some (i, c) → ¬ (x.list.buf i).InUse ∧
          ∀ j, ¬ (x.list.buf j).InUse → x.released i ≤ x.released j) := by
  obtain ⟨l, h⟩ := BufRun.exists_ordered hx
  refine ⟨⟨l, h.lists.ring, h.lists.nodup, h.lists.listed⟩, fun i j => h.unique, h.held, ?_⟩
  intro dev b
  refine ⟨_, h.lists.bget_eq (fun _ _ => 0) dev b, fun hmiss => ⟨?_, ?_⟩⟩
  · rw [Option.map_eq_none_iff]
    constructor
    · intro hnone
      by_contra hfree
      have hsome := Bcache.exists_bget (c := ⟨fun _ _ => 0, x.list.buf, l⟩) h.lists.listed dev b (not_forall.mp hfree)
      rw [hnone] at hsome
      cases hsome
    · intro huse
      rw [Option.eq_none_iff_forall_ne_some]
      rintro ⟨i, c⟩ hget
      obtain ⟨hblock, -⟩ | ⟨-, hfree, -⟩ := BufList.bget_order h.lists.nodup hget
      · exact hmiss i hblock
      · exact hfree (huse i)
  · intro i c hr
    obtain ⟨⟨i', c'⟩, hget, heq⟩ := Option.map_eq_some_iff.mp hr
    obtain ⟨rfl, -⟩ := Prod.mk.inj heq
    obtain ⟨hblock, -⟩ | ⟨-, hfree, hlast, -⟩ := BufList.bget_order h.lists.nodup hget
    · exact absurd hblock (hmiss i')
    · exact ⟨hfree, fun j => h.oldest hlast hfree⟩

def zeroBufs : BufList where
  buf _ := { valid := false, dirty := false, data := fun _ => 0, dev := 0, blockno := 0, refcnt := 0, lock := none }
  next _ := none
  prev _ := none

/-- Two blocks are read and one of them is released. -/
theorem buffers_listed_two : ∃ x, run bufSystem [.bget 1 5, .bget 1 6, .brelse 0]
      ⟨zeroBufs.binit, fun _ => 0, fun _ => 0, 0⟩ = some x ∧ x.held 1 = 1 ∧ (x.list.buf 1).refcnt = x.held 1 ∧
    ∃ l : List BufId, IsRing x.list.next x.list.prev none (l.map some) ∧ l.Nodup ∧ ∀ i, i ∈ l := by
  have hheld : (run bufSystem [.bget 1 5, .bget 1 6, .brelse 0] ⟨zeroBufs.binit, fun _ => 0, fun _ => 0, 0⟩).map
      (fun x => x.held 1) = some 1 := by decide +kernel
  obtain ⟨x, hx, hone⟩ := Option.map_eq_some_iff.mp hheld
  have hreach : Reachable bufSystem x :=
    Reachable.run (.init ⟨zeroBufs, fun _ => ⟨rfl, rfl, rfl, rfl, rfl⟩, rfl⟩) hx
  obtain ⟨hlist, -, hrefcnt, -⟩ := buffers_listed hreach
  exact ⟨x, hx, hone, hrefcnt 1, hlist⟩

end Xv6Bfs
