import Xv6Bfs.Bcache
import Xv6Bfs.Proofs.LogDisk

/-!
# The buffers of the cache

The buffers show a cache that holds some blocks and may drop clean ones between any two steps, and that is what the log is
built on. A buffer that is referenced or dirty keeps its block.
-/

namespace Xv6Bfs

open Function List Option

def Bbuf.InUse (x : Bbuf) : Prop :=
  0 < x.refcnt ∨ x.dirty = true

def Bbuf.Is (x : Bbuf) (dev : BitVec 32) (b : Blockno) : Prop :=
  x.dev = dev ∧ x.blockno = b

instance (x : Bbuf) (dev : BitVec 32) (b : Blockno) : Decidable (x.Is dev b) :=
  inferInstanceAs (Decidable (_ ∧ _))

lemma Bbuf.is_self (x : Bbuf) : x.Is x.dev x.blockno :=
  ⟨rfl, rfl⟩

variable {dev : BitVec 32}

lemma Bbuf.Is.trans {x y : Bbuf} {b : Blockno} (h : x.Is y.dev y.blockno) (h' : y.Is dev b) :
    x.Is dev b :=
  ⟨h.1.trans h'.1, h.2.trans h'.2⟩

namespace Bcache

variable {c c' : Bcache} {i j : BufId} {b : Blockno} {p : Pid} {refs : Multiset (Pid × BufId)} {x : Bbuf}
  {n : ℕ} {data : Block}

@[simp] lemma setBuf_buf_self (c : Bcache) (i : BufId) (x : Bbuf) : (c.setBuf i x).buf i = x :=
  update_self ..

@[simp] lemma setBuf_buf_of_ne (c : Bcache) (x : Bbuf) (hj : j ≠ i) : (c.setBuf i x).buf j = c.buf j :=
  update_of_ne hj ..

lemma forall_setBuf (P : BufId → Bbuf → Prop) :
    (∀ j, P j ((c.setBuf i x).buf j)) ↔ P i x ∧ ∀ j, j ≠ i → P j (c.buf j) :=
  forall_update_iff c.buf P

/-- The cache as the log sees it. -/
def io (c : Bcache) : Io where
  disk := c.memdisk
  cache b := ((List.finRange NBUF).find? (fun i => (c.buf i).Is 1 b)).map (fun i => (c.buf i).toBuf)

def Unique (c : Bcache) : Prop :=
  ∀ i j, (c.buf i).dev = 1 → (c.buf j).Is 1 (c.buf i).blockno → j = i

lemma io_cache_eq_some (hc : c.Unique) {x : Buf} :
    c.io.cache b = some x ↔ ∃ i, (c.buf i).Is 1 b ∧ (c.buf i).toBuf = x := by
  constructor
  · intro h
    obtain ⟨i, hfind, hx⟩ := map_eq_some_iff.mp h
    exact ⟨i, by simpa using find?_some hfind, hx⟩
  · rintro ⟨i, hi, rfl⟩
    cases hfind : (List.finRange NBUF).find? (fun i => (c.buf i).Is 1 b) with
    | none =>
      have := find?_eq_none.mp hfind i (mem_finRange i)
      exact absurd (decide_eq_true hi) this
    | some j =>
      have hj : (c.buf j).Is 1 b := by simpa using find?_some hfind
      have heq : j = i := hc i j hi.1 (hi.2 ▸ hj)
      simp only [io, hfind, heq, map_some]

lemma io_cache_of_is (hc : c.Unique) (hi : (c.buf i).Is 1 b) : c.io.cache b = some (c.buf i).toBuf :=
  (io_cache_eq_some hc).mpr ⟨i, hi, rfl⟩

lemma io_cache_setBuf (hc : c.Unique) (hi : (c.buf i).Is 1 b) (hx : x.Is 1 b) :
    (c.setBuf i x).Unique ∧ (c.setBuf i x).io.cache = update c.io.cache b (some x.toBuf) := by
  have hkey : ∀ j dev b', ((c.setBuf i x).buf j).Is dev b' ↔ (c.buf j).Is dev b' := by
    refine (forall_setBuf fun j y => ∀ dev b', y.Is dev b' ↔ (c.buf j).Is dev b').mpr ⟨?_, fun _ _ _ _ => Iff.rfl⟩
    intro dev b'
    rw [Bbuf.Is, Bbuf.Is, hx.1, hx.2, hi.1, hi.2]
  have hunique : (c.setBuf i x).Unique := by
    intro j k hj hk
    rw [hkey] at hk
    have hj' := (hkey j 1 ((c.setBuf i x).buf j).blockno).mp ⟨hj, rfl⟩
    rw [← hj'.2] at hk
    exact hc j k hj'.1 hk
  refine ⟨hunique, ?_⟩
  funext b'
  by_cases hb : b' = b
  · subst hb
    rw [update_self, io_cache_of_is hunique ((hkey i 1 b').mpr hi), setBuf_buf_self]
  · rw [update_of_ne hb]
    apply Option.ext
    intro y
    rw [io_cache_eq_some hunique, io_cache_eq_some hc]
    apply exists_congr
    intro j
    rw [hkey]
    apply and_congr_right
    intro hj
    have hji : j ≠ i := by
      rintro rfl
      exact hb (hj.2.symm.trans hi.2)
    rw [setBuf_buf_of_ne c x hji]

lemma io_setBuf_of_eq (hbuf : x.toBuf = (c.buf i).toBuf) (hdev : x.dev = (c.buf i).dev)
    (hblockno : x.blockno = (c.buf i).blockno) : (c.setBuf i x).io = c.io ∧ ((c.setBuf i x).Unique ↔ c.Unique) := by
  have hsame : ∀ j, ((c.setBuf i x).buf j).toBuf = (c.buf j).toBuf ∧ ((c.setBuf i x).buf j).dev = (c.buf j).dev ∧
      ((c.setBuf i x).buf j).blockno = (c.buf j).blockno :=
    (forall_setBuf fun j y => y.toBuf = (c.buf j).toBuf ∧ y.dev = (c.buf j).dev ∧ y.blockno = (c.buf j).blockno).mpr
      ⟨⟨hbuf, hdev, hblockno⟩, fun _ _ => ⟨rfl, rfl, rfl⟩⟩
  refine ⟨?_, ?_⟩
  · simp only [io, Bbuf.Is, hsame]
    rfl
  · simp only [Unique, Bbuf.Is, hsame]

/-- The buffers, when the processes hold the references `refs`. -/
structure Ok (c : Bcache) (refs : Multiset (Pid × BufId)) : Prop where
  listed : ∀ i, i ∈ c.list
  unique : c.Unique
  count : ∀ i, (c.buf i).refcnt = refs.countP (·.2 = i)
  locked : ∀ i q, (c.buf i).lock = some q → (q, i) ∈ refs ∧ (c.buf i).valid = true
  other : ∀ i, (c.buf i).dev ≠ 1 → (c.buf i).valid = false ∧ (c.buf i).dirty = false
  coherent : c.io.Coherent

lemma Ok.refcnt_pos (h : Ok c refs) (hp : (p, i) ∈ refs) : 0 < (c.buf i).refcnt := by
  rw [h.count, Multiset.countP_pos]
  exact ⟨(p, i), hp, rfl⟩

/-- What holds of the buffers when one of them has changed, and the processes hold the references `refs'`. -/
lemma Ok.setBuf (h : Ok c refs) {refs' : Multiset (Pid × BufId)} {disk : Blockno → Block}
    {l : List BufId} (hlisted : ∀ j, j ∈ l) (hunique : (c.setBuf i x).Unique)
    (hcount : x.refcnt = refs'.countP (·.2 = i))
    (hcount' : ∀ j, j ≠ i → refs'.countP (·.2 = j) = refs.countP (·.2 = j))
    (hlocked : ∀ q, x.lock = some q → (q, i) ∈ refs' ∧ x.valid = true)
    (hlocked' : ∀ q j, j ≠ i → (q, j) ∈ refs → (q, j) ∈ refs')
    (hother : x.dev ≠ 1 → x.valid = false ∧ x.dirty = false)
    (hcoherent : Io.Coherent ⟨disk, (c.setBuf i x).io.cache⟩) :
    Ok ⟨disk, (c.setBuf i x).buf, l⟩ refs' := by
  refine ⟨hlisted, hunique, ?_, ?_, ?_, hcoherent⟩
  · refine (forall_setBuf fun j y => y.refcnt = refs'.countP (·.2 = j)).mpr ⟨hcount, fun j hj => ?_⟩
    rw [hcount' j hj, h.count]
  · refine (forall_setBuf fun j y => ∀ q, y.lock = some q → (q, j) ∈ refs' ∧ y.valid = true).mpr ⟨hlocked, ?_⟩
    exact fun j hj q hq => ⟨hlocked' q j hj (h.locked j q hq).1, (h.locked j q hq).2⟩
  · exact (forall_setBuf fun _ y => y.dev ≠ 1 → y.valid = false ∧ y.dirty = false).mpr
      ⟨hother, fun j _ => h.other j⟩

/-- The count and the lock of a buffer change, its block does not. -/
lemma Ok.setBuf_same (h : Ok c refs) {refs' : Multiset (Pid × BufId)} {l : List BufId}
    (hbuf : x.toBuf = (c.buf i).toBuf) (hdev : x.dev = (c.buf i).dev) (hblockno : x.blockno = (c.buf i).blockno)
    (hlisted : ∀ j, j ∈ l) (hcount : x.refcnt = refs'.countP (·.2 = i))
    (hcount' : ∀ j, j ≠ i → refs'.countP (·.2 = j) = refs.countP (·.2 = j))
    (hlocked : ∀ q, x.lock = some q → (q, i) ∈ refs' ∧ x.valid = true)
    (hlocked' : ∀ q j, j ≠ i → (q, j) ∈ refs → (q, j) ∈ refs') :
    Ok ⟨c.memdisk, (c.setBuf i x).buf, l⟩ refs' ∧ (c.setBuf i x).io = c.io := by
  obtain ⟨hio, hunique⟩ := io_setBuf_of_eq (c := c) (i := i) hbuf hdev hblockno
  refine ⟨h.setBuf hlisted (hunique.mpr h.unique) hcount hcount' hlocked hlocked' ?_ ?_, hio⟩
  · rw [hbuf, hdev]
    exact h.other i
  · rw [hio]
    exact h.coherent

lemma countP_cons_self (p : Pid) (i : BufId) (refs : Multiset (Pid × BufId)) :
    Multiset.countP (·.2 = i) ((p, i) ::ₘ refs) = refs.countP (·.2 = i) + 1 :=
  Multiset.countP_cons_of_pos (p := fun r : Pid × BufId => r.2 = i) _ rfl

lemma countP_cons_of_ne (p : Pid) (refs : Multiset (Pid × BufId)) (hj : j ≠ i) :
    Multiset.countP (·.2 = j) ((p, i) ::ₘ refs) = refs.countP (·.2 = j) :=
  Multiset.countP_cons_of_neg (p := fun r : Pid × BufId => r.2 = j) _ hj.symm

/-! ### `bget` -/

/-- A buffer for the block `b` has been found: no block in use has been given up for it. -/
structure Gets (c : Bcache) (i : BufId) (dev : BitVec 32) (b : Blockno) (c' : Bcache) : Prop where
  is : (c'.buf i).Is dev b
  others : ∀ j, j ≠ i → c'.buf j = c.buf j
  keeps : (c.buf i).InUse → (c.buf i).Is dev b
  refcnt : 0 < (c'.buf i).refcnt

lemma Gets.keeps_used (h : c.Gets i dev b c') (huse : (c.buf j).InUse) :
    (c'.buf j).InUse ∧ (c'.buf j).Is (c.buf j).dev (c.buf j).blockno := by
  by_cases hj : j = i
  · subst hj
    rw [(h.keeps huse).1, (h.keeps huse).2]
    exact ⟨.inl h.refcnt, h.is⟩
  · rw [h.others j hj]
    exact ⟨huse, Bbuf.is_self _⟩

lemma bget_cases (hlisted : ∀ i, i ∈ c.list) (hget : c.bget dev b = some (i, c')) :
    (c.buf i).Is dev b ∧ c' = c.setBuf i { c.buf i with refcnt := (c.buf i).refcnt + 1 } ∨
      (∀ j, ¬ (c.buf j).Is dev b) ∧ ¬ (c.buf i).InUse ∧ c' = c.setBuf i { c.buf i with
          dev := dev, blockno := b, valid := false, dirty := false, refcnt := 1 } := by
  unfold bget at hget
  split at hget
  · rename_i k hfind
    cases hget
    have hi : (c.buf i).dev = dev ∧ (c.buf i).blockno = b := by simpa using find?_some hfind
    exact .inl ⟨hi, rfl⟩
  · rename_i hmiss
    split at hget
    · rename_i k hfind
      cases hget
      have hfree : (c.buf i).refcnt = 0 ∧ (c.buf i).dirty = false := by simpa using find?_some hfind
      refine .inr ⟨?_, ?_, rfl⟩
      · intro j hj
        have := find?_eq_none.mp hmiss j (hlisted j)
        exact this (decide_eq_true hj)
      · rintro (hpos | hdirty)
        · omega
        · rw [hfree.2] at hdirty
          cases hdirty
    · cases hget

lemma exists_bget (hlisted : ∀ i, i ∈ c.list) (dev : BitVec 32) (b : Blockno) (hfree : ∃ i, ¬ (c.buf i).InUse) :
    (c.bget dev b).isSome := by
  obtain ⟨i, hi⟩ := hfree
  unfold bget
  split
  · rfl
  · split
    · rfl
    · rename_i hnone
      have := find?_eq_none.mp hnone i (mem_reverse.mpr (hlisted i))
      rw [Bbuf.InUse, not_or, Nat.not_lt, Nat.le_zero] at hi
      simp [hi] at this

lemma io_recycled (h : Ok c refs) (hfree : ¬ (c.buf i).InUse) (hmiss : ∀ j, ¬ (c.buf j).Is dev b)
    (hx : x.Is dev b) (hvalid : x.valid = false) (hdirty : x.dirty = false) :
    (c.setBuf i x).Unique ∧ c.io.Same (c.setBuf i x).io := by
  have hunique : (c.setBuf i x).Unique := by
    intro j k hj hk
    by_cases hji : j = i
    · subst hji
      rw [setBuf_buf_self] at hj hk
      by_contra hkj
      rw [setBuf_buf_of_ne c x hkj, ← hj, hx.1, hx.2] at hk
      exact hmiss k hk
    · rw [setBuf_buf_of_ne c x hji] at hj hk
      by_cases hki : k = i
      · subst hki
        rw [setBuf_buf_self] at hk
        refine absurd ?_ (hmiss j)
        rw [← hx.1, ← hx.2]
        exact ⟨hj.trans hk.1.symm, hk.2.symm⟩
      · rw [setBuf_buf_of_ne c x hki] at hk
        exact h.unique j k hj hk
  -- a block that is not the one of another buffer is clean before and after
  have hclean : ∀ {b'}, c.io.Dirty b' → ∃ j, j ≠ i ∧ (c.buf j).Is 1 b' ∧ (c.buf j).dirty = true := by
    rintro b' ⟨y, hy, hd⟩
    obtain ⟨j, hj, rfl⟩ := (io_cache_eq_some h.unique).mp hy
    refine ⟨j, ?_, hj, hd⟩
    rintro rfl
    exact hfree (.inr hd)
  have hclean' : ∀ {b'}, (c.setBuf i x).io.Dirty b' → ∃ j, j ≠ i ∧ (c.buf j).Is 1 b' ∧ (c.buf j).dirty = true := by
    rintro b' ⟨y, hy, hd⟩
    obtain ⟨j, hj, rfl⟩ := (io_cache_eq_some hunique).mp hy
    have hji : j ≠ i := by
      rintro rfl
      rw [setBuf_buf_self, hdirty] at hd
      cases hd
    rw [setBuf_buf_of_ne c x hji] at hj hd
    exact ⟨j, hji, hj, hd⟩
  have hcached : ∀ {j b'}, j ≠ i → (c.buf j).Is 1 b' → (c.setBuf i x).io.cache b' = c.io.cache b' := by
    intro j b' hji hj
    have hj' : ((c.setBuf i x).buf j).Is 1 b' := by rwa [setBuf_buf_of_ne c x hji]
    rw [io_cache_of_is hunique hj', io_cache_of_is h.unique hj, setBuf_buf_of_ne c x hji]
  have hcoherent : (c.setBuf i x).io.Coherent := by
    intro b' y hy
    obtain ⟨j, hj, rfl⟩ := (io_cache_eq_some hunique).mp hy
    by_cases hji : j = i
    · subst hji
      rw [setBuf_buf_self]
      simp [hvalid, hdirty]
    · rw [setBuf_buf_of_ne c x hji] at hj ⊢
      exact h.coherent b' _ (io_cache_of_is h.unique hj)
  refine ⟨hunique, rfl, ?_, ?_, hcoherent⟩
  · funext b'
    by_cases hother : ∃ j, j ≠ i ∧ (c.buf j).Is 1 b'
    · obtain ⟨j, hji, hj⟩ := hother
      simp only [Io.content, hcached hji hj]
      rfl
    · rw [Io.content_eq_disk hcoherent, Io.content_eq_disk h.coherent]
      · rfl
      · intro hd
        obtain ⟨j, hji, hj, -⟩ := hclean hd
        exact hother ⟨j, hji, hj⟩
      · intro hd
        obtain ⟨j, hji, hj, -⟩ := hclean' hd
        exact hother ⟨j, hji, hj⟩
  · intro b'
    constructor
    · intro hd
      obtain ⟨j, hji, hj, hd⟩ := hclean' hd
      exact ⟨_, io_cache_of_is h.unique hj, hd⟩
    · intro hd
      obtain ⟨j, hji, hj, hd⟩ := hclean hd
      exact ⟨_, (hcached hji hj).trans (io_cache_of_is h.unique hj), hd⟩

lemma Ok.bget (h : Ok c refs) (hget : c.bget dev b = some (i, c')) (p : Pid) :
    Ok c' ((p, i) ::ₘ refs) ∧ c.io.Same c'.io ∧ c.Gets i dev b c' := by
  obtain ⟨hi, rfl⟩ | ⟨hmiss, hfree, rfl⟩ := bget_cases h.listed hget
  · obtain ⟨hok, hio⟩ := h.setBuf_same (i := i) (x := { c.buf i with refcnt := (c.buf i).refcnt + 1 }) rfl rfl rfl
      h.listed (by rw [countP_cons_self, ← h.count]) (fun j hj => countP_cons_of_ne p refs hj)
      (fun q hq => ⟨Multiset.mem_cons_of_mem (h.locked i q hq).1, (h.locked i q hq).2⟩)
      (fun q j _ hq => Multiset.mem_cons_of_mem hq)
    refine ⟨hok, hio.symm ▸ .refl h.coherent, ?_, fun j hj => setBuf_buf_of_ne c _ hj, fun _ => hi, ?_⟩
    · rw [setBuf_buf_self]
      exact hi
    · rw [setBuf_buf_self]
      exact Nat.succ_pos _
  · obtain ⟨hunique, hsame⟩ := io_recycled h hfree hmiss (x := { c.buf i with
      dev := dev, blockno := b, valid := false, dirty := false, refcnt := 1 }) ⟨rfl, rfl⟩ rfl rfl
    have hzero : (c.buf i).refcnt = 0 := by
      rw [Bbuf.InUse, not_or] at hfree
      omega
    refine ⟨?_, hsame, ?_⟩
    · refine h.setBuf h.listed hunique ?_ ?_ ?_ ?_ ?_ hsame.coherent
      · rw [countP_cons_self, ← h.count, hzero]
      · exact fun j hj => countP_cons_of_ne p refs hj
      · intro q hq
        have := h.refcnt_pos (h.locked i q hq).1
        omega
      · exact fun q j _ hq => Multiset.mem_cons_of_mem hq
      · exact fun _ => ⟨rfl, rfl⟩
    · refine ⟨?_, fun j hj => setBuf_buf_of_ne c _ hj, fun huse => absurd huse hfree, ?_⟩
      · rw [setBuf_buf_self]
        exact ⟨rfl, rfl⟩
      · rw [setBuf_buf_self]
        exact Nat.one_pos

/-! ### The other operations -/

@[simp] lemma setBuf_setBuf (c : Bcache) (i : BufId) (x y : Bbuf) : (c.setBuf i x).setBuf i y = c.setBuf i y := by
  simp [setBuf]

lemma Ok.dirty_valid (h : Ok c refs) (hdirty : (c.buf i).dirty = true) : (c.buf i).valid = true := by
  by_cases hdev : (c.buf i).dev = 1
  · exact (h.coherent _ _ (io_cache_of_is h.unique ⟨hdev, rfl⟩)).1 hdirty
  · rw [(h.other i hdev).2] at hdirty
    cases hdirty

lemma Ok.dev_of_valid (h : Ok c refs) (hvalid : (c.buf i).valid = true) : (c.buf i).dev = 1 := by
  by_contra hdev
  rw [(h.other i hdev).1] at hvalid
  cases hvalid

lemma Ok.content_of_valid (h : Ok c refs) (hvalid : (c.buf i).valid = true) :
    c.io.content (c.buf i).blockno = (c.buf i).data := by
  simp only [Io.content, io_cache_of_is h.unique ⟨h.dev_of_valid hvalid, rfl⟩, hvalid, if_true]

lemma fill_cases (hdirty : (c.buf i).dirty = true → (c.buf i).valid = true)
    (hret : c.fill n p i = some c') :
    (c.buf i).lock = none ∧ ((c.buf i).valid = true ∧ c' = c.setBuf i { c.buf i with lock := some p } ∨
      (c.buf i).valid = false ∧ (c.buf i).dev = 1 ∧ c' = c.setBuf i { c.buf i with
        lock := some p, data := c.memdisk (c.buf i).blockno, valid := true }) := by
  unfold fill acquiresleep at hret
  by_cases hlock : (c.buf i).lock = none
  · refine ⟨hlock, ?_⟩
    rw [if_pos hlock, bind_eq_bind, bind_some, setBuf_buf_self] at hret
    cases hvalid : (c.buf i).valid with
    | true =>
      simp only [hvalid, if_true] at hret
      cases hret
      exact .inl ⟨rfl, rfl⟩
    | false =>
      have hclean : (c.buf i).dirty = false := by
        cases hd : (c.buf i).dirty with
        | false => rfl
        | true => rw [← hdirty hd, hvalid]
      simp only [hvalid, Bool.false_eq_true, if_false, iderw, setBuf_buf_self, ne_eq, not_true_eq_false,
        Bool.false_and, hclean, setBuf_setBuf, ite_none_left_eq_some, not_not] at hret
      obtain ⟨hdev, -, hs⟩ := hret
      cases hs
      refine .inr ⟨rfl, hdev, ?_⟩
      simp only [hclean]
      rfl
  · rw [if_neg hlock] at hret
    cases hret

lemma exists_fill (his : (c.buf i).Is 1 b) (hlock : (c.buf i).lock = none) (hb : b.toNat < n) (p : Pid) :
    (c.fill n p i).isSome := by
  obtain ⟨hdev, rfl⟩ := his
  unfold fill acquiresleep
  rw [if_pos hlock, bind_eq_bind, bind_some, setBuf_buf_self]
  cases hvalid : (c.buf i).valid with
  | true => simp
  | false =>
    simp only [hvalid, Bool.false_eq_true, if_false, iderw, setBuf_buf_self, ne_eq, not_true_eq_false, Bool.false_and,
      hdev, Nat.not_le.mpr hb]
    split <;> rfl

lemma Ok.fill (h : Ok c refs) (hp : (p, i) ∈ refs) (hret : c.fill n p i = some c') :
    Ok c' refs ∧ c.io.Same c'.io ∧ (c.buf i).lock = none ∧ (c.buf i).dev = 1 ∧
      c'.buf = update c.buf i { c.buf i with
        lock := some p, data := c.io.content (c.buf i).blockno, valid := true } := by
  obtain ⟨hlock, ⟨hvalid, rfl⟩ | ⟨hvalid, hdev, rfl⟩⟩ := fill_cases h.dirty_valid hret
  · obtain ⟨hok, hio⟩ := h.setBuf_same (i := i) (x := { c.buf i with lock := some p }) rfl rfl rfl h.listed (h.count i)
      (fun _ _ => rfl) (fun q hq => ⟨Option.some.inj hq ▸ hp, hvalid⟩) (fun _ _ _ => id)
    refine ⟨hok, hio.symm ▸ .refl h.coherent, hlock, h.dev_of_valid hvalid, ?_⟩
    rw [h.content_of_valid hvalid, ← hvalid]
    rfl
  · have hclean : (c.buf i).dirty ≠ true := by
      intro hd
      rw [h.dirty_valid hd] at hvalid
      cases hvalid
    have hclean' : ¬ c.io.Dirty (c.buf i).blockno := by
      rintro ⟨y, hy, hd⟩
      rw [io_cache_of_is h.unique ⟨hdev, rfl⟩] at hy
      cases hy
      exact hclean hd
    have hcontent : c.io.content (c.buf i).blockno = c.memdisk (c.buf i).blockno := Io.content_eq_disk h.coherent hclean'
    obtain ⟨hunique, hcache⟩ := io_cache_setBuf h.unique (i := i) ⟨hdev, rfl⟩ (x := { c.buf i with
      lock := some p, data := c.memdisk (c.buf i).blockno, valid := true }) ⟨hdev, rfl⟩
    have hsame : c.io.Same ⟨c.memdisk, update c.io.cache (c.buf i).blockno
        (some ⟨true, (c.buf i).dirty, c.memdisk (c.buf i).blockno⟩)⟩ :=
      Io.same_update h.coherent _ (fun _ => hcontent.symm) nofun (iff_of_false hclean hclean') (fun _ => rfl)
    rw [← hcache] at hsame
    refine ⟨?_, hsame, hlock, hdev, hcontent ▸ rfl⟩
    refine h.setBuf h.listed hunique (h.count i) (fun _ _ => rfl) ?_ (fun _ _ _ => id) (absurd hdev) hsame.coherent
    exact fun q hq => ⟨Option.some.inj hq ▸ hp, rfl⟩

lemma Ok.write (h : Ok c refs) (hlock : (c.buf i).lock = some p) (data : Block) (dirty : Bool)
    (disk : Blockno → Block) (hdisk : ∀ b, b ≠ (c.buf i).blockno → disk b = c.memdisk b)
    (hself : dirty = false → disk (c.buf i).blockno = data) :
    Ok ⟨disk, (c.setBuf i { c.buf i with data := data, dirty := dirty, valid := true }).buf, c.list⟩ refs ∧
      (c.setBuf i { c.buf i with data := data, dirty := dirty, valid := true }).io.cache =
        update c.io.cache (c.buf i).blockno (some ⟨true, dirty, data⟩) := by
  obtain ⟨hp, hvalid⟩ := h.locked i p hlock
  have hdev := h.dev_of_valid hvalid
  obtain ⟨hunique, hcache⟩ := io_cache_setBuf h.unique (i := i) ⟨hdev, rfl⟩ (x := { c.buf i with
    data := data, dirty := dirty, valid := true }) ⟨hdev, rfl⟩
  refine ⟨?_, hcache⟩
  refine h.setBuf h.listed hunique (h.count i) (fun _ _ => rfl) ?_ (fun _ _ _ => id) (absurd hdev) ?_
  · exact fun q hq => ⟨(h.locked i q hq).1, rfl⟩
  · rw [hcache]
    refine Io.coherent_update h.coherent _ (fun _ => rfl) disk ?_ hdisk
    intro _ hclean
    exact (hself (by simpa using hclean)).symm

lemma Ok.bwrite (h : Ok c refs) (hret : (c.store i data).bwrite n p i = some c') :
    Ok c' refs ∧ (c.buf i).lock = some p ∧ c.io.Written (c.buf i).blockno data c'.io ∧
      c'.buf = update c.buf i { c.buf i with data := data, dirty := false, valid := true } := by
  simp only [Bcache.bwrite, store, setDirty, iderw, setBuf_buf_self, setBuf_setBuf, ne_eq, ite_not, Bool.not_true,
    Bool.and_false, Bool.false_eq_true, if_false, if_true, ite_none_left_eq_some,
    ite_none_right_eq_some] at hret
  obtain ⟨hlock, -, -, -, hs⟩ := hret
  cases hs
  obtain ⟨hok, hcache⟩ := h.write hlock data false (update c.memdisk (c.buf i).blockno data)
    (fun b hb => update_of_ne hb ..) (fun _ => update_self ..)
  refine ⟨hok, hlock, ?_, rfl⟩
  have hwritten := Io.written_update h.coherent (c.buf i).blockno data
  rw [← hcache] at hwritten
  exact hwritten

lemma Ok.logWrite (h : Ok c refs) (hlock : (c.buf i).lock = some p) (data : Block) :
    Ok ((c.store i data).setDirty i) refs ∧ c.io.Modified (c.buf i).blockno data ((c.store i data).setDirty i).io := by
  have hvalid := (h.locked i p hlock).2
  have hbuf : (c.store i data).setDirty i =
      c.setBuf i { c.buf i with data := data, dirty := true, valid := true } := by
    simp only [store, setDirty, setBuf_buf_self, setBuf_setBuf]
    rw [← hvalid]
  rw [hbuf]
  obtain ⟨hok, hcache⟩ := h.write hlock data true c.memdisk (fun _ _ => rfl) nofun
  refine ⟨hok, ?_⟩
  have hmodified := Io.modified_update h.coherent (c.buf i).blockno data
  rw [← hcache] at hmodified
  exact hmodified

lemma Ok.releasesleep (h : Ok c refs) (hret : c.releasesleep p i = some c') :
    Ok c' refs ∧ (c.buf i).lock = some p ∧ c'.io = c.io ∧
      c'.buf = update c.buf i { c.buf i with lock := none } := by
  obtain ⟨hlock, hs⟩ := ite_none_left_eq_some.mp hret
  cases hs
  obtain ⟨hok, hio⟩ := h.setBuf_same (i := i) (x := { c.buf i with lock := none }) rfl rfl rfl h.listed (h.count i)
    (fun _ _ => rfl) nofun (fun _ _ _ => id)
  exact ⟨hok, not_not.mp hlock, hio, rfl⟩

lemma Ok.unref (h : Ok c ((p, i) ::ₘ refs)) (hlock : (c.buf i).lock ≠ some p) :
    Ok (c.unref i) refs ∧ (c.unref i).io = c.io ∧
      (c.unref i).buf = update c.buf i { c.buf i with refcnt := (c.buf i).refcnt - 1 } := by
  have hok : ∀ l : List BufId, (∀ j, j ∈ l) →
      Ok ⟨c.memdisk, (c.setBuf i { c.buf i with refcnt := (c.buf i).refcnt - 1 }).buf, l⟩ refs ∧
        (c.setBuf i { c.buf i with refcnt := (c.buf i).refcnt - 1 }).io = c.io := by
    intro l hl
    refine h.setBuf_same rfl rfl rfl hl ?_ (fun j hj => (countP_cons_of_ne p refs hj).symm) ?_ ?_
    · rw [h.count, countP_cons_self, Nat.add_sub_cancel]
    · intro q hq
      obtain ⟨hmem, hvalid⟩ := h.locked i q hq
      refine ⟨(Multiset.mem_cons.mp hmem).resolve_left ?_, hvalid⟩
      rintro ⟨rfl⟩
      exact hlock hq
    · intro q j hj hq
      refine (Multiset.mem_cons.mp hq).resolve_left ?_
      rintro ⟨rfl⟩
      exact hj rfl
  unfold Bcache.unref
  dsimp only
  split
  · obtain ⟨hok, hio⟩ := hok (i :: c.list.erase i) <| by
      intro j
      by_cases hj : j = i
      · exact hj ▸ mem_cons_self
      · exact mem_cons_of_mem _ ((mem_erase_of_ne hj).mpr (h.listed j))
    exact ⟨hok, hio, rfl⟩
  · obtain ⟨hok, hio⟩ := hok c.list h.listed
    exact ⟨hok, hio, rfl⟩

/-! ### Reading and writing blocks -/

structure Reads (refs : Multiset (Pid × BufId)) (c : Bcache) (p : Pid) (b : Blockno) (i : BufId) (c' : Bcache) : Prop
    extends Gets c i 1 b c' where
  ok : Ok c' ((p, i) ::ₘ refs)
  same : c.io.Same c'.io
  free : (c.buf i).lock = none
  lock : (c'.buf i).lock = some p
  data : (c'.buf i).data = c.io.content b

lemma lock_of_bget (hlisted : ∀ i, i ∈ c.list) (hget : c.bget dev b = some (i, c')) :
    (c'.buf i).lock = (c.buf i).lock := by
  obtain ⟨-, rfl⟩ | ⟨-, -, rfl⟩ := bget_cases hlisted hget <;> rw [setBuf_buf_self]

lemma Ok.bread (h : Ok c refs) (hret : c.bread n p dev b = some (i, c')) :
    dev = 1 ∧ Reads refs c p b i c' := by
  unfold Bcache.bread at hret
  obtain ⟨⟨k, c₁⟩, hget, hret⟩ := bind_eq_some_iff.mp hret
  obtain ⟨c₂, hfill, hret⟩ := bind_eq_some_iff.mp hret
  cases hret
  obtain ⟨hok, hsame, hgets⟩ := h.bget hget p
  obtain ⟨hok', hsame', hfree, hdev, hbuf⟩ := hok.fill (Multiset.mem_cons_self ..) hfill
  obtain rfl : dev = 1 := hgets.is.1.symm.trans hdev
  have hbuf' := congrFun hbuf i
  rw [update_self] at hbuf'
  refine ⟨rfl, ⟨hbuf' ▸ hgets.is, ?_, hgets.keeps, hbuf' ▸ hgets.refcnt⟩, hok', hsame.trans hsame', ?_, hbuf' ▸ rfl, ?_⟩
  · intro j hj
    rw [hbuf, update_of_ne hj, hgets.others j hj]
  · rw [← lock_of_bget h.listed hget, hfree]
  · rw [hbuf', ← hsame.content, ← hgets.is.2]

lemma Ok.brelse (h : Ok c ((p, i) ::ₘ refs)) (hret : c.brelse p i = some c') :
    Ok c' refs ∧ c'.io = c.io ∧
      c'.buf = update c.buf i { c.buf i with lock := none, refcnt := (c.buf i).refcnt - 1 } := by
  unfold Bcache.brelse at hret
  obtain ⟨c₁, hrelease, hret⟩ := bind_eq_some_iff.mp hret
  cases hret
  obtain ⟨hok, -, hio, hbuf⟩ := h.releasesleep hrelease
  have hnone : (c₁.buf i).lock = none := by
    rw [hbuf, update_self]
  obtain ⟨hok', hio', hbuf'⟩ := hok.unref (hnone ▸ nofun)
  refine ⟨hok', hio'.trans hio, ?_⟩
  rw [hbuf', hbuf, update_self, update_idem]

/-- The block `b` has been written through a buffer that has been released again. -/
structure Stores (refs : Multiset (Pid × BufId)) (c : Bcache) (b : Blockno) (data : Block) (c' : Bcache) : Prop where
  ok : Ok c' refs
  written : c.io.Written b data c'.io
  keeps : ∀ i, (c.buf i).InUse → (c'.buf i).Is (c.buf i).dev (c.buf i).blockno
  lock : ∀ i, (c'.buf i).lock = (c.buf i).lock

lemma Ok.copyBlock (h : Ok c ((p, i) ::ₘ (p, j) ::ₘ refs)) (hne : i ≠ j)
    (hret : c.copyBlock n p i j = some (data, c')) :
    data = (c.buf i).data ∧ Ok c' refs ∧ c.io.Written (c.buf j).blockno data c'.io ∧
      ∀ k, (c'.buf k).Is (c.buf k).dev (c.buf k).blockno ∧
        (c'.buf k).lock = if k = i ∨ k = j then none else (c.buf k).lock := by
  unfold Bcache.copyBlock at hret
  obtain ⟨c₁, hwrite, hret⟩ := bind_eq_some_iff.mp hret
  obtain ⟨c₂, hsrc, hret⟩ := bind_eq_some_iff.mp hret
  obtain ⟨c₃, hdst, hret⟩ := bind_eq_some_iff.mp hret
  cases hret
  obtain ⟨hok₁, -, hwritten, hbuf₁⟩ := h.bwrite hwrite
  obtain ⟨hok₂, hio₂, hbuf₂⟩ := hok₁.brelse hsrc
  obtain ⟨hok₃, hio₃, hbuf₃⟩ := hok₂.brelse hdst
  refine ⟨rfl, hok₃, ?_, ?_⟩
  · rw [hio₃, hio₂]
    exact hwritten
  · intro k
    rw [hbuf₃, hbuf₂, hbuf₁]
    by_cases hkj : k = j
    · subst hkj
      simp [hne.symm, Bbuf.Is]
    · by_cases hki : k = i
      · subst hki
        simp [hne, Bbuf.Is]
      · simp [hki, hkj, Bbuf.Is]

section Two

variable {b₁ b₂ : Blockno} {c₁ c₂ : Bcache}

structure Reads₂ (c : Bcache) (i j : BufId) (b₁ b₂ : Blockno) (c₂ : Bcache) : Prop where
  ne : i ≠ j
  same : c.io.Same c₂.io
  keeps : ∀ k, (c.buf k).InUse → (c₂.buf k).Is (c.buf k).dev (c.buf k).blockno
  lock : ∀ k, (c.buf k).lock = if k = i ∨ k = j then none else (c₂.buf k).lock
  fst : (c₂.buf i).blockno = b₁ ∧ (c₂.buf i).data = c.io.content b₁
  snd : (c₂.buf j).blockno = b₂ ∧ (c₂.buf j).data = c.io.content b₂

lemma Reads.two (h₁ : Reads refs c p b₁ i c₁) (h₂ : Reads ((p, i) ::ₘ refs) c₁ p b₂ j c₂) :
    Reads₂ c i j b₁ b₂ c₂ := by
  have hne : i ≠ j := by
    rintro rfl
    have := h₁.lock
    rw [h₂.free] at this
    cases this
  refine ⟨hne, h₁.same.trans h₂.same, ?_, ?_, ?_, h₂.is.2, ?_⟩
  · intro k huse
    obtain ⟨huse₁, his₁⟩ := h₁.keeps_used huse
    exact (h₂.keeps_used huse₁).2.trans his₁
  · intro k
    by_cases hki : k = i
    · rw [if_pos (.inl hki), hki, h₁.free]
    · rw [← h₁.others k hki]
      by_cases hkj : k = j
      · rw [if_pos (.inr hkj), hkj, h₂.free]
      · rw [if_neg (not_or.mpr ⟨hki, hkj⟩), h₂.others k hkj]
  · rw [h₂.others i hne]
    exact ⟨h₁.is.2, h₁.data⟩
  · rw [h₂.data, h₁.same.content]

lemma Reads₂.symm (h : Reads₂ c i j b₁ b₂ c₂) : Reads₂ c j i b₂ b₁ c₂ :=
  ⟨h.ne.symm, h.same, h.keeps, fun k => by simpa only [or_comm] using h.lock k, h.snd, h.fst⟩

lemma Reads₂.copyBlock (h : Reads₂ c i j b₁ b₂ c₂) (hok : Ok c₂ ((p, i) ::ₘ (p, j) ::ₘ refs))
    (hcopy : c₂.copyBlock n p i j = some (data, c')) : data = c.io.content b₁ ∧ Stores refs c b₂ data c' := by
  obtain ⟨rfl, hok', hwritten, hbufs⟩ := hok.copyBlock h.ne hcopy
  refine ⟨h.fst.2, hok', ?_, fun k huse => (hbufs k).1.trans (h.keeps k huse), fun k => ?_⟩
  · rw [h.snd.1] at hwritten
    exact h.same.written hwritten
  · rw [(hbufs k).2, h.lock k]

lemma Ok.writeLogBlock (h : Ok c refs) {sb : Superblock} {n tail : ℕ}
    (hret : c.writeLogBlock n p sb tail b = some (data, c')) :
    data = c.io.content b ∧ Stores refs c (sb.slot tail) data c' := by
  unfold Bcache.writeLogBlock at hret
  obtain ⟨⟨dst, c₁⟩, hread₁, hret⟩ := bind_eq_some_iff.mp hret
  obtain ⟨⟨src, c₂⟩, hread₂, hcopy⟩ := bind_eq_some_iff.mp hret
  obtain ⟨-, h₁⟩ := h.bread hread₁
  obtain ⟨-, h₂⟩ := h₁.ok.bread hread₂
  exact (h₁.two h₂).symm.copyBlock h₂.ok hcopy

lemma Ok.installBlock (h : Ok c refs) {sb : Superblock} {n tail : ℕ}
    (hret : c.installBlock n p sb tail b = some (data, c')) :
    data = c.io.content (sb.slot tail) ∧ Stores refs c b data c' := by
  unfold Bcache.installBlock at hret
  obtain ⟨⟨src, c₁⟩, hread₁, hret⟩ := bind_eq_some_iff.mp hret
  obtain ⟨⟨dst, c₂⟩, hread₂, hcopy⟩ := bind_eq_some_iff.mp hret
  obtain ⟨-, h₁⟩ := h.bread hread₁
  obtain ⟨-, h₂⟩ := h₁.ok.bread hread₂
  have hok := h₂.ok
  rw [Multiset.cons_swap] at hok
  exact (h₁.two h₂).copyBlock hok hcopy

end Two

lemma Ok.writeHead (h : Ok c refs) {sb : Superblock} {lh : List Blockno}
    (hret : c.writeHead n p sb lh = some (data, c')) : Stores refs c sb.logstart data c' := by
  unfold Bcache.writeHead at hret
  obtain ⟨⟨i, c₁⟩, hread, hret⟩ := bind_eq_some_iff.mp hret
  obtain ⟨c₂, hwrite, hret⟩ := bind_eq_some_iff.mp hret
  obtain ⟨c₃, hrelse, hret⟩ := bind_eq_some_iff.mp hret
  cases hret
  obtain ⟨-, h₁⟩ := h.bread hread
  obtain ⟨hok₂, -, hwritten, hbuf₂⟩ := h₁.ok.bwrite hwrite
  obtain ⟨hok₃, hio₃, hbuf₃⟩ := hok₂.brelse hrelse
  rw [hbuf₂, update_self, update_idem] at hbuf₃
  refine ⟨hok₃, ?_, ?_, ?_⟩
  · rw [hio₃]
    rw [h₁.is.2] at hwritten
    exact h₁.same.written hwritten
  · intro k huse
    refine Bbuf.Is.trans ?_ (h₁.keeps_used huse).2
    rw [hbuf₃]
    by_cases hki : k = i
    · subst hki
      simp [Bbuf.Is]
    · simp [hki, Bbuf.Is]
  · intro k
    by_cases hki : k = i
    · rw [hki, hbuf₃, update_self, h₁.free]
    · rw [hbuf₃, update_of_ne hki, h₁.others k hki]

end Bcache

end Xv6Bfs
