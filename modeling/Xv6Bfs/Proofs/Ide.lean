import Mathlib.Data.Fintype.Card
import Xv6Bfs.Ide

/-!
# The queue of the disk driver

Requests are done in the order in which they arrive, each for the buffer that it was made for, and
whoever sleeps waits for a buffer that is in the queue.
-/

namespace Xv6Bfs

open Function List Monitor Transition

def IdePc.holds : IdePc → Bool
  | .append _ | .start _ _ | .wait _ _ | .done _ _ | .intrTake | .intrWakeup _ | .intrStart | .intrDone => true
  | _ => false

/-- The buffer and the disk have the same data afterwards, those of the command if it was a write. -/
def Transfer.Good (t : Transfer) : Prop :=
  t.disk = t.data ∧ ∀ data, t.command.write = some data → t.data = data

/-- The command is for the drive and the block of the buffer. -/
def DiskCommand.At (c : DiskCommand) (y : IdeBuf) : Prop :=
  c.drive = y.dev.getLsbD 0 ∧ c.blockno = y.blockno

namespace Ide

/-- The buffers `l` are the queue that begins with `h`. -/
def Chained (buf : BufId → IdeBuf) : Option BufId → List BufId → Prop
  | h, [] => h = none
  | h, b :: l => h = some b ∧ Chained buf (buf b).qnext l

section Chained

variable {buf buf' : BufId → IdeBuf} {h : Option BufId} {b : BufId} {l : List BufId}

lemma Chained.head (hl : Chained buf h l) : h = l.head? := by
  cases l with
  | nil => exact hl
  | cons b l => exact hl.1

lemma Chained.congr (hl : Chained buf h l) (hbuf : ∀ c ∈ l, (buf' c).qnext = (buf c).qnext) : Chained buf' h l := by
  induction l generalizing h with
  | nil => exact hl
  | cons b l ih =>
    refine ⟨hl.1, ?_⟩
    rw [hbuf b mem_cons_self]
    exact ih hl.2 (fun c hc => hbuf c (mem_cons_of_mem b hc))

lemma Chained.isChain (hl : Chained buf (some b) (b :: l)) :
    List.IsChain (fun c d => (some (buf c).qnext : Option (Option BufId)) = some (some d)) (b :: l) := by
  induction l generalizing b with
  | nil => exact List.IsChain.singleton b
  | cons c l ih =>
    have hc : (buf b).qnext = some c := hl.2.1
    refine List.IsChain.cons_cons (congrArg some hc) (ih ⟨rfl, hl.2.2⟩)

lemma Chained.qnext_last (hl : Chained buf (some b) (b :: l)) : (buf (LinkedList.lastCell b l)).qnext = none := by
  induction l generalizing b with
  | nil => exact hl.2
  | cons c l ih => exact ih ⟨rfl, hl.2.2⟩

lemma Chained.snoc {a : BufId} (hl : Chained buf (some a) (a :: l)) (hnodup : (a :: l).Nodup)
    (hlast : (buf' (LinkedList.lastCell a l)).qnext = some b) (hb : (buf' b).qnext = none)
    (hbuf : ∀ c ∈ a :: l, c ≠ LinkedList.lastCell a l → (buf' c).qnext = (buf c).qnext) :
    Chained buf' (some a) (a :: l ++ [b]) := by
  induction l generalizing a with
  | nil => exact ⟨rfl, hlast, hb⟩
  | cons c l ih =>
    have hne : a ≠ LinkedList.lastCell c l := by
      rintro rfl
      exact (nodup_cons.mp hnodup).1 (LinkedList.lastCell_mem c l)
    refine ⟨rfl, ?_⟩
    have hc : (buf' a).qnext = some c := (hbuf a mem_cons_self hne).trans hl.2.1
    rw [hc]
    exact ih ⟨rfl, hl.2.2⟩ (nodup_cons.mp hnodup).2 hlast (fun d hd => hbuf d (mem_cons_of_mem a hd))

end Chained

variable {Q : Type*} {x x' : Ide Q} {b : BufId} {q : Q} {k : ℕ} {b' : BufId} {pc : IdePc}

/-- The requests that have not been done yet. -/
def waiting (x : Ide Q) : List (BufId × DiskCommand) :=
  x.arrived.drop x.completed.length

def queue (x : Ide Q) : List BufId :=
  x.waiting.map Prod.fst

/-- Whoever holds `idelock`, and whatever the disk is doing. -/
structure Queued (x : Ide Q) : Prop where
  chained : Chained x.buf x.idequeue x.queue
  nodup : x.queue.Nodup
  done : x.completed.map (fun t => (t.buf, t.command)) ++ x.waiting = x.arrived
  good : ∀ t ∈ x.completed, t.Good
  asked : ∀ r ∈ x.waiting, r.2 = (x.buf r.1).command ∧ (x.buf r.1).synced = false ∧ x.owner r.1 ≠ none

structure Inv (x : Ide Q) : Prop extends Queued x where
  active : x.active = x.idequeue.map (fun b => (x.buf b).command)

/-- Nothing in the queue changes. -/
structure Frame (x x' : Ide Q) : Prop where
  idequeue : x'.idequeue = x.idequeue
  active : x'.active = x.active
  arrived : x'.arrived = x.arrived
  completed : x'.completed = x.completed
  buf : ∀ b ∈ x.queue, x'.buf b = x.buf b ∧ x'.owner b = x.owner b

namespace Frame

variable (h : Frame x x')

include h

lemma waiting : x'.waiting = x.waiting := by
  rw [Ide.waiting, h.arrived, h.completed, Ide.waiting]

lemma queue : x'.queue = x.queue := by
  rw [Ide.queue, h.waiting, Ide.queue]

lemma queued (hx : x.Queued) : x'.Queued := by
  refine ⟨?_, ?_, ?_, ?_, ?_⟩
  · rw [h.idequeue, h.queue]
    exact hx.chained.congr (fun b hb => by rw [(h.buf b hb).1])
  · rw [h.queue]
    exact hx.nodup
  · rw [h.completed, h.waiting, h.arrived]
    exact hx.done
  · rw [h.completed]
    exact hx.good
  · intro r hr
    rw [h.waiting] at hr
    obtain ⟨hbuf, howner⟩ := h.buf r.1 (mem_map_of_mem hr)
    rw [hbuf, howner]
    exact hx.asked r hr

lemma command (hx : x.Queued) :
    x'.idequeue.map (fun b => (x'.buf b).command) = x.idequeue.map (fun b => (x.buf b).command) := by
  rw [h.idequeue]
  cases hq : x.idequeue with
  | none => rfl
  | some b =>
    have hhead := hx.chained.head
    rw [hq] at hhead
    rw [Option.map_some, Option.map_some, (h.buf b (mem_of_mem_head? hhead.symm)).1]

lemma inv (hx : x.Inv) : x'.Inv :=
  ⟨h.queued hx.toQueued, by rw [h.active, h.command hx.toQueued, hx.active]⟩

end Frame

/-! ### A request is added -/

lemma setQnext_buf (x : Ide Q) (b c : BufId) (n : Option BufId) :
    (x.setQnext b n).buf c = { x.buf c with qnext := if c = b then n else (x.buf c).qnext } := by
  by_cases hc : c = b
  · subst hc
    rw [if_pos rfl]
    exact update_self ..
  · rw [if_neg hc]
    exact update_of_ne hc ..

lemma append_fields (x : Ide Q) (b : BufId) :
    (x.append b).arrived = x.arrived ++ [(b, (x.buf b).command)] ∧ (x.append b).completed = x.completed ∧
      (x.append b).active = x.active ∧ (x.append b).owner = x.owner ∧
      ∀ c, ∃ n, (x.append b).buf c = { x.buf c with qnext := n } := by
  unfold append
  dsimp only
  split
  · exact ⟨rfl, rfl, rfl, rfl, fun c => ⟨_, setQnext_buf x b c none⟩⟩
  · split
    · exact ⟨rfl, rfl, rfl, rfl, fun c => ⟨_, setQnext_buf x b c none⟩⟩
    · refine ⟨rfl, rfl, rfl, rfl, fun c => ?_⟩
      rw [setQnext_buf]
      dsimp only
      rw [setQnext_buf]
      exact ⟨_, rfl⟩

lemma append_chained (h : x.Queued) (hb : b ∉ x.queue) :
    Chained (x.append b).buf (x.append b).idequeue (x.queue ++ [b]) := by
  have hhead := h.chained.head
  unfold append
  dsimp only
  cases hq : x.queue with
  | nil =>
    rw [hq] at hhead
    have hidle : (x.setQnext b none).idequeue = none := hhead
    rw [hidle]
    refine ⟨rfl, ?_⟩
    dsimp only
    rw [setQnext_buf, if_pos rfl]
    rfl
  | cons a l =>
    have hchained := h.chained
    have hnodup := h.nodup
    rw [hq] at hhead hchained hnodup hb
    have hfirst : (x.setQnext b none).idequeue = some a := hhead
    rw [hhead] at hchained
    have hmid : Chained (x.setQnext b none).buf (some a) (a :: l) := by
      refine hchained.congr ?_
      intro c hc
      rw [setQnext_buf, if_neg (by rintro rfl; exact hb hc)]
    rw [hfirst]
    dsimp only
    have hlength : l.length < NBUF + 1 := by
      have := List.Nodup.length_le_card hnodup
      rw [Fintype.card_fin, length_cons] at this
      omega
    rw [LinkedList.chase_of_isChain hmid.isChain (congrArg some hmid.qnext_last) hlength]
    dsimp only
    have hlast : LinkedList.lastCell a l ≠ b := by
      rintro rfl
      exact hb (LinkedList.lastCell_mem a l)
    refine hmid.snoc hnodup ?_ ?_ ?_
    · rw [setQnext_buf, if_pos rfl]
    · rw [setQnext_buf, if_neg hlast.symm]
      dsimp only
      rw [setQnext_buf, if_pos rfl]
    · intro c _ hc
      rw [setQnext_buf, if_neg hc]

lemma Queued.waiting_append (h : x.Queued) : (x.append b).waiting = x.waiting ++ [(b, (x.buf b).command)] := by
  obtain ⟨harrived, hcompleted, -⟩ := append_fields x b
  have hlength : x.completed.length ≤ x.arrived.length := by
    rw [← h.done]
    simp
  rw [waiting, harrived, hcompleted, drop_append_of_le_length hlength, waiting]

lemma Queued.queue_append (h : x.Queued) : (x.append b).queue = x.queue ++ [b] := by
  rw [queue, h.waiting_append, map_append, queue]
  rfl

lemma Queued.append (h : x.Queued) (hb : b ∉ x.queue) (hsync : (x.buf b).synced = false) (howner : x.owner b ≠ none) :
    (x.append b).Queued := by
  obtain ⟨harrived, hcompleted, -, hown, hbuf⟩ := append_fields x b
  have hcommand : ∀ c, ((x.append b).buf c).command = (x.buf c).command ∧
      ((x.append b).buf c).synced = (x.buf c).synced := by
    intro c
    obtain ⟨n, hn⟩ := hbuf c
    rw [hn]
    exact ⟨rfl, rfl⟩
  refine ⟨?_, ?_, ?_, ?_, ?_⟩
  · rw [h.queue_append]
    exact append_chained h hb
  · rw [h.queue_append, nodup_append]
    refine ⟨h.nodup, nodup_singleton b, ?_⟩
    rintro c hc d hd rfl
    exact hb (mem_singleton.mp hd ▸ hc)
  · rw [hcompleted, h.waiting_append, harrived, ← append_assoc, h.done]
  · rw [hcompleted]
    exact h.good
  · intro r hr
    rw [h.waiting_append, mem_append, mem_singleton] at hr
    rw [(hcommand r.1).1, (hcommand r.1).2, hown]
    rcases hr with hr | rfl
    · exact h.asked r hr
    · exact ⟨rfl, hsync, howner⟩

/-! ### A request is done -/

lemma Inv.waiting_cons (h : x.Inv) (hhead : x.idequeue = some b) :
    ∃ rest, x.waiting = (b, (x.buf b).command) :: rest ∧ x.active = some (x.buf b).command := by
  have hqueue := h.chained.head
  rw [hhead] at hqueue
  unfold queue at hqueue
  cases hwaiting : x.waiting with
  | nil =>
    rw [hwaiting] at hqueue
    cases hqueue
  | cons r rest =>
    have hr := (h.asked r (by rw [hwaiting]; exact mem_cons_self)).1
    rw [hwaiting, map_cons, head?_cons, Option.some.injEq] at hqueue
    subst hqueue
    refine ⟨rest, by rw [← hr], ?_⟩
    rw [h.active, hhead]
    rfl

structure Transferred (x : Ide Q) (b : BufId) (x' : Ide Q) : Prop where
  place : (x'.buf b).dev = (x.buf b).dev ∧ (x'.buf b).blockno = (x.buf b).blockno
  active : x'.active = none
  arrived : x'.arrived = x.arrived
  owner : x'.owner = x.owner
  synced : (x'.buf b).synced = true
  completed : ∃ t : Transfer, t.buf = b ∧ t.data = (x'.buf b).data ∧ x'.completed = x.completed ++ [t]
  buf : ∀ c, c ≠ b → x'.buf c = x.buf c

lemma good_transfer (x : Ide Q) (b : BufId) :
    Transfer.Good ⟨b, (x.buf b).command,
      if (x.buf b).dirty then (x.buf b).data else x.platter (x.buf b).command.drive (x.buf b).command.blockno,
      written x.platter (x.buf b).command (x.buf b).command.drive (x.buf b).command.blockno⟩ := by
  unfold Transfer.Good IdeBuf.command
  by_cases hdirty : (x.buf b).dirty = true
  · simp [hdirty, written]
  · simp [hdirty, written]

lemma Inv.transfer (h : x.Inv) (hhead : x.idequeue = some b) :
    (x.transfer b).Queued ∧ Transferred x b (x.transfer b) ∧ x.queue = b :: (x.transfer b).queue := by
  obtain ⟨rest, hwaiting, hactive⟩ := h.waiting_cons hhead
  have htransfer : Transferred x b (x.transfer b) := by
    unfold Ide.transfer
    rw [hactive]
    refine ⟨?_, rfl, rfl, rfl, ?_, ⟨_, rfl, ?_, rfl⟩, fun c hc => update_of_ne hc ..⟩
    · simp [setBuf]
    · simp [setBuf, IdeBuf.synced]
    · simp [setBuf]
  have hqueue : x.queue = b :: rest.map Prod.fst := by
    rw [queue, hwaiting]
    rfl
  have hrest : (x.transfer b).waiting = rest := by
    obtain ⟨t, -, -, ht⟩ := htransfer.completed
    have htail := congrArg List.tail hwaiting
    rw [waiting, tail_drop] at htail
    rw [waiting, htransfer.arrived, ht, length_append, length_singleton, htail, tail_cons]
  have hqueue' : (x.transfer b).queue = rest.map Prod.fst := by
    rw [queue, hrest]
  have hnodup := h.nodup
  have hchained := h.chained
  rw [hqueue] at hnodup hchained
  have hne : ∀ c ∈ rest.map Prod.fst, c ≠ b := by
    rintro c hc rfl
    exact (nodup_cons.mp hnodup).1 hc
  refine ⟨⟨?_, ?_, ?_, ?_, ?_⟩, htransfer, by rw [hqueue, hqueue']⟩
  · have hnext : (x.transfer b).idequeue = (x.buf b).qnext := by
      unfold Ide.transfer
      rw [hactive]
    rw [hqueue', hnext]
    exact hchained.2.congr (fun c hc => by rw [htransfer.buf c (hne c hc)])
  · rw [hqueue']
    exact (nodup_cons.mp hnodup).2
  · have hcompleted : (x.transfer b).completed.map (fun t => (t.buf, t.command)) =
        x.completed.map (fun t => (t.buf, t.command)) ++ [(b, (x.buf b).command)] := by
      unfold Ide.transfer
      rw [hactive]
      simp
    rw [hcompleted, hrest, htransfer.arrived, ← h.done, hwaiting, append_assoc]
    rfl
  · intro t ht
    unfold Ide.transfer at ht
    rw [hactive] at ht
    rcases mem_append.mp ht with ht | ht
    · exact h.good t ht
    · rw [mem_singleton.mp ht]
      exact good_transfer x b
  · intro r hr
    rw [hrest] at hr
    rw [htransfer.buf r.1 (hne r.1 (mem_map_of_mem hr)), htransfer.owner]
    exact h.asked r (by rw [hwaiting]; exact mem_cons_of_mem _ hr)

/-! ### What processes know -/

def Owned (x : Ide Q) (q : Q) (b : BufId) : Prop :=
  x.owner b = some q ∧ b ∉ x.queue

/-- The request `k` is one of `q` for the buffer `b`. -/
structure Requested (x : Ide Q) (q : Q) (b : BufId) (k : ℕ) : Prop where
  owner : x.owner b = some q
  arrived : ∃ c, x.arrived[k]? = some (b, c) ∧ c.At (x.buf b)
  done : k < x.completed.length → b ∉ x.queue ∧ (x.buf b).synced = true ∧
    ∃ t, x.completed[k]? = some t ∧ t.data = (x.buf b).data

lemma Requested.mem_queue (h : x.Requested q b k) (hk : x.completed.length ≤ k) : b ∈ x.queue := by
  obtain ⟨c, hc, -⟩ := h.arrived
  refine mem_map_of_mem (f := Prod.fst) (a := (b, c)) ?_
  refine mem_of_getElem? (i := k - x.completed.length) ?_
  rw [waiting, getElem?_drop, Nat.add_sub_cancel' hk]
  exact hc

lemma Requested.synced_iff (h : x.Requested q b k) (hx : x.Queued) :
    (x.buf b).synced = true ↔ k < x.completed.length := by
  constructor
  · intro hsync
    by_contra hk
    obtain ⟨r, hr, rfl⟩ := mem_map.mp (h.mem_queue (not_lt.mp hk))
    rw [(hx.asked r hr).2.1] at hsync
    cases hsync
  · intro hk
    exact (h.done hk).2.1

lemma Owned.append (h : x.Owned q b) (hx : x.Queued) (hb' : x.owner b' ≠ some q) :
    (x.append b').Owned q b := by
  obtain ⟨-, -, -, howner, -⟩ := append_fields x b'
  refine ⟨by rw [howner]; exact h.1, ?_⟩
  rw [hx.queue_append, mem_append, mem_singleton, not_or]
  refine ⟨h.2, ?_⟩
  rintro rfl
  exact hb' h.1

lemma Requested.append (h : x.Requested q b k) (hx : x.Queued) (hb' : x.owner b' ≠ some q) :
    (x.append b').Requested q b k := by
  obtain ⟨harrived, hcompleted, -, howner, hbuf⟩ := append_fields x b'
  obtain ⟨c, hc, hat⟩ := h.arrived
  obtain ⟨n, hn⟩ := hbuf b
  refine ⟨by rw [howner]; exact h.owner, ⟨c, ?_, hn ▸ hat⟩, ?_⟩
  · rw [harrived, List.getElem?_append_left (List.getElem?_eq_some_iff.mp hc).1]
    exact hc
  · intro hk
    rw [hcompleted] at hk ⊢
    obtain ⟨hnot, hsync, ht⟩ := h.done hk
    rw [hn]
    exact ⟨(Owned.append ⟨h.owner, hnot⟩ hx hb').2, hsync, ht⟩

lemma Owned.transfer (h : x.Owned q b) (hx : x.Inv) (hhead : x.idequeue = some b') :
    (x.transfer b').Owned q b ∧ (x.transfer b').buf b = x.buf b := by
  obtain ⟨-, htransfer, hqueue⟩ := hx.transfer hhead
  have hnot := h.2
  rw [hqueue, mem_cons, not_or] at hnot
  exact ⟨⟨by rw [htransfer.owner]; exact h.1, hnot.2⟩, htransfer.buf b hnot.1⟩

lemma Requested.transfer (h : x.Requested q b k) (hx : x.Inv) (hhead : x.idequeue = some b') :
    (x.transfer b').Requested q b k := by
  obtain ⟨hqueued, htransfer, hqueue⟩ := hx.transfer hhead
  obtain ⟨t, htbuf, htdata, hcompleted⟩ := htransfer.completed
  obtain ⟨c, hc, hat⟩ := h.arrived
  refine ⟨by rw [htransfer.owner]; exact h.owner, ⟨c, by rw [htransfer.arrived]; exact hc, ?_⟩, ?_⟩
  · by_cases hb : b = b'
    · subst hb
      rw [DiskCommand.At, htransfer.place.1, htransfer.place.2]
      exact hat
    · rw [htransfer.buf b hb]
      exact hat
  intro hk
  rw [hcompleted] at hk ⊢
  by_cases hold : k < x.completed.length
  · obtain ⟨hnot, hsync, t', ht', hdata⟩ := h.done hold
    obtain ⟨⟨-, hnot'⟩, hbuf⟩ := Owned.transfer ⟨h.owner, hnot⟩ hx hhead
    rw [hbuf, getElem?_append_left hold]
    exact ⟨hnot', hsync, t', ht', hdata⟩
  · have hlast : k = x.completed.length := by
      rw [length_append, length_singleton] at hk
      omega
    subst hlast
    have hb : b = b' := by
      obtain ⟨rest, hwaiting, -⟩ := hx.waiting_cons hhead
      have hfirst : x.waiting[0]? = some (b, c) := by
        rw [waiting, getElem?_drop, Nat.add_zero]
        exact hc
      rw [hwaiting, getElem?_cons_zero, Option.some.injEq, Prod.mk.injEq] at hfirst
      exact hfirst.1.symm
    subst hb
    refine ⟨?_, htransfer.synced, t, getElem?_concat_length .., htdata⟩
    have hnodup := hx.nodup
    rw [hqueue] at hnodup
    exact (nodup_cons.mp hnodup).1

/-- A request has been added, and the disk is started if the request is the first. -/
def Starting (x : Ide Q) (b : BufId) : Prop :=
  x.Queued ∧ x.active = if x.idequeue = some b then none else x.idequeue.map (fun b => (x.buf b).command)

/-- What a process, or the handler, knows at each place of its code; the flag says that it sleeps. -/
def Knows : Option Q → Bool → IdePc → Ide Q → Prop
  | _, false, .idle, _ | _, false, .panicked, _ | some _, false, .lockBuf _, _ | none, false, .ideintr, _ => True
  | some q, false, .owns b, x | some q, false, .recycle b _ _, x | some q, false, .store b _, x
  | some q, false, .unlockBuf b, x | some q, false, .iderw b, x => x.Owned q b
  | some q, false, .acquire b, x => x.Owned q b ∧ (x.buf b).synced = false
  | some q, false, .append b, x => x.Owned q b ∧ (x.buf b).synced = false ∧ x.Inv
  | some q, false, .start b k, x => x.Requested q b k ∧ x.Starting b
  | some q, false, .wait b k, x => x.Requested q b k ∧ x.Inv
  | some q, true, .wait b k, x => x.Requested q b k
  | some q, false, .done b k, x => x.Requested q b k ∧ (x.buf b).synced = true ∧ x.Inv
  | none, false, .intrTake, x | none, false, .intrDone, x => x.Inv
  | none, false, .intrWakeup _, x | none, false, .intrStart, x => x.Queued ∧ x.active = none
  | _, _, _, _ => False

lemma Knows.other {p : Option Q} {w : Bool} (h : Knows p w pc x) (hw : w = true ∨ pc.holds = false)
    (howned : ∀ q b, p = some q → x.Owned q b → x'.Owned q b ∧ (x'.buf b).synced = (x.buf b).synced)
    (hrequested : ∀ q b k, p = some q → x.Requested q b k → x'.Requested q b k) : Knows p w pc x' := by
  cases p with
  | none =>
    cases w with
    | true => cases pc <;> exact h.elim
    | false =>
      rcases hw with hw | hw
      · cases hw
      · cases pc <;> trivial
  | some q =>
    cases w with
    | true =>
      cases pc with
      | wait b k => exact hrequested q b k rfl h
      | _ => exact h.elim
    | false =>
      rcases hw with hw | hw
      · cases hw
      cases pc with
      | owns b | recycle b _ _ | store b _ | unlockBuf b | iderw b => exact (howned q b rfl h).1
      | acquire b =>
        obtain ⟨hown, hsync⟩ := howned q b rfl h.1
        exact ⟨hown, hsync.trans h.2⟩
      | _ => trivial

lemma Knows.frame {p : Option Q} {w : Bool} (h : Knows p w pc x) (hframe : Frame x x')
    (hmine : ∀ q b, p = some q → x.owner b = some q → x'.buf b = x.buf b ∧ x'.owner b = x.owner b) :
    Knows p w pc x' := by
  have howned : ∀ q b, p = some q → x.Owned q b → x'.Owned q b ∧ (x'.buf b).synced = (x.buf b).synced := by
    intro q b hp hown
    obtain ⟨hbuf, howner⟩ := hmine q b hp hown.1
    rw [Owned, howner, hframe.queue, hbuf]
    exact ⟨hown, rfl⟩
  have hrequested : ∀ q b k, p = some q → x.Requested q b k → x'.Requested q b k := by
    intro q b k hp hreq
    obtain ⟨hbuf, howner⟩ := hmine q b hp hreq.owner
    refine ⟨by rw [howner]; exact hreq.owner, by rw [hframe.arrived, hbuf]; exact hreq.arrived, ?_⟩
    rw [hframe.completed, hframe.queue, hbuf]
    exact hreq.done
  by_cases hw : w = true ∨ pc.holds = false
  · exact h.other hw howned hrequested
  rw [not_or, Bool.not_eq_true, Bool.not_eq_false] at hw
  obtain ⟨rfl, hholds⟩ := hw
  cases p with
  | none =>
    cases pc with
    | intrTake | intrDone => exact hframe.inv h
    | intrWakeup _ | intrStart => exact ⟨hframe.queued h.1, hframe.active.trans h.2⟩
    | _ => trivial
  | some q =>
    cases pc with
    | append b =>
      obtain ⟨hown, hsync⟩ := howned q b rfl h.1
      exact ⟨hown, hsync.trans h.2.1, hframe.inv h.2.2⟩
    | start b k =>
      refine ⟨hrequested q b k rfl h.1, hframe.queued h.2.1, ?_⟩
      rw [hframe.command h.2.1, hframe.active, hframe.idequeue]
      exact h.2.2
    | wait b k => exact ⟨hrequested q b k rfl h.1, hframe.inv h.2⟩
    | done b k =>
      refine ⟨hrequested q b k rfl h.1, ?_, hframe.inv h.2.2⟩
      rw [(hmine q b rfl h.1.owner).1]
      exact h.2.1
    | _ => trivial

def Assert (p : Option Q) (waiting : Bool) (pc : IdePc) (x : Ide Q) : Prop :=
  x.Queued ∧ Knows p waiting pc x

lemma frame_setBuf (hb : b ∉ x.queue) (y : IdeBuf) : Frame x (x.setBuf b y) := by
  refine ⟨rfl, rfl, rfl, rfl, ?_⟩
  intro c hc
  refine ⟨update_of_ne ?_ .., rfl⟩
  rintro rfl
  exact hb hc

lemma frame_owner (hb : b ∉ x.queue) (o : Option Q) : Frame x { x with owner := update x.owner b o } := by
  refine ⟨rfl, rfl, rfl, rfl, ?_⟩
  intro c hc
  refine ⟨rfl, update_of_ne ?_ ..⟩
  rintro rfl
  exact hb hc

lemma sound_setBuf (h : Assert (some q) false (.owns b) x) (hpc : pc.holds = false) (y : IdeBuf) :
    Action.Sound (C := BufId) IdePc.holds Inv Assert (some q) pc x (.compute (x.setBuf b y) (.owns b)) := by
  obtain ⟨hx, howner, hqueue⟩ := h
  have hframe := frame_setBuf hqueue y
  have hx' := hframe.queued hx
  refine ⟨hpc.symm, fun _ hinv => hframe.inv hinv, ⟨hx', howner, by rw [hframe.queue]; exact hqueue⟩, ?_⟩
  intro p w m hp _ hassert
  refine ⟨hx', hassert.2.frame hframe ?_⟩
  rintro q' b' rfl howner'
  refine ⟨update_of_ne ?_ .., rfl⟩
  rintro rfl
  exact hp (howner'.symm.trans howner)

lemma Queued.idestart (h : x.Queued) (hhead : x.idequeue = some b) : (x.idestart b).Inv := by
  refine ⟨⟨h.chained, h.nodup, h.done, h.good, h.asked⟩, ?_⟩
  change some (x.buf b).command = x.idequeue.map _
  rw [hhead]
  rfl

lemma Requested.idestart (h : x.Requested q b k) (c : BufId) : (x.idestart c).Requested q b k :=
  ⟨h.owner, h.arrived, h.done⟩

lemma Assert.idestart {p : Option Q} {w : Bool} (h : Assert p w pc x) (hw : w = true ∨ pc.holds = false)
    (hx : (x.idestart b).Queued) : Assert p w pc (x.idestart b) :=
  ⟨hx, h.2.other hw (fun _ _ _ hown => ⟨hown, rfl⟩) (fun _ _ _ _ hreq => hreq.idestart b)⟩

lemma Inv.append_starting (h : x.Inv) (hb : b ∉ x.queue) (hsync : (x.buf b).synced = false) (howner : x.owner b = some q) :
    (x.append b).Requested q b x.arrived.length ∧ (x.append b).Starting b := by
  obtain ⟨harrived, hcompleted, hactive, hown, hbuf⟩ := append_fields x b
  have hlength : x.completed.length ≤ x.arrived.length := by
    rw [← h.done]
    simp
  refine ⟨⟨by rw [hown, howner], ⟨_, by rw [harrived]; exact getElem?_concat_length .., ?_⟩, ?_⟩, ?_, ?_⟩
  · obtain ⟨n, hn⟩ := hbuf b
    rw [hn]
    exact ⟨rfl, rfl⟩
  · intro hk
    rw [hcompleted] at hk
    omega
  · exact h.toQueued.append hb hsync (by rw [howner]; nofun)
  · have hhead := (append_chained h.toQueued hb).head
    rw [hactive, h.active, h.chained.head, hhead]
    cases hq : x.queue with
    | nil => exact (if_pos rfl).symm
    | cons a l =>
      have hne : a ≠ b := by
        rintro rfl
        exact hb (by rw [hq]; exact mem_cons_self)
      obtain ⟨n, hn⟩ := hbuf a
      rw [if_neg (by simpa using hne)]
      simp only [cons_append, head?_cons, Option.map_some, hn]
      rfl

variable [DecidableEq Q] {havedisk1 : Bool}

lemma sound (p : Option Q) (pc : IdePc) (x : Ide Q) (killed : Bool) (h : Assert p false pc x) :
    (code havedisk1 p pc x killed).Sound IdePc.holds Inv Assert p pc x := by
  obtain ⟨hx, hknows⟩ := h
  cases p with
  | none =>
    cases pc with
    | idle | panicked => trivial
    | ideintr => exact ⟨rfl, rfl, fun hinv => ⟨hx, hinv⟩⟩
    | intrTake =>
      have hinv : x.Inv := hknows
      unfold code
      dsimp only
      split
      · exact ⟨rfl, nofun, ⟨hx, hinv⟩, fun _ _ _ _ _ hassert => hassert⟩
      · rename_i b hhead
        obtain ⟨hqueued, htransfer, -⟩ := hinv.transfer hhead
        refine ⟨rfl, nofun, ⟨hqueued, hqueued, htransfer.active⟩, ?_⟩
        intro p w m _ hw hassert
        refine ⟨hqueued, hassert.2.other (hw rfl) ?_ (fun _ _ _ _ hreq => hreq.transfer hinv hhead)⟩
        intro q b' _ hown
        obtain ⟨hown', hbuf⟩ := hown.transfer hinv hhead
        exact ⟨hown', by rw [hbuf]⟩
    | intrWakeup b => exact ⟨rfl, hx, hknows⟩
    | intrStart =>
      unfold code
      dsimp only
      split
      · rename_i hhead
        refine ⟨rfl, nofun, ⟨hx, hx, ?_⟩, fun _ _ _ _ _ hassert => hassert⟩
        rw [hhead, hknows.2]
        rfl
      · rename_i b hhead
        split
        · trivial
        · have hinv := hx.idestart hhead
          exact ⟨rfl, nofun, ⟨hinv.toQueued, hinv⟩, fun _ _ _ _ hw hassert => hassert.idestart (hw rfl) hinv.toQueued⟩
    | intrDone => exact ⟨rfl, rfl, hknows, hx, trivial⟩
    | _ => exact hknows.elim
  | some q =>
    cases pc with
    | idle | panicked | owns b => trivial
    | lockBuf b =>
      unfold code
      dsimp only
      split
      · rename_i hfree
        have hb : b ∉ x.queue := by
          intro hmem
          obtain ⟨r, hr, rfl⟩ := mem_map.mp hmem
          exact (hx.asked r hr).2.2 hfree
        have hframe := frame_owner hb (some q)
        have hx' := hframe.queued hx
        refine ⟨rfl, fun _ hinv => hframe.inv hinv, ⟨hx', update_self .., by rw [hframe.queue]; exact hb⟩, ?_⟩
        intro p w m _ _ hassert
        refine ⟨hx', hassert.2.frame hframe ?_⟩
        rintro q' b' rfl howner
        refine ⟨rfl, update_of_ne ?_ ..⟩
        rintro rfl
        rw [hfree] at howner
        cases howner
      · trivial
    | recycle b dev blockno => exact sound_setBuf ⟨hx, hknows⟩ rfl _
    | store b data => exact sound_setBuf ⟨hx, hknows⟩ rfl _
    | unlockBuf b =>
      obtain ⟨howner, hqueue⟩ : x.Owned q b := hknows
      have hframe := frame_owner hqueue none
      have hx' := hframe.queued hx
      refine ⟨rfl, fun _ hinv => hframe.inv hinv, ⟨hx', trivial⟩, ?_⟩
      intro p w m hp _ hassert
      refine ⟨hx', hassert.2.frame hframe ?_⟩
      rintro q' b' rfl howner'
      refine ⟨rfl, update_of_ne ?_ ..⟩
      rintro rfl
      exact hp (howner'.symm.trans howner)
    | iderw b =>
      unfold code
      dsimp only
      split
      · exact ⟨rfl, fun _ hinv => hinv, ⟨hx, trivial⟩, fun _ _ _ _ _ hassert => hassert⟩
      · rename_i hgo
        rw [not_or, not_or] at hgo
        exact ⟨rfl, fun _ hinv => hinv, ⟨hx, hknows, by simpa using hgo.2.1⟩, fun _ _ _ _ _ hassert => hassert⟩
    | acquire b => exact ⟨rfl, rfl, fun hinv => ⟨hx, hknows.1, hknows.2, hinv⟩⟩
    | append b =>
      obtain ⟨⟨howner, hqueue⟩, hsync, hinv⟩ : x.Owned q b ∧ (x.buf b).synced = false ∧ x.Inv := hknows
      obtain ⟨hreq, hstarting⟩ := hinv.append_starting hqueue hsync howner
      refine ⟨rfl, nofun, ⟨hstarting.1, hreq, hstarting⟩, ?_⟩
      intro p w m hp hw hassert
      have hmine : ∀ q', p = some q' → x.owner b ≠ some q' := by
        rintro q' rfl howner'
        exact hp (howner'.symm.trans howner)
      refine ⟨hstarting.1, hassert.2.other (hw rfl) ?_ (fun q' _ _ hq' hreq' => hreq'.append hx (hmine q' hq'))⟩
      intro q' b' hq' hown
      obtain ⟨n, hn⟩ := (append_fields x b).2.2.2.2 b'
      exact ⟨hown.append hx (hmine q' hq'), by rw [hn]; rfl⟩
    | start b k =>
      obtain ⟨hreq, -, hactive⟩ : x.Requested q b k ∧ x.Starting b := hknows
      unfold code
      dsimp only
      split
      · rename_i hhead
        split
        · trivial
        · have hinv := hx.idestart hhead
          exact ⟨rfl, nofun, ⟨hinv.toQueued, hreq.idestart b, hinv⟩,
            fun _ _ _ _ hw hassert => hassert.idestart (hw rfl) hinv.toQueued⟩
      · rename_i hhead
        rw [if_neg hhead] at hactive
        exact ⟨rfl, nofun, ⟨hx, hreq, hx, hactive⟩, fun _ _ _ _ _ hassert => hassert⟩
    | wait b k =>
      obtain ⟨hreq, hinv⟩ : x.Requested q b k ∧ x.Inv := hknows
      unfold code
      dsimp only
      split
      · rename_i hsync
        exact ⟨rfl, nofun, ⟨hx, hreq, hsync, hinv⟩, fun _ _ _ _ _ hassert => hassert⟩
      · exact ⟨rfl, rfl, hinv, hx, hreq⟩
    | done b k =>
      obtain ⟨hreq, hsync, hinv⟩ : x.Requested q b k ∧ (x.buf b).synced = true ∧ x.Inv := hknows
      exact ⟨rfl, rfl, hinv, hx, hreq.owner, (hreq.done ((hreq.synced_iff hx).mp hsync)).1⟩
    | _ => exact hknows.elim

def outline (Q : Type*) [DecidableEq Q] (havedisk1 : Bool) : Outline (program Q havedisk1) where
  holds := IdePc.holds
  inv := Inv
  assert := Assert
  idle := rfl
  start := by
    rintro x ⟨hhead, hactive, howner, harrived, hcompleted⟩
    have hwaiting : x.waiting = [] := by rw [waiting, harrived, drop_nil]
    have hqueue : x.queue = [] := by rw [queue, hwaiting, map_nil]
    have hqueued : x.Queued := by
      refine ⟨by rw [hqueue]; exact hhead, by rw [hqueue]; exact nodup_nil, ?_, ?_, ?_⟩
      · rw [hcompleted, hwaiting, harrived]
        rfl
      · rw [hcompleted]
        nofun
      · rw [hwaiting]
        nofun
    exact ⟨⟨hqueued, by rw [hactive, hhead]; rfl⟩, fun _ => ⟨hqueued, trivial⟩⟩
  begins := by
    intro p pc entry x hbegins h
    unfold program begins at hbegins
    dsimp only at hbegins
    split at hbegins
    · exact ⟨rfl, rfl, h.1, trivial⟩
    · exact ⟨rfl, rfl, h.1, trivial⟩
    · obtain rfl := beq_iff_eq.mp hbegins
      exact ⟨rfl, rfl, h⟩
    · obtain rfl := beq_iff_eq.mp hbegins
      exact ⟨rfl, rfl, h⟩
    · obtain rfl := beq_iff_eq.mp hbegins
      exact ⟨rfl, rfl, h⟩
    · obtain rfl := beq_iff_eq.mp hbegins
      exact ⟨rfl, rfl, h⟩
    · cases hbegins
  resume := by
    intro p pc x h hinv
    cases p with
    | none => cases pc <;> exact h.2.elim
    | some q =>
      cases pc with
      | wait b k => exact ⟨h.1, h.2, hinv⟩
      | _ => exact h.2.elim
  sound := sound

/-! ### Wakeups -/

lemma fair (p : Option Q) (pc : IdePc) (x : Ide Q) (killed : Bool) (h : Assert p false pc x) :
    (code havedisk1 p pc x killed).Fair (fun b x => b ∈ x.queue) (fun b pc => pc = .intrWakeup b) pc x := by
  obtain ⟨hx, hknows⟩ := h
  cases pc with
  | idle | owns b | panicked | acquire b | done b k | ideintr | intrDone => trivial
  | recycle b dev blockno => exact fun c hc => .inl (hc.resolve_right nofun)
  | store b data => exact fun c hc => .inl (hc.resolve_right nofun)
  | unlockBuf b => exact fun c hc => .inl (hc.resolve_right nofun)
  | lockBuf b =>
    unfold code
    dsimp only
    split
    · exact fun c hc => .inl (hc.resolve_right nofun)
    · trivial
  | iderw b =>
    unfold code
    dsimp only
    split <;> exact fun c hc => .inl (hc.resolve_right nofun)
  | append b =>
    intro c hc
    have hmem : c ∈ x.queue := hc.resolve_right nofun
    refine .inl (?_ : c ∈ (x.append b).queue)
    rw [hx.queue_append]
    exact mem_append_left _ hmem
  | start b k =>
    unfold code
    dsimp only
    split
    · split
      · trivial
      · exact fun c hc => .inl (hc.resolve_right nofun)
    · exact fun c hc => .inl (hc.resolve_right nofun)
  | wait b k =>
    unfold code
    dsimp only
    split
    · exact fun c hc => .inl (hc.resolve_right nofun)
    · rename_i hsync
      cases p with
      | none => exact hknows.elim
      | some q =>
        have hreq : x.Requested q b k := hknows.1
        exact ⟨hreq.mem_queue (not_lt.mp (mt (hreq.synced_iff hx).mpr hsync)), nofun⟩
  | intrTake =>
    cases p with
    | some q => exact hknows.elim
    | none =>
      unfold code
      dsimp only
      split
      · exact fun c hc => .inl (hc.resolve_right nofun)
      · rename_i b hhead
        intro c hc
        have hmem : c ∈ x.queue := hc.resolve_right nofun
        rw [(Inv.transfer hknows hhead).2.2, mem_cons] at hmem
        rcases hmem with rfl | hmem
        · exact .inr rfl
        · exact .inl hmem
  | intrWakeup b =>
    intro c hne howes
    exact absurd (IdePc.intrWakeup.inj howes).symm hne
  | intrStart =>
    unfold code
    dsimp only
    split
    · exact fun c hc => .inl (hc.resolve_right nofun)
    · split
      · trivial
      · exact fun c hc => .inl (hc.resolve_right nofun)

def signals (Q : Type*) [DecidableEq Q] (havedisk1 : Bool) : Signals (outline Q havedisk1) (fun _ _ => True) where
  waits b x := b ∈ x.queue
  owes b pc := pc = .intrWakeup b
  holds := by
    rintro b pc rfl
    rfl
  fair := fair
  release := by
    intro s p n q b _ _ _ hact _ howes
    rw [Program.action, howes] at hact
    cases hact

def quiet : Ide Bool where
  idequeue := none
  buf _ := ⟨false, false, 0, 0, fun _ => 0, none⟩
  owner _ := none
  platter _ _ _ := 0
  active := none
  arrived := []
  completed := []

end Ide

end Xv6Bfs
