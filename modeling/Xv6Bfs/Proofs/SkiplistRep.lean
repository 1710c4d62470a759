import Xv6Bfs.Skiplist
import Mathlib.Tactic

/-!
# Towers

A skip list in memory is described by the sequence of its towers in level-0 order: the
process a tower stands for and its nodes from the bottom up. `Rep` relates the two. The
nodes of level `k` are then those of the towers that reach it, so that all levels are read
off one list, and linking or unlinking one node changes one tower by one level.
-/

namespace Xv6Bfs

open LinkedList List

variable {P : ℕ} {a : Addr P}

/-- One process of the list: its key and its nodes, from the bottom level up. -/
structure Tower (P : ℕ) where
  pid : ℤ
  virtualDeadline : ℤ
  nodes : List (Addr P)

namespace Tower

/-- What the `forward` pointer of a tower's node on level `k` should be. -/
def below (t : Tower P) : ℕ → Ptr P
  | 0 => none
  | k + 1 => t.nodes[k]?

def entry (t : Tower P) : ℤ × ℤ := (t.pid, t.virtualDeadline)

def push (t : Tower P) (a : Addr P) : Tower P := { t with nodes := t.nodes ++ [a] }

@[simp] lemma push_pid (t : Tower P) (a : Addr P) : (t.push a).pid = t.pid := rfl

@[simp] lemma push_virtualDeadline (t : Tower P) (a : Addr P) :
    (t.push a).virtualDeadline = t.virtualDeadline := rfl

@[simp] lemma push_nodes (t : Tower P) (a : Addr P) : (t.push a).nodes = t.nodes ++ [a] := rfl

lemma push_below (t : Tower P) (a : Addr P) {k : ℕ} (hk : k ≤ t.nodes.length) :
    (t.push a).below k = t.below k := by
  cases k with
  | zero => rfl
  | succ k => exact getElem?_append_left hk

end Tower

def lane (k : ℕ) (ts : List (Tower P)) : List (Addr P) := ts.filterMap (fun t => t.nodes[k]?)

@[simp] lemma lane_nil (k : ℕ) : lane k ([] : List (Tower P)) = [] := rfl

@[simp] lemma lane_append (k : ℕ) (ts us : List (Tower P)) :
    lane k (ts ++ us) = lane k ts ++ lane k us := filterMap_append

lemma lane_cons (k : ℕ) (t : Tower P) (ts : List (Tower P)) :
    lane k (t :: ts) = t.nodes[k]?.toList ++ lane k ts := by
  unfold lane
  cases h : t.nodes[k]? <;> simp [h]

lemma mem_lane {k : ℕ} {ts : List (Tower P)} :
    a ∈ lane k ts ↔ ∃ t ∈ ts, t.nodes[k]? = some a := mem_filterMap

lemma mem_nodes_of_mem_lane {k : ℕ} {ts : List (Tower P)} (h : a ∈ lane k ts) :
    a ∈ ts.flatMap Tower.nodes := by
  obtain ⟨t, ht, ha⟩ := mem_lane.mp h
  exact mem_flatMap.mpr ⟨t, ht, mem_of_getElem? ha⟩

lemma lane_nodup {k : ℕ} {ts : List (Tower P)} (h : (ts.flatMap Tower.nodes).Nodup) :
    (lane k ts).Nodup := by
  induction ts with
  | nil => exact nodup_nil
  | cons t ts ih =>
    rw [flatMap_cons, nodup_append] at h
    rw [lane_cons]
    cases hk : t.nodes[k]? with
    | none => simpa using ih h.2.1
    | some a =>
      have ha : a ∉ lane k ts := fun hl =>
        h.2.2 a (mem_of_getElem? hk) a (mem_nodes_of_mem_lane hl) rfl
      simpa using ⟨ha, ih h.2.1⟩

lemma lane_disjoint {j k : ℕ} (hjk : j ≠ k) {ts : List (Tower P)}
    (h : (ts.flatMap Tower.nodes).Nodup) (hj : a ∈ lane j ts) : a ∉ lane k ts := by
  intro hk
  induction ts with
  | nil => simp at hj
  | cons t ts ih =>
    rw [flatMap_cons, nodup_append] at h
    rw [lane_cons, mem_append, Option.mem_toList] at hj hk
    rcases hj with hj | hj <;> rcases hk with hk | hk
    · have hlt : j < t.nodes.length := by
        by_contra hlt
        simp [getElem?_eq_none (not_lt.mp hlt)] at hj
      exact hjk ((getElem?_inj hlt h.1).mp (hj.trans hk.symm))
    · exact h.2.2 a (mem_of_getElem? hj) a (mem_nodes_of_mem_lane hk) rfl
    · exact h.2.2 a (mem_of_getElem? hk) a (mem_nodes_of_mem_lane hj) rfl
    · exact ih h.2.1 hj hk

def nextOf (mem : Mem P) (a : Addr P) : Ptr P := (mem a).bind Node.next

def prevOf (mem : Mem P) (a : Addr P) : Ptr P := (mem a).bind Node.prev

/-- The part of a node that linking leaves alone. -/
def Node.payload (n : Node P) : ℤ × ℤ × Ptr P := (n.pid, n.virtualDeadline, n.forward)

/-- The memory of `sl` holds exactly linked levels for the towers `ts`. -/
structure Rep (sl : Skiplist P) (ts : List (Tower P)) : Prop where
  length : sl.headers.length = sl.levels
  nodup : (sl.headers ++ ts.flatMap Tower.nodes).Nodup
  header : ∀ k h, sl.headers[k]? = some h → ∃ f, (sl.mem h).map Node.payload = some (-1, -1, f) ∧
    ∀ j, k = j + 1 → f = sl.headers[j]?
  headerPrev : ∀ h ∈ sl.headers, prevOf sl.mem h = none
  tower : ∀ t ∈ ts, ∀ k a, t.nodes[k]? = some a →
    (sl.mem a).map Node.payload = some (t.pid, t.virtualDeadline, t.below k)
  linked : ∀ k h, sl.headers[k]? = some h → LinkedList.Linked (nextOf sl.mem) (prevOf sl.mem) h (lane k ts)
  height : ∀ t ∈ ts, t.nodes.length ≤ sl.levels
  sorted : ts.Pairwise (fun t u => t.virtualDeadline ≤ u.virtualDeadline)

namespace Rep

variable {sl : Skiplist P} {ts pre post : List (Tower P)} {j k : ℕ} {h : Addr P}

lemma headers_nodup (hr : Rep sl ts) : sl.headers.Nodup := hr.nodup.of_append_left

lemma nodes_nodup (hr : Rep sl ts) : (ts.flatMap Tower.nodes).Nodup := hr.nodup.of_append_right

lemma header_not_mem_lane (hr : Rep sl ts) (hh : h ∈ sl.headers) : h ∉ lane k ts := fun hl =>
  (nodup_append.mp hr.nodup).2.2 h hh h (mem_nodes_of_mem_lane hl) rfl

lemma exists_header (hr : Rep sl ts) (hk : k < sl.levels) : ∃ h, sl.headers[k]? = some h :=
  ⟨_, getElem?_eq_getElem (hr.length ▸ hk)⟩

lemma row_nodup (hr : Rep sl ts) (hh : sl.headers[k]? = some h) : (h :: lane k ts).Nodup :=
  nodup_cons.mpr ⟨hr.header_not_mem_lane (mem_of_getElem? hh), lane_nodup hr.nodes_nodup⟩

lemma row_disjoint (hr : Rep sl ts) {h' a : Addr P} (hjk : j ≠ k) (hj : sl.headers[j]? = some h)
    (hk : sl.headers[k]? = some h') (ha : a ∈ h :: lane j ts) : a ∉ h' :: lane k ts := by
  have hlt : j < sl.headers.length := (List.getElem?_eq_some_iff.mp hj).1
  have hne : h ≠ h' := by
    rintro rfl
    exact hjk ((getElem?_inj hlt hr.headers_nodup).mp (hj.trans hk.symm))
  intro ha'
  rcases mem_cons.mp ha with rfl | ha <;> rcases mem_cons.mp ha' with rfl | ha'
  · exact hne rfl
  · exact hr.header_not_mem_lane (mem_of_getElem? hj) ha'
  · exact hr.header_not_mem_lane (mem_of_getElem? hk) ha
  · exact lane_disjoint hjk hr.nodes_nodup ha ha'

lemma exists_node (hr : Rep sl ts) {t : Tower P} (ht : t ∈ ts)
    (ha : t.nodes[k]? = some a) : ∃ n, sl.mem a = some n ∧ n.pid = t.pid ∧
      n.virtualDeadline = t.virtualDeadline ∧ n.forward = t.below k := by
  have hp := hr.tower t ht k a ha
  obtain ⟨n, hn, hpay⟩ := Option.map_eq_some_iff.mp hp
  simp only [Node.payload, Prod.mk.injEq] at hpay
  exact ⟨n, hn, hpay⟩

lemma exists_header_node (hr : Rep sl ts) (hh : sl.headers[k]? = some h) : ∃ n, sl.mem h = some n ∧
    n.pid = -1 ∧ n.virtualDeadline = -1 ∧ ∀ j, k = j + 1 → n.forward = sl.headers[j]? := by
  obtain ⟨f, hf, hbelow⟩ := hr.header k h hh
  obtain ⟨n, hn, hpay⟩ := Option.map_eq_some_iff.mp hf
  simp only [Node.payload, Prod.mk.injEq] at hpay
  exact ⟨n, hn, hpay.1, hpay.2.1, fun j hj => hpay.2.2.trans (hbelow j hj)⟩

lemma live (hr : Rep sl ts) (ha : a ∈ sl.headers ++ ts.flatMap Tower.nodes) :
    sl.mem a ≠ none := by
  rcases mem_append.mp ha with ha | ha
  · obtain ⟨k, hk⟩ := mem_iff_getElem?.mp ha
    obtain ⟨n, hn, -⟩ := hr.exists_header_node hk
    simp [hn]
  · obtain ⟨t, ht, hat⟩ := mem_flatMap.mp ha
    obtain ⟨k, hk⟩ := mem_iff_getElem?.mp hat
    obtain ⟨n, hn, -⟩ := hr.exists_node ht hk
    simp [hn]

lemma row_live (hr : Rep sl ts) (hh : sl.headers[k]? = some h)
    (ha : a ∈ h :: lane k ts) : sl.mem a ≠ none := by
  apply hr.live
  rcases mem_cons.mp ha with rfl | ha
  · exact mem_append_left _ (mem_of_getElem? hh)
  · exact mem_append_right _ (mem_nodes_of_mem_lane ha)

end Rep

end Xv6Bfs
