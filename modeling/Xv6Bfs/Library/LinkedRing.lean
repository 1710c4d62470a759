import Mathlib.Data.List.Chain
import Mathlib.Data.List.Nodup

/-!
# Circular doubly linked lists

Cells are the elements of an arbitrary type, and a cell `h` stands for the list itself: it is linked to the first and to the
last cell of the list. The file has the two operations that change such a list in place, and the loop that goes round it.
-/

namespace LinkedRing

open Function List

variable {α : Type*} {next prev next' prev' : α → α} {h a b c x : α} {l l₁ l₂ : List α}

def Link (next prev : α → α) (a b : α) : Prop :=
  next a = b ∧ prev b = a

/-- The cells of `l` are linked in this order from `h` to `h`. -/
structure IsRing (next prev : α → α) (h : α) (l : List α) : Prop where
  nodup : (h :: l).Nodup
  chain : List.IsChain (Link next prev) (h :: (l ++ [h]))

lemma isRing_nil (hnext : next h = h) (hprev : prev h = h) : IsRing next prev h [] :=
  ⟨nodup_singleton h, List.IsChain.cons_cons ⟨hnext, hprev⟩ (List.IsChain.singleton h)⟩

lemma isChain_congr {l : List α} (hl : List.IsChain (Link next prev) l) (hnext : ∀ x ∈ l.dropLast, next' x = next x)
    (hprev : ∀ x ∈ l.tail, prev' x = prev x) : List.IsChain (Link next' prev') l := by
  induction l with
  | nil => exact List.IsChain.nil
  | cons a l ih =>
    cases l with
    | nil => exact List.IsChain.singleton a
    | cons b l =>
      rw [isChain_cons_cons] at hl ⊢
      have hrest := ih hl.2 (fun x hx => hnext x (by simp [hx])) (fun x hx => hprev x (mem_of_mem_tail hx))
      refine ⟨⟨?_, ?_⟩, hrest⟩
      · rw [hnext a (by simp)]
        exact hl.1.1
      · rw [hprev b (by simp)]
        exact hl.1.2

lemma IsRing.reverse (hr : IsRing next prev h l) : IsRing prev next h l.reverse := by
  refine ⟨?_, ?_⟩
  · have hnodup := hr.nodup
    rw [nodup_cons] at hnodup ⊢
    exact ⟨by simpa using hnodup.1, nodup_reverse.mpr hnodup.2⟩
  · have hrev : h :: (l.reverse ++ [h]) = (h :: (l ++ [h])).reverse := by simp
    rw [hrev, isChain_reverse]
    exact hr.chain.imp fun _ _ hlink => ⟨hlink.2, hlink.1⟩

lemma IsRing.next_head (hr : IsRing next prev h l) : ∃ c rest, l ++ [h] = c :: rest ∧ next h = c := by
  have hchain := hr.chain
  cases hl : l ++ [h] with
  | nil => simp at hl
  | cons c rest =>
    rw [hl, isChain_cons_cons] at hchain
    exact ⟨c, rest, rfl, hchain.1.1⟩

lemma IsRing.next_ne (hr : IsRing next prev h (l₁ ++ x :: l₂)) : next x ≠ x := by
  obtain ⟨c, C, hC⟩ := exists_cons_of_ne_nil (append_ne_nil_of_right_ne_nil l₂ (cons_ne_nil h []))
  have hchain := hr.chain
  have hnodup := hr.nodup
  rw [append_assoc, cons_append, hC, ← cons_append, isChain_split, isChain_cons_cons] at hchain
  rw [← cons_append, nodup_middle, nodup_cons] at hnodup
  rw [hchain.2.1.1]
  rintro rfl
  have hc : c ∈ l₂ ++ [h] := hC ▸ mem_cons_self
  apply hnodup.1
  rcases mem_append.mp hc with hc | hc
  · exact mem_append_right _ hc
  · rw [mem_singleton.mp hc]
    exact mem_cons_self

variable [DecidableEq α]

theorem IsRing.cons (hr : IsRing next prev h l) (hx : x ∉ h :: l) :
    IsRing (update (update next x (next h)) h x) (update (update prev x h) (next h) x) h
      (x :: l) := by
  obtain ⟨c, rest, hl, hc⟩ := hr.next_head
  have hchain := hr.chain
  have hcmem : c ∈ l ++ [h] := hl ▸ mem_cons_self
  have hxh : x ≠ h := fun heq => hx (heq ▸ mem_cons_self)
  have hxl : x ∉ l := fun hmem => hx (mem_cons_of_mem _ hmem)
  have hxc : x ≠ c := by
    rintro rfl
    rcases mem_append.mp hcmem with hmem | hmem
    · exact hxl hmem
    · exact hxh (mem_singleton.mp hmem)
  have hseconds : (l ++ [h]).Nodup := by
    rw [nodup_append_comm]
    exact hr.nodup
  rw [hc]
  refine ⟨?_, ?_⟩
  · have hnodup := hr.nodup
    rw [nodup_cons] at hnodup ⊢
    refine ⟨?_, nodup_cons.mpr ⟨hxl, hnodup.2⟩⟩
    rw [mem_cons, not_or]
    exact ⟨hxh.symm, hnodup.1⟩
  · rw [cons_append, hl]
    rw [hl] at hchain hseconds
    refine List.IsChain.cons_cons ⟨?_, ?_⟩ (List.IsChain.cons_cons ⟨?_, ?_⟩ ?_)
    · rw [update_self]
    · rw [update_of_ne hxc, update_self]
    · rw [update_of_ne hxh, update_self]
    · rw [update_self]
    · refine isChain_congr (isChain_cons_cons.mp hchain).2 ?_ ?_
      · intro y hy
        have hyl : y ∈ l := by
          rwa [← hl, dropLast_concat] at hy
        have hyh : y ≠ h := by
          rintro rfl
          exact (nodup_cons.mp hr.nodup).1 hyl
        have hyx : y ≠ x := by
          rintro rfl
          exact hxl hyl
        rw [update_of_ne hyh, update_of_ne hyx]
      · intro y hy
        have hyc : y ≠ c := by
          rintro rfl
          exact (nodup_cons.mp hseconds).1 hy
        have hyx : y ≠ x := by
          rintro rfl
          have hmem : y ∈ l ++ [h] := hl ▸ mem_cons_of_mem c hy
          rcases mem_append.mp hmem with hmem | hmem
          · exact hxl hmem
          · exact hxh (mem_singleton.mp hmem)
        rw [update_of_ne hyc, update_of_ne hyx]

theorem IsRing.unlink (hr : IsRing next prev h (l₁ ++ x :: l₂)) :
    IsRing (update next (prev x) (next x)) (update prev (next x) (prev x)) h (l₁ ++ l₂) := by
  have hnodup : (h :: (l₁ ++ l₂)).Nodup := by
    refine hr.nodup.sublist (List.Sublist.cons_cons h ?_)
    exact List.Sublist.append_left (sublist_cons_self x l₂) l₁
  have hfirsts : (h :: l₁).Nodup := hnodup.sublist (List.Sublist.cons_cons h (sublist_append_left l₁ l₂))
  have hseconds : (l₂ ++ [h]).Nodup := by
    rw [nodup_append_comm]
    exact hnodup.sublist (List.Sublist.cons_cons h (sublist_append_right l₁ l₂))
  have hdisjoint : ∀ y ∈ h :: l₁, y ∉ l₂ := by
    rw [← cons_append, nodup_append] at hnodup
    exact fun y hy hy' => hnodup.2.2 y hy y hy' rfl
  -- `a` and `c` are the neighbours of `x`
  obtain ⟨A, a, hA⟩ := (eq_nil_or_concat (h :: l₁)).resolve_left (cons_ne_nil _ _)
  obtain ⟨c, C, hC⟩ := exists_cons_of_ne_nil (append_ne_nil_of_right_ne_nil l₂ (cons_ne_nil h []))
  rw [concat_eq_append] at hA
  have hold : h :: (l₁ ++ x :: l₂ ++ [h]) = A ++ a :: x :: c :: C := by
    rw [← hC, append_cons A, ← hA]
    simp
  have hnew : h :: (l₁ ++ l₂ ++ [h]) = A ++ a :: c :: C := by
    rw [← hC, append_cons A, ← hA]
    simp
  have hchain := hr.chain
  rw [hold, isChain_split, isChain_cons_cons, isChain_cons_cons] at hchain
  obtain ⟨hbefore, hax, hxc, hafter⟩ := hchain
  rw [hax.2, hxc.1]
  have ha : a ∈ h :: l₁ := by
    rw [hA]
    simp
  have hc : c ∉ l₁ := by
    intro hmem
    have hc' : c ∈ l₂ ++ [h] := hC ▸ mem_cons_self
    rcases mem_append.mp hc' with hc' | hc'
    · exact hdisjoint c (mem_cons_of_mem h hmem) hc'
    · exact (nodup_cons.mp hfirsts).1 (mem_singleton.mp hc' ▸ hmem)
  refine ⟨hnodup, ?_⟩
  rw [hnew, isChain_split, isChain_cons_cons]
  refine ⟨isChain_congr hbefore ?_ ?_, ⟨update_self .., update_self ..⟩, isChain_congr hafter ?_ ?_⟩
  · intro y hy
    rw [dropLast_concat] at hy
    rw [hA, nodup_append] at hfirsts
    exact update_of_ne (fun heq => hfirsts.2.2 y hy a (by simp) heq) ..
  · intro y hy
    rw [← hA, tail_cons] at hy
    exact update_of_ne (ne_of_mem_of_not_mem hy hc) ..
  · intro y hy
    rw [← hC, dropLast_concat] at hy
    exact update_of_ne (ne_of_mem_of_not_mem hy (hdisjoint a ha)) ..
  · intro y hy
    rw [hC] at hseconds
    exact update_of_ne (ne_of_mem_of_not_mem hy (nodup_cons.mp hseconds).1) ..

/-- The loop that goes round the list to the first cell that passes the test; `none` is a loop that does not end. -/
def scan (step : α → α) (h : α) (test : α → Bool) : (fuel : ℕ) → (b : α) → Option (Option α)
  | 0, _ => none
  | fuel + 1, b => if b = h then some none else if test b then some (some b) else scan step h test fuel (step b)

lemma scan_of_isChain (test : α → Bool) {fuel : ℕ} (hl : List.IsChain (Link next prev) (a :: (l ++ [h]))) (hh : h ∉ l)
    (hfuel : l.length < fuel) : scan next h test fuel (next a) = some (l.find? test) := by
  induction l generalizing a fuel with
  | nil =>
    obtain ⟨n, rfl⟩ := Nat.exists_eq_add_of_lt hfuel
    rw [(isChain_cons_cons.mp hl).1.1, scan, if_pos rfl]
    rfl
  | cons b l ih =>
    cases fuel with
    | zero => cases hfuel
    | succ fuel =>
      rw [cons_append, isChain_cons_cons] at hl
      rw [mem_cons, not_or] at hh
      rw [hl.1.1, scan, if_neg (Ne.symm hh.1), find?_cons]
      cases test b with
      | true => rfl
      | false => exact ih hl.2 hh.2 (Nat.lt_of_succ_lt_succ hfuel)

lemma IsRing.scan_eq (hr : IsRing next prev h l) (test : α → Bool) {fuel : ℕ} (hfuel : l.length < fuel) :
    scan next h test fuel (next h) = some (l.find? test) :=
  scan_of_isChain test hr.chain (nodup_cons.mp hr.nodup).1 hfuel

end LinkedRing
