import Xv6Bfs.Library.Fields
import Xv6Bfs.Proofs.Namespace

/-!
# The components of a path

`skipelem` takes a path apart at its slashes. A lookup in a tree depends on the path only through
its components and on whether it starts with a slash.
-/

namespace Xv6Bfs

open List

/-- The longest parts of a path without a slash, in front of the byte 0 that ends it. -/
def components (path : List (BitVec 8)) : List (List (BitVec 8)) :=
  (path.takeWhile (· ≠ 0)).fields (· = 47)

def elements (path : List (BitVec 8)) : List (List (BitVec 8)) :=
  (components path).map (·.take DIRSIZ)

section Components

variable {path rest seg : List (BitVec 8)}

lemma components_nil : components [] = [] :=
  rfl

lemma components_slash : components (47 :: path) = components path := by
  unfold components
  rw [takeWhile_cons_of_pos (by decide), List.fields_cons (by decide)]

lemma components_zero : components (0 :: path) = [] := by
  unfold components
  rw [takeWhile_cons_of_neg (by decide), List.fields_nil]

lemma components_dropWhile (path : List (BitVec 8)) : components (path.dropWhile (· = 47)) = components path := by
  induction path with
  | nil => rfl
  | cons c path ih =>
    by_cases hc : c = 47
    · subst hc
      rw [dropWhile_cons_of_pos (by decide), ih, components_slash]
    · rw [dropWhile_cons_of_neg (by simpa using hc)]

lemma components_append (hne : seg ≠ []) (hseg : ∀ c ∈ seg, c ≠ 47 ∧ c ≠ 0)
    (hrest : rest.headD 0 = 47 ∨ rest.headD 0 = 0) : components (seg ++ rest) = seg :: components rest := by
  have htake : (seg ++ rest).takeWhile (· ≠ 0) = seg ++ rest.takeWhile (· ≠ 0) :=
    takeWhile_append_of_pos (fun c hc => by simpa using (hseg c hc).2)
  have hone : seg.fields (· = 47) = [seg] :=
    List.fields_of_forall_not hne (fun c hc => by simpa using (hseg c hc).1)
  unfold components
  rw [htake]
  cases rest with
  | nil => rw [takeWhile_nil, append_nil, hone, List.fields_nil]
  | cons c rest =>
    rcases hrest with hc | hc
    · obtain rfl : c = 47 := hc
      rw [takeWhile_cons_of_pos (by decide), List.fields_append_cons (by decide), List.fields_cons (by decide), hone]
      rfl
    · obtain rfl : c = 0 := hc
      rw [takeWhile_cons_of_neg (by decide), append_nil, hone, List.fields_nil]

lemma splitSegment (path : List (BitVec 8)) :
    (∀ c ∈ path.takeWhile (fun c => c ≠ 47 ∧ c ≠ 0), c ≠ 47 ∧ c ≠ 0) ∧
      ((path.dropWhile (fun c => c ≠ 47 ∧ c ≠ 0)).headD 0 = 47 ∨
        (path.dropWhile (fun c => c ≠ 47 ∧ c ≠ 0)).headD 0 = 0) := by
  constructor
  · intro c hc
    simpa using mem_takeWhile_imp hc
  · induction path with
    | nil => exact .inr rfl
    | cons c path ih =>
      by_cases hc : c ≠ 47 ∧ c ≠ 0
      · rwa [dropWhile_cons_of_pos (by simpa using hc)]
      · rw [dropWhile_cons_of_neg (by simpa using hc)]
        by_cases h47 : c = 47
        · exact .inl h47
        · exact .inr (by_contra fun h0 => hc ⟨h47, h0⟩)

lemma headD_dropWhile (path : List (BitVec 8)) : (path.dropWhile (· = 47)).headD 0 ≠ 47 := by
  induction path with
  | nil => decide
  | cons c path ih =>
    by_cases hc : c = 47
    · rwa [dropWhile_cons_of_pos (by simpa using hc)]
    · rwa [dropWhile_cons_of_neg (by simpa using hc)]

lemma components_eq_cons (h47 : path.headD 0 ≠ 47) (h0 : path.headD 0 ≠ 0) :
    components path = path.takeWhile (fun c => c ≠ 47 ∧ c ≠ 0) ::
      components (path.dropWhile (fun c => c ≠ 47 ∧ c ≠ 0)) := by
  obtain ⟨hseg, hrest⟩ := splitSegment path
  have hne : path.takeWhile (fun c => c ≠ 47 ∧ c ≠ 0) ≠ [] := by
    cases path with
    | nil => exact absurd rfl h0
    | cons c path =>
      rw [takeWhile_cons_of_pos (by simpa using ⟨h47, h0⟩)]
      exact cons_ne_nil _ _
  rw [← components_append hne hseg hrest, takeWhile_append_dropWhile]

lemma components_eq_nil_iff (h : path.headD 0 ≠ 47) : components path = [] ↔ path.headD 0 = 0 := by
  constructor
  · intro hnil
    by_contra hne
    rw [components_eq_cons h hne] at hnil
    cases hnil
  · intro hzero
    cases path with
    | nil => rfl
    | cons c path =>
      obtain rfl : c = 0 := hzero
      exact components_zero

lemma skipelem_eq_none_iff : skipelem path = none ↔ components path = [] := by
  rw [← components_dropWhile, components_eq_nil_iff (headD_dropWhile path)]
  unfold skipelem
  dsimp only
  split <;> simp_all

lemma skipelem_eq_some {name : List (BitVec 8)} (h : skipelem path = some (name, rest)) :
    elements path = name :: elements rest ∧ (rest.headD 0 = 0 ↔ elements rest = []) := by
  unfold skipelem at h
  dsimp only at h
  split at h
  · cases h
  · rename_i h0
    cases h
    constructor
    · rw [elements, ← components_dropWhile path, components_eq_cons (headD_dropWhile path) h0, elements,
        components_dropWhile, map_cons]
    · rw [elements, map_eq_nil_iff, components_eq_nil_iff (headD_dropWhile _)]

/-- Repeated calls of `skipelem`; a path has no more elements than bytes. -/
def skipelems : (fuel : ℕ) → List (BitVec 8) → List (List (BitVec 8))
  | 0, _ => []
  | fuel + 1, path =>
    match skipelem path with
    | none => []
    | some (name, rest) => name :: skipelems fuel rest

lemma length_lt_of_skipelem {name : List (BitVec 8)} (h : skipelem path = some (name, rest)) :
    rest.length < path.length := by
  unfold skipelem at h
  dsimp only at h
  split at h
  · cases h
  · rename_i h0
    cases h
    have hskip := length_dropWhile_le (fun c : BitVec 8 => decide (c = 47)) path
    have h47 := headD_dropWhile path
    refine (length_dropWhile_le _ _).trans_lt (lt_of_lt_of_le ?_ hskip)
    cases hpath : path.dropWhile (· = 47) with
    | nil =>
      rw [hpath] at h0
      exact absurd rfl h0
    | cons c tail =>
      rw [hpath] at h0 h47
      rw [dropWhile_cons_of_pos (by simpa using ⟨h47, h0⟩)]
      exact Nat.lt_succ_of_le (length_dropWhile_le _ _)

lemma length_elements_le (path : List (BitVec 8)) : (elements path).length ≤ path.length := by
  induction hlen : path.length using Nat.strong_induction_on generalizing path with
  | _ n ih =>
    cases hskip : skipelem path with
    | none => simp [elements, skipelem_eq_none_iff.mp hskip]
    | some next =>
      obtain ⟨name, rest⟩ := next
      have hlt := length_lt_of_skipelem hskip
      have hrest := ih rest.length (by omega) rest rfl
      rw [(skipelem_eq_some hskip).1, length_cons]
      omega

lemma skipelems_eq (fuel : ℕ) (path : List (BitVec 8)) (hfuel : (elements path).length ≤ fuel) :
    skipelems fuel path = elements path := by
  induction fuel generalizing path with
  | zero => exact (length_eq_zero_iff.mp (Nat.le_zero.mp hfuel)).symm
  | succ fuel ih =>
    rw [skipelems]
    cases hskip : skipelem path with
    | none => rw [elements, skipelem_eq_none_iff.mp hskip, map_nil]
    | some next =>
      obtain ⟨name, rest⟩ := next
      have helements := (skipelem_eq_some hskip).1
      rw [helements, length_cons] at hfuel
      rw [helements, ← ih rest (by omega)]

end Components

/-! ### Slashes -/

/-- A slash is put next to another one, or at the end of a path that is not empty. -/
inductive AddSlash : List (BitVec 8) → List (BitVec 8) → Prop
  | repeated (a b : List (BitVec 8)) : AddSlash (a ++ 47 :: b) (a ++ 47 :: 47 :: b)
  | trailing (a : List (BitVec 8)) (h : a ≠ []) : AddSlash a (a ++ [47])

section Slashes

variable {a b path path' : List (BitVec 8)}

lemma components_append_of_mem (h : 0 ∈ a) : components (a ++ b) = components a := by
  have htake : (a ++ b).takeWhile (· ≠ 0) = a.takeWhile (· ≠ 0) := by
    rw [takeWhile_append, if_neg]
    intro hlen
    have hall := takeWhile_eq_self_iff.mp (( takeWhile_prefix _).eq_of_length hlen)
    simpa using hall 0 h
  rw [components, htake, components]

lemma components_append_slash (h : 0 ∉ a) : components (a ++ 47 :: b) = components a ++ components b := by
  have hall : ∀ c ∈ a, decide (c ≠ 0) = true := by
    intro c hc
    simp only [decide_eq_true_eq]
    rintro rfl
    exact h hc
  unfold components
  rw [takeWhile_append_of_pos hall, takeWhile_cons_of_pos (by decide), List.fields_append_cons (by decide),
    takeWhile_eq_self_iff.mpr hall]

lemma AddSlash.components_eq (h : AddSlash path path') : components path' = components path := by
  cases h with
  | repeated a b =>
    by_cases hzero : 0 ∈ a
    · rw [components_append_of_mem hzero, components_append_of_mem hzero]
    · rw [components_append_slash hzero, components_append_slash hzero, components_slash]
  | trailing a hne =>
    by_cases hzero : 0 ∈ path
    · rw [components_append_of_mem hzero]
    · rw [components_append_slash hzero, components_nil, append_nil]

lemma AddSlash.headD_eq (h : AddSlash path path') : path'.headD 0 = path.headD 0 := by
  cases h with
  | repeated a b => cases a <;> rfl
  | trailing a hne =>
    cases path with
    | nil => exact absurd rfl hne
    | cons c path => rfl

end Slashes

namespace Tree

variable (t : Tree)

def resolve : ℕ → List (List (BitVec 8)) → Option ℕ
  | i, [] => some i
  | i, name :: names =>
    if (t i).type = T_DIR then (t.lookup i name).bind (resolve · names) else none

def resolveParent (i : ℕ) (names : List (List (BitVec 8))) : Option (ℕ × List (BitVec 8)) :=
  match names.getLast? with
  | none => none
  | some name => ((t.resolve i names.dropLast).filter (fun d => (t d).type = T_DIR)).map (·, name)

variable {t}

lemma walk_false (fuel i : ℕ) (path : List (BitVec 8)) (hfuel : (elements path).length ≤ fuel) :
    t.walk false fuel i path = (t.resolve i (elements path)).map (·, []) := by
  induction fuel generalizing i path with
  | zero => 
    rw [length_eq_zero_iff.mp (Nat.le_zero.mp hfuel)]
    rfl
  | succ fuel ih =>
    rw [walk]
    cases hskip : skipelem path with
    | none =>
      rw [elements, skipelem_eq_none_iff.mp hskip]
      rfl
    | some next =>
      obtain ⟨name, rest⟩ := next
      have helements := (skipelem_eq_some hskip).1
      rw [helements, length_cons] at hfuel
      rw [helements, resolve]
      dsimp only
      by_cases hdir : (t i).type = T_DIR
      · rw [if_neg (not_not.mpr hdir), if_neg (by simp), if_pos hdir]
        cases t.lookup i name with
        | none => rfl
        | some j => exact ih j rest (by omega)
      · rw [if_pos hdir, if_neg hdir]
        rfl

lemma resolveParent_cons {i : ℕ} {name : List (BitVec 8)} {names : List (List (BitVec 8))} (hne : names ≠ []) :
    t.resolveParent i (name :: names) =
      if (t i).type = T_DIR then (t.lookup i name).bind (t.resolveParent · names) else none := by
  unfold resolveParent
  rw [getLast?_cons_of_ne_nil hne, getLast?_eq_some_getLast hne, dropLast_cons_of_ne_nil hne, resolve]
  dsimp only
  split
  · cases t.lookup i name <;> rfl
  · rfl

lemma walk_true (fuel i : ℕ) (path : List (BitVec 8)) (hfuel : (elements path).length ≤ fuel) :
    t.walk true fuel i path = t.resolveParent i (elements path) := by
  induction fuel generalizing i path with
  | zero =>
    rw [length_eq_zero_iff.mp (Nat.le_zero.mp hfuel)]
    rfl
  | succ fuel ih =>
    rw [walk]
    cases hskip : skipelem path with
    | none =>
      rw [elements, skipelem_eq_none_iff.mp hskip]
      rfl
    | some next =>
      obtain ⟨name, rest⟩ := next
      obtain ⟨helements, hlast⟩ := skipelem_eq_some hskip
      rw [helements, length_cons] at hfuel
      rw [helements]
      dsimp only
      by_cases hrest : elements rest = []
      · rw [hrest]
        by_cases hdir : (t i).type = T_DIR
        · rw [if_neg (not_not.mpr hdir), if_pos ⟨rfl, hlast.mpr hrest⟩]
          simp [resolveParent, resolve, hdir]
        · rw [if_pos hdir]
          simp [resolveParent, resolve, hdir]
      · rw [resolveParent_cons hrest]
        by_cases hdir : (t i).type = T_DIR
        · rw [if_neg (not_not.mpr hdir), if_neg (fun h => hrest (hlast.mp h.2)), if_pos hdir]
          cases t.lookup i name with
          | none => rfl
          | some j => exact ih j rest (by omega)
        · rw [if_pos hdir, if_neg hdir]

lemma resolve_append (i : ℕ) (names names' : List (List (BitVec 8))) :
    t.resolve i (names ++ names') = (t.resolve i names).bind (t.resolve · names') := by
  induction names generalizing i with
  | nil => rfl
  | cons name names ih =>
    rw [cons_append, resolve, resolve]
    split
    · cases t.lookup i name with
      | none => rfl
      | some j => exact ih j
    · rfl

lemma resolve_eq_none_iff {i : ℕ} {names : List (List (BitVec 8))} :
    t.resolve i names = none ↔ ∃ pre name post d, names = pre ++ name :: post ∧ t.resolve i pre = some d ∧
      ((t d).type ≠ T_DIR ∨ t.lookup d name = none) := by
  constructor
  · intro hnone
    induction names generalizing i with
    | nil => cases hnone
    | cons name names ih =>
      rw [resolve] at hnone
      by_cases hdir : (t i).type = T_DIR
      · rw [if_pos hdir] at hnone
        cases hlookup : t.lookup i name with
        | none => exact ⟨[], name, names, i, rfl, rfl, .inr hlookup⟩
        | some j =>
          rw [hlookup] at hnone
          obtain ⟨pre, name', post, d, rfl, hpre, hfail⟩ := ih hnone
          refine ⟨name :: pre, name', post, d, rfl, ?_, hfail⟩
          rw [resolve, if_pos hdir, hlookup]
          exact hpre
      · exact ⟨[], name, names, i, rfl, rfl, .inl hdir⟩
  · rintro ⟨pre, name, post, d, rfl, hpre, hfail⟩
    rw [resolve_append, hpre, Option.bind_some, resolve]
    rcases hfail with hdir | hlookup
    · rw [if_neg hdir]
    · rw [hlookup]
      simp

/-! ### Whole paths -/

def start (cwd : ℕ) (path : List (BitVec 8)) : ℕ :=
  if path.headD 0 = 47 then ROOTINO else cwd

lemma namei_eq (cwd : ℕ) (path : List (BitVec 8)) :
    t.namei cwd path = t.resolve (start cwd path) (elements path) := by
  rw [namei, namex, walk_false _ _ _ (length_elements_le path), Option.map_map]
  exact Option.map_id'

lemma nameiparent_eq (cwd : ℕ) (path : List (BitVec 8)) :
    t.nameiparent cwd path = t.resolveParent (start cwd path) (elements path) :=
  walk_true _ _ _ (length_elements_le path)

lemma start_addSlash (cwd : ℕ) {path path' : List (BitVec 8)} (h : AddSlash path path') :
    start cwd path' = start cwd path ∧ elements path' = elements path := by
  unfold start elements
  rw [h.headD_eq, h.components_eq]
  exact ⟨rfl, rfl⟩

end Tree

end Xv6Bfs
