import Xv6Bfs.Proofs.Paths
import Xv6Bfs.Proofs.Track

/-!
# Path names on the tree

`namex` looks paths up as the tree does. It frees no inode, and it holds one lock at a time.
-/

namespace Xv6Bfs

open Program Outcome

lemma Tree.names_of_lookup {t : Tree} {d i : ℕ} {name : List (BitVec 8)} (h : t.lookup d name = some i) : t.Names d i := by
  obtain ⟨de, hfind, rfl⟩ := Option.map_eq_some_iff.mp h
  have hmatch : de.Matches name := by simpa using List.find?_some hfind
  exact ⟨de, List.mem_of_find?_eq_some hfind, hmatch.1, rfl⟩

namespace Track

variable {sb : FsSuperblock} {devsw : Devsw} {p : Pid} {B : Base} {H : Multiset (Fin NINODE × ℕ)} {t : Tree} {v : Vfs}
  {ip cwd : Fin NINODE} {i start : ℕ}

lemma namexEnd (h : Track sb p B ((ip, i) ::ₘ H) 0 t v) (hkept : (t i).type ≠ 0 → (t i).nlink = 0 → B.Uses i) (parent : Bool)
    {exn : Stop → Vfs → Prop} :
    Wp (FsM.namexEnd sb parent ip) v
      (fun r v' => match r with
        | none => (if parent then none else some (i, ([] : List (BitVec 8)))) = none ∧ Track sb p B H 0 t v'
        | some (jp, name) => ∃ j, (if parent then none else some (i, [])) = some (j, name) ∧
            Track sb p B ((jp, j) ::ₘ H) 0 t v')
      exn := by
  unfold FsM.namexEnd
  split
  · refine (h.iput hkept).bind ?_ (fun _ _ he => he.elim)
    intro _ v' h'
    exact ⟨rfl, h'⟩
  · exact ⟨i, rfl, h⟩

lemma wp_namexLoop (parent : Bool) (fuel : ℕ) (hkeeps : B.Keeps t start) (path : List (BitVec 8))
    (h : Track sb p B ((ip, i) ::ₘ H) 0 t v) (hi : t.Leads start i) :
    Wp (FsM.namexLoop sb devsw p parent fuel ip path) v
      (fun r v' => match r with
        | none => t.walk parent fuel i path = none ∧ Track sb p B H 0 t v'
        | some (jp, name) => ∃ j, t.walk parent fuel i path = some (j, name) ∧ Track sb p B ((jp, j) ::ₘ H) 0 t v')
      (Exhausts p B (H.card + 1) (t.Dangling start)) := by
  induction fuel generalizing ip i path v with
  | zero => exact h.namexEnd (hkeeps i hi) parent
  | succ fuel ih =>
    rw [FsM.namexLoop, Tree.walk]
    cases skipelem path with
    | none => exact h.namexEnd (hkeeps i hi) parent
    | some next =>
      obtain ⟨name, path⟩ := next
      dsimp only
      have hmem : (ip, i) ∈ (ip, i) ::ₘ H := Multiset.mem_cons_self _ _
      have hlocked : ip ∈ ip ::ₘ (0 : Multiset (Fin NINODE)) := Multiset.mem_cons_self _ _
      refine (h.ilock hmem).bind ?_ ?_
      · intro _ v h
        rw [wp_bind, wp_inode, h.type_eq hmem hlocked]
        by_cases hdir : (t i).type = T_DIR
        · rw [if_neg (not_not.mpr hdir), if_neg (not_not.mpr hdir)]
          by_cases hlast : parent = true ∧ path.headD 0 = 0
          · rw [if_pos hlast, if_pos hlast]
            refine h.iunlock.bind ?_ (fun _ _ he => he.elim)
            intro _ v h
            exact ⟨i, rfl, h⟩
          · rw [if_neg hlast, if_neg hlast]
            refine (h.wp_dirlookup hmem hlocked hdir name).bind ?_
              (fun _ _ he => he.mono (Multiset.card_cons _ _).le False.elim)
            rintro (- | ⟨next, off⟩) v h
            · obtain ⟨hlookup, h⟩ := h
              rw [hlookup]
              refine (h.iunlockput (hkeeps i hi)).bind ?_ (fun _ _ he => he.elim)
              intro _ v h
              exact ⟨rfl, h⟩
            · obtain ⟨j, hlookup, h⟩ := h
              rw [hlookup]
              rw [Multiset.cons_swap] at h
              refine (h.iunlockput (hkeeps i hi)).bind ?_ (fun _ _ he => he.elim)
              intro _ v h
              exact ih path h (hi.tail (Tree.names_of_lookup hlookup))
        · rw [if_pos hdir, if_pos hdir]
          refine (h.iunlockput (hkeeps i hi)).bind ?_ (fun _ _ he => he.elim)
          intro _ v h
          exact ⟨rfl, h⟩
      · rintro e v ⟨rfl, htype, horder⟩
        exact ⟨horder, .inl ⟨rfl, i, hi, htype⟩⟩

lemma wp_namex (h : Track sb p B H 0 t v) (hroot : ROOTINO < sb.ninodes) (hcwd : 0 < B.ref cwd) (path : List (BitVec 8))
    (hkeeps : B.Keeps t (Tree.start (B.inum cwd) path)) (parent : Bool) :
    Wp (FsM.namex sb devsw p cwd path parent) v
      (fun r v' => match r with
        | none => t.namex (B.inum cwd) path parent = none ∧ Track sb p B H 0 t v'
        | some (ip, name) => ∃ i, t.namex (B.inum cwd) path parent = some (i, name) ∧ Track sb p B ((ip, i) ::ₘ H) 0 t v')
      (Exhausts p B (H.card + 1) (t.Dangling (Tree.start (B.inum cwd) path))) := by
  unfold FsM.namex Tree.namex
  unfold Tree.start at hkeeps ⊢
  split
  · rename_i hslash
    rw [if_pos hslash] at hkeeps
    refine (h.wp_iget hroot).bind ?_ (fun _ _ he => he.mono (Nat.le_succ _) False.elim)
    intro ip v h
    exact wp_namexLoop parent _ hkeeps path h .refl
  · rename_i hslash
    rw [if_neg hslash] at hkeeps
    refine (h.idup hcwd).bind ?_ (fun _ _ he => he.elim)
    rintro ip v ⟨rfl, h⟩
    exact wp_namexLoop parent _ hkeeps path h .refl

end Track

end Xv6Bfs
