import Mathlib.Order.Interval.Finset.Nat
import Xv6Bfs.Proofs.DirMap
import Xv6Bfs.Proofs.Mkfs

/-!
# The files in the image that `mkfs` builds

`Stored` says what the image holds after some of the arguments: the entries of the root directory and the bytes of the files,
with the number of blocks that are left.
-/

namespace Xv6Bfs

open Function List Ownership Program

variable {k : ℕ}

lemma getElem?_concat_eq_some {α : Type} {xs : List α} {x y : α} (h : (xs ++ [x])[k]? = some y) :
    xs[k]? = some y ∨ k = xs.length ∧ x = y := by
  rw [getElem?_append] at h
  split at h
  · exact .inl h
  · rename_i hge
    rw [getElem?_singleton] at h
    split at h
    · exact .inr ⟨by omega, Option.some_inj.mp h⟩
    · cases h

namespace Mkfs

variable {s s' : Mkfs} {i j n r : ℕ} {p : List (BitVec 8)}

lemma free_patch (im : Image) (i : ℕ) (d : Dinode) : (im.patch i d).free sb = im.free sb := rfl

/-! ### Bytes -/

def bytesOf (s : Mkfs) (j : ℕ) : List (BitVec 8) :=
  ((s.content.image sb).inode j).bytes (s.content.image sb).data ((s.content.image sb).inode j).size.toNat

@[simp]
lemma length_bytesOf : (s.bytesOf j).length = ((s.content.image sb).inode j).size.toNat :=
  Dinode.length_bytes ..

structure Appended (i : ℕ) (p : List (BitVec 8)) (s s' : Mkfs) : Prop where
  self : s'.bytesOf i = s.bytesOf i ++ p
  other : ∀ j, j ≠ i → ((s.content.image sb).inode j).type ≠ 0 → s'.bytesOf j = s.bytesOf j
  type : ∀ j, ((s'.content.image sb).inode j).type = ((s.content.image sb).inode j).type
  card : ((s'.content.image sb).free sb).card + blocksFor ((s.bytesOf i).length + p.length) =
    ((s.content.image sb).free sb).card + blocksFor (s.bytesOf i).length

lemma Built.appended (h : Built n r s) (hpos : 0 < i) (hi : i < n) (hn : n ≤ sb.ninodes)
    (hroom : ¬ s.NoRoom (s.bytesOf i).length ((s.bytesOf i).length + p.length)) :
    Wp (Mkfs.iappend i p) s (fun _ s' => Appended i p s s') (fun _ _ => False) := by
  have hfile := h.isFile i hpos hi
  rw [length_bytesOf] at hroom
  refine (iappend_spec h.steady h.wellFormed (hi.trans_le hn) hfile p).mono ?_ (fun _ _ => hroom)
  rintro _ s' ⟨-, ⟨d', hw⟩, hcard⟩
  refine ⟨?_, ?_, ?_, ?_⟩
  · have hself : (s'.content.image sb).inode i = d' := by
      rw [hw.inode, update_self]
    rw [bytesOf, hself, hw.bytes, bytesOf]
    exact List.splice_end (Dinode.length_bytes ..)
  · intro j hj htype
    have hsame : (s'.content.image sb).inode j = (s.content.image sb).inode j := by
      rw [hw.inode, update_of_ne hj]
    rw [bytesOf, hsame, hw.files j _ hj htype, bytesOf]
  · intro j
    rw [hw.inode]
    by_cases hj : j = i
    · subst hj
      rw [update_self, hw.attrs]
    · rw [update_of_ne hj]
  · rw [length_bytesOf]
    exact hcard

/-! ### What is stored -/

/-- The blocks that a root directory of `m` entries and the files with these contents have. -/
def need (m : ℕ) (cs : List (List (BitVec 8))) : ℕ :=
  blocksFor (16 * m) + (cs.map fun c => blocksFor c.length).sum

/-- The root directory has the entries `es`, and the files after it the contents `cs`. -/
structure Stored (es : List Dirent) (cs : List (List (BitVec 8))) (s : Mkfs) : Prop where
  built : Built (cs.length + 2) es.length s
  dir : ((s.content.image sb).inode ROOTINO).type = T_DIR
  root : ∀ k de, es[k]? = some de → ((s.bytesOf ROOTINO).drop (16 * k)).take 16 = de.bytes
  files : ∀ k c, cs[k]? = some c → s.bytesOf (k + 2) = c
  room : ((s.content.image sb).free sb).card + need es.length cs = nblocks

namespace Stored

variable {es : List Dirent} {cs : List (List (BitVec 8))} {c : List (BitVec 8)} {de : Dirent}

lemma rootino_lt (cs : List (List (BitVec 8))) : ROOTINO < cs.length + 2 := Nat.lt_add_left _ (by decide)

lemma ialloc (h : Stored es cs s) (hn : cs.length + 2 < sb.ninodes) :
    Wp (ialloc T_FILE) s (fun inum s' => inum = cs.length + 2 ∧ Stored es (cs ++ [[]]) s') (fun _ _ => False) := by
  refine (h.built.ialloc (by omega) hn (.inr rfl)).imp ?_
  rintro inum s' ⟨hinum, hbuilt, himage⟩
  have hsame : ∀ j, j ≠ cs.length + 2 → (s'.content.image sb).inode j = (s.content.image sb).inode j := by
    intro j hj
    rw [himage]
    exact update_of_ne hj ..
  have hbytes : ∀ j, j ≠ cs.length + 2 → s'.bytesOf j = s.bytesOf j := by
    intro j hj
    rw [bytesOf, hsame j hj, himage]
    rfl
  have hroot := (rootino_lt cs).ne
  refine ⟨hinum, ?_, ?_, ?_, ?_, ?_⟩
  · rw [length_append]
    exact hbuilt
  · rw [hsame _ hroot]
    exact h.dir
  · rw [hbytes _ hroot]
    exact h.root
  · intro k c hk
    obtain hk | ⟨rfl, rfl⟩ := getElem?_concat_eq_some hk
    · have hlt : k < cs.length := (List.getElem?_eq_some_iff.mp hk).1
      rw [hbytes _ (by omega)]
      exact h.files k c hk
    · rw [← length_eq_zero_iff, length_bytesOf, himage]
      simp [Image.patch, Dinode.zero]
  · have hroom := h.room
    rw [himage, free_patch]
    simp only [need, map_append, sum_append, map_cons, map_nil, length_nil,
      blocksFor_zero, sum_cons, sum_nil, Nat.add_zero] at hroom ⊢
    exact hroom

lemma appendDirent (h : Stored es cs s) (hn : cs.length + 2 ≤ sb.ninodes)
    (hmax : 16 * (es.length + 1) ≤ MAXFILE * BSIZE) (hneed : need (es.length + 1) cs ≤ nblocks)
    (name : List (BitVec 8)) (inum : ℕ) :
    Wp (appendDirent name inum) s
      (fun _ => Stored (es ++ [⟨BitVec.ofNat 16 inum, strncpy name DIRSIZ⟩]) cs) (fun _ _ => False) := by
  have hlen : (Dirent.mk (BitVec.ofNat 16 inum) (strncpy name DIRSIZ)).bytes.length = 16 := by
    rw [Dirent.length_bytes, length_strncpy]
    rfl
  have hsize : (s.bytesOf ROOTINO).length = 16 * es.length := by
    rw [length_bytesOf, h.built.root]
  have hroom := h.room
  unfold need at hroom hneed
  have hspec := h.built.appended (p := (Dirent.mk (BitVec.ofNat 16 inum) (strncpy name DIRSIZ)).bytes)
    (by decide) (rootino_lt cs) hn ?_
  · refine (hspec.and_returns (h.built.appendDirent (rootino_lt cs) hn name inum)).imp ?_
    rintro _ s' ⟨happ, hbuilt⟩
    refine ⟨?_, ?_, ?_, ?_, ?_⟩
    · rw [length_append]
      exact hbuilt
    · rw [happ.type]
      exact h.dir
    · intro k de hk
      rw [happ.self, ← List.splice_end hsize, take_drop_splice hlen hsize.ge]
      obtain hk | ⟨rfl, rfl⟩ := getElem?_concat_eq_some hk
      · have hlt : k < es.length := (List.getElem?_eq_some_iff.mp hk).1
        rw [if_neg hlt.ne]
        exact h.root k de hk
      · exact if_pos rfl
    · intro k c hk
      have hlt : k < cs.length := (List.getElem?_eq_some_iff.mp hk).1
      rw [happ.other _ (by unfold ROOTINO; omega) (h.built.isFile _ (by omega) (by omega)).1]
      exact h.files k c hk
    · have hcard := happ.card
      rw [hlen, hsize] at hcard
      simp only [need, length_append, length_singleton, Nat.mul_add, Nat.mul_one] at hroom ⊢
      omega
  · rw [hlen, hsize]
    rintro (hlong | hfew)
    · omega
    · rw [Nat.mul_add, Nat.mul_one] at hneed
      omega

lemma iappend (h : Stored es (cs ++ [c]) s) (hn : cs.length + 3 ≤ sb.ninodes)
    (hmax : (c ++ p).length ≤ MAXFILE * BSIZE) (hneed : need es.length (cs ++ [c ++ p]) ≤ nblocks) :
    Wp (iappend (cs.length + 2) p) s (fun _ => Stored es (cs ++ [c ++ p])) (fun _ _ => False) := by
  have hlen : (cs ++ [c]).length + 2 = cs.length + 3 := by
    rw [length_append]
    rfl
  have hbuilt := h.built
  rw [hlen] at hbuilt
  have hbytes : s.bytesOf (cs.length + 2) = c := h.files cs.length c (by simp)
  have hroom := h.room
  simp only [need, map_append, sum_append, map_cons, map_nil, sum_cons, sum_nil,
    Nat.add_zero] at hroom hneed
  rw [length_append] at hmax hneed
  have hspec := hbuilt.appended (p := p) (i := cs.length + 2) (by omega) (by omega) hn ?_
  · refine (hspec.and_returns (hbuilt.iappend (i := cs.length + 2) (p := p) (rootino_lt cs) (by omega) hn)).imp ?_
    rintro _ s' ⟨happ, hbuilt'⟩
    have hroot : ROOTINO ≠ cs.length + 2 := (rootino_lt cs).ne
    refine ⟨?_, ?_, ?_, ?_, ?_⟩
    · rw [length_append]
      exact hbuilt'
    · rw [happ.type]
      exact h.dir
    · rw [happ.other _ hroot (by rw [h.dir]; decide)]
      exact h.root
    · intro k c' hk
      obtain hk | ⟨rfl, rfl⟩ := getElem?_concat_eq_some hk
      · have hlt : k < cs.length := (List.getElem?_eq_some_iff.mp hk).1
        rw [happ.other _ (by omega) (hbuilt.isFile _ (by omega) (by omega)).1]
        apply h.files
        rwa [getElem?_append_left hlt]
      · rw [happ.self, hbytes]
    · have hcard := happ.card
      rw [hbytes] at hcard
      simp only [need, map_append, sum_append, map_cons, map_nil, sum_cons, sum_nil,
        Nat.add_zero, length_append]
      omega
  · rw [hbytes]
    rintro (hlong | hfew) <;> omega

end Stored

/-! ### The run -/

lemma Steady.card_free (hs : s.Steady) : ((s.content.image sb).free sb).card = FSSIZE - s.freeblock := by
  have hle := hs.le_size
  have hfree : (s.content.image sb).free sb = Finset.Ico s.freeblock FSSIZE := by
    ext k
    rw [Image.free, Finset.mem_filter, Finset.mem_range, Finset.mem_Ico, hs.used, decide_eq_false_iff_not,
      Nat.not_lt, and_comm]
    apply and_congr_left
    intro hk
    rw [FsSuperblock.toNat_ofNat_of_lt_size hk]
  rw [hfree, Nat.card_Ico]

lemma stored_ialloc : Wp (ialloc T_DIR) formatted (fun inum s' => inum = ROOTINO ∧ Stored [] [] s')
    (fun _ _ => False) := by
  refine (built_formatted.ialloc Nat.one_pos (by decide) (.inl rfl)).imp ?_
  rintro inum s' ⟨hinum, hbuilt, himage⟩
  refine ⟨hinum, hbuilt, ?_, ?_, ?_, ?_⟩
  · rw [himage]
    simp [Image.patch, ROOTINO]
  · intro k de hk
    cases hk
  · intro k c hk
    cases hk
  · rw [himage, free_patch, built_formatted.steady.card_free]
    simp only [need, length_nil, Nat.mul_zero, blocksFor_zero, map_nil, sum_nil, Nat.add_zero]
    rfl

def InputFile.contents (f : InputFile) : List (BitVec 8) :=
  (f.reads.getD []).flatten

def InputFile.entry (f : InputFile) (k : ℕ) : Dirent :=
  ⟨BitVec.ofNat 16 (k + 2), strncpy f.base DIRSIZ⟩

def rootEntries (files : List InputFile) : List Dirent :=
  ⟨1, strncpy [0x2E] DIRSIZ⟩ :: ⟨1, strncpy [0x2E, 0x2E] DIRSIZ⟩ :: files.mapIdx (fun k f => f.entry k)

@[simp]
lemma length_rootEntries (files : List InputFile) : (rootEntries files).length = files.length + 2 := by
  simp [rootEntries]

lemma rootEntries_concat (files : List InputFile) (f : InputFile) :
    rootEntries (files ++ [f]) = rootEntries files ++ [f.entry files.length] := by
  simp [rootEntries]

/-- The arguments can be opened and stored: there are inodes and blocks for them and for the root
directory. -/
structure Fits (files : List InputFile) : Prop where
  inodes : files.length + 1 < NINODES
  names : ∀ f ∈ files, 0x2F ∉ f.name
  opened : ∀ f ∈ files, f.reads.isSome
  size : ∀ f ∈ files, f.contents.length ≤ MAXFILE * BSIZE
  blocks : need (files.length + 2) (files.map InputFile.contents) ≤ nblocks

lemma need_mono {m m' : ℕ} {cs cs' : List (List (BitVec 8))} (hm : m ≤ m') (hcs : cs <+: cs') :
    need m cs ≤ need m' cs' := by
  obtain ⟨cs'', rfl⟩ := hcs
  have := blocksFor_mono (Nat.mul_le_mul_left 16 hm)
  simp only [need, map_append, sum_append]
  omega

lemma need_concat_mono {m : ℕ} {cs : List (List (BitVec 8))} {c c' : List (BitVec 8)} (h : c.length ≤ c'.length) :
    need m (cs ++ [c]) ≤ need m (cs ++ [c']) := by
  have := blocksFor_mono h
  simp only [need, map_append, sum_append, map_cons, map_nil, sum_cons, sum_nil]
  omega

section Fits

variable {files before after : List InputFile} {f : InputFile} (hfits : Fits files)

include hfits

lemma stored_makeRoot : Wp makeRoot formatted (fun _ => Stored (rootEntries []) []) (fun _ _ => False) := by
  have hneed : ∀ m ≤ 2, need m [] ≤ nblocks := fun m hm =>
    (need_mono (by omega) nil_prefix).trans hfits.blocks
  refine Wp.bind stored_ialloc ?_ (fun _ _ h => h)
  rintro _ s₁ ⟨rfl, h₁⟩
  rw [if_neg (by simp)]
  refine Wp.bind (h₁.appendDirent (by decide) (by decide) (hneed 1 (by decide)) _ _) ?_ (fun _ _ h => h)
  intro _ s₂ h₂
  exact h₂.appendDirent (by decide) (by decide) (hneed 2 le_rfl) _ _

lemma stored_addFile (hfiles : files = before ++ f :: after)
    (h : Stored (rootEntries before) (before.map InputFile.contents) s) :
    Wp (addFile f) s (fun _ => Stored (rootEntries (before ++ [f])) ((before ++ [f]).map InputFile.contents))
      (fun _ _ => False) := by
  have hf : f ∈ files := by simp [hfiles]
  have hlen : files.length = before.length + 1 + after.length := by
    rw [hfiles, length_append, length_cons]
    omega
  have hinodes : before.length + 3 ≤ sb.ninodes := by
    have hlt : files.length + 1 < sb.ninodes := hfits.inodes
    omega
  have hentries : 16 * (before.length + 3) ≤ MAXFILE * BSIZE := by
    have hlt : files.length + 1 < 200 := hfits.inodes
    unfold MAXFILE NDIRECT NINDIRECT BSIZE
    omega
  have hcontents : before.map InputFile.contents ++ [f.contents] <+: files.map InputFile.contents := by
    refine ⟨after.map InputFile.contents, ?_⟩
    simp [hfiles]
  have hneed : need (before.length + 3) (before.map InputFile.contents ++ [f.contents]) ≤ nblocks :=
    (need_mono (by omega) hcontents).trans hfits.blocks
  obtain ⟨reads, hreads⟩ := Option.isSome_iff_exists.mp (hfits.opened f hf)
  have hall : f.contents = reads.flatten := by
    rw [InputFile.contents, hreads]
    rfl
  have hsize := hfits.size f hf
  rw [hall] at hsize hneed
  rw [addFile, if_neg (hfits.names f hf), hreads]
  refine Wp.bind (h.ialloc (by rw [length_map]; exact hinodes)) ?_ (fun _ _ h => h)
  rintro inum s₁ ⟨hinum, h₁⟩
  rw [length_map] at hinum
  subst hinum
  refine Wp.bind (h₁.appendDirent (by simpa using hinodes) (by simpa using hentries) ?_ _ _) ?_ (fun _ _ h => h)
  · rw [length_rootEntries]
    exact (need_concat_mono (Nat.zero_le _)).trans hneed
  intro _ s₂ h₂
  rw [rootEntries_concat, map_append, map_cons, map_nil, hall]
  refine Wp.forM (fun done => Stored (rootEntries before ++ [f.entry before.length])
    (before.map InputFile.contents ++ [done.flatten])) ?_ h₂
  intro done p rest s₃ hpieces h₃
  have hdone : (done.flatten ++ p).length ≤ reads.flatten.length := by
    rw [hpieces, flatten_append, flatten_cons]
    simp only [length_append]
    omega
  rw [flatten_append, flatten_cons, flatten_nil, append_nil]
  have hspec := h₃.iappend (p := p) (by simpa using hinodes) (hdone.trans hsize) ?_
  · rwa [length_map] at hspec
  · rw [length_append, length_rootEntries]
    exact (need_concat_mono hdone).trans hneed

lemma exists_stored : ∃ s₀ s, main files start = .ok () s ∧ Stored (rootEntries files) (files.map InputFile.contents) s₀ ∧
    s.img = iupdate sb ROOTINO
      { (s₀.content.image sb).inode ROOTINO with size := rootSize (files.length + 2) } s₀.content := by
  have hrun : Wp (build files) formatted (fun _ s => ∃ s₀,
      Stored (rootEntries files) (files.map InputFile.contents) s₀ ∧
      s.img = iupdate sb ROOTINO
        { (s₀.content.image sb).inode ROOTINO with size := rootSize (files.length + 2) } s₀.content)
      (fun _ _ => False) := by
    refine Wp.bind (stored_makeRoot hfits) ?_ (fun _ _ h => h)
    intro _ s₁ h₁
    refine Wp.bind (Wp.forM (fun done => Stored (rootEntries done) (done.map InputFile.contents)) ?_ h₁) ?_
      (fun _ _ h => h)
    · intro done f rest s hfiles h
      exact stored_addFile hfits hfiles h
    · intro _ s₂ h₂
      refine (finish_spec h₂.built).imp ?_
      intro _ s himg
      rw [length_rootEntries] at himg
      exact ⟨s₂, h₂, himg⟩
  obtain ⟨_, s, hok, s₀, h₀, himg⟩ := hrun.exists_ok
  exact ⟨s₀, s, (main_eq files).trans hok, h₀, himg⟩

end Fits

/-! ### What the kernel reads -/

section Read

variable {s₀ : Mkfs} {es : List Dirent} {cs : List (List (BitVec 8))} (h : Stored es cs s₀)
  (himg : s.img = iupdate sb ROOTINO
    { (s₀.content.image sb).inode ROOTINO with size := rootSize es.length } s₀.content)

include himg

lemma image_img : s.img.image sb = (s₀.content.image sb).patch ROOTINO
    { (s₀.content.image sb).inode ROOTINO with size := rootSize es.length } := by
  rw [himg, Content.image_iupdate (by decide)]
  rfl

include h

lemma owned_img (i : ℕ) : Owned {b | sb.IsData b} {b | (s.img.image sb).used b = true}
    ((s.img.image sb).patch i ((s.img.image sb).inode i)).ref := by
  rw [Image.patch_inode, image_img himg, Image.ref_patch_size, Image.patch_inode]
  exact h.built.wellFormed.owned

omit h in
lemma dinode_img : s.img.dinode sb ROOTINO =
    { (s₀.content.image sb).inode ROOTINO with size := rootSize es.length } := by
  rw [← Content.image_inode (by decide), image_img himg]
  simp only [Image.patch, update_self]

lemma le_rootSize : 16 * es.length ≤ (s.img.dinode sb ROOTINO).size.toNat := by
  rw [dinode_img himg]
  dsimp only
  rw [h.built.toNat_rootSize (Stored.rootino_lt cs)]
  unfold BSIZE
  omega

lemma readi_file (devsw : Devsw) (hn : cs.length + 2 ≤ sb.ninodes) {c : List (BitVec 8)}
    (hk : cs[k]? = some c) (off n : BitVec 32) :
    readi sb devsw (s.img.dinode sb (k + 2)) off n s.img =
      .ok (readSlice c off n, s.img.dinode sb (k + 2), s.img) := by
  have hlt : k < cs.length := (List.getElem?_eq_some_iff.mp hk).1
  have hne : k + 2 ≠ ROOTINO := by
    unfold ROOTINO
    omega
  have hinode : s.img.dinode sb (k + 2) = (s₀.content.image sb).inode (k + 2) := by
    rw [← Content.image_inode (by omega), image_img himg]
    simp only [Image.patch, update_of_ne hne]
  have hown := owned_img h himg (k + 2)
  rw [Content.image_inode (by omega), hinode] at hown
  have hfile := h.built.isFile (k + 2) (by omega) (by omega)
  have hholes := h.built.wellFormed.noHoles (k + 2) hfile
  have hdata : (s.img.image sb).data = (s₀.content.image sb).data := by
    rw [image_img himg]
    rfl
  have hbytes := h.files k c hk
  unfold bytesOf at hbytes
  rw [hinode, readi_readSlice devsw hown hfile (by rwa [hdata]), hdata, hbytes]

lemma readi_root (devsw : Devsw) (hk : k < es.length) :
    readi sb devsw (s.img.dinode sb ROOTINO) (BitVec.ofNat 32 (16 * k)) 16 s.img =
      .ok (some (((s₀.bytesOf ROOTINO).drop (16 * k)).take 16), s.img.dinode sb ROOTINO, s.img) := by
  have hdata : (s.img.image sb).data = (s₀.content.image sb).data := by
    rw [image_img himg]
    rfl
  have hown := owned_img h himg ROOTINO
  rw [Content.image_inode (by decide), dinode_img himg] at hown
  have hle := le_rootSize h himg
  rw [dinode_img himg] at hle
  obtain ⟨hmax, hfills⟩ := h.built.root_noHoles (Stored.rootino_lt cs)
  have hoff : (BitVec.ofNat 32 (16 * k)).toNat = 16 * k := by
    have hfits : MAXFILE * BSIZE < 2 ^ 32 := by decide
    rw [BitVec.toNat_ofNat, Nat.mod_eq_of_lt (by omega)]
  have hlen : (16 : BitVec 32).toNat = 16 := rfl
  rw [dinode_img himg, readi_of_fills devsw hown (h.built.isFile ROOTINO (by decide) (Stored.rootino_lt cs)) (n := 16 * es.length)]
  · rw [hoff, hlen, hdata, Dinode.bytes_size, bytesOf, h.built.root]
  · intro t
    rw [hdata, Dinode.ref_size]
    exact hfills t
  · exact hmax
  · exact hle
  · rw [hoff, hlen]
    omega

end Read

/-! ### The result -/

def InputFile.key (f : InputFile) : List (BitVec 8) :=
  nameKey f.base

/-- The kernel finds the file at entry `inum` of the root directory, and its bytes in that inode. -/
structure ReadsBack (s : Mkfs) (f : InputFile) (inum : ℕ) : Prop where
  entry : ∀ devsw, readi sb devsw (s.img.dinode sb ROOTINO) (BitVec.ofNat 32 (16 * inum)) 16 s.img =
    .ok (some (Dirent.mk (BitVec.ofNat 16 inum) (strncpy f.base DIRSIZ)).bytes, s.img.dinode sb ROOTINO, s.img)
  contents : ∀ devsw off n, readi sb devsw (s.img.dinode sb inum) off n s.img =
    .ok (readSlice f.contents off n, s.img.dinode sb inum, s.img)

/-- A kernel with this image, the root directory in slot `dp` of its cache and a slot that is free. -/
structure Mounted (s : Mkfs) (fs : Fs) (dp : Fin NINODE) : Prop where
  content : fs.content = s.img
  root : (fs.icache dp).toDinode = s.img.dinode sb ROOTINO
  slot : ∃ ip, (fs.icache ip).ref = 0

def Finds (s : Mkfs) (name : List (BitVec 8)) (inum : ℕ) : Prop :=
  ∀ devsw fs dp, s.Mounted fs dp → ∃ ip fs',
    fs.dirlookup sb devsw dp name = .ok (some (ip, 16 * inum), fs') ∧ (fs'.icache ip).inum = inum

section Lookup

variable {s₀ : Mkfs} {es : List Dirent} {cs : List (List (BitVec 8))} (h : Stored es cs s₀)
  (himg : s.img = iupdate sb ROOTINO
    { (s₀.content.image sb).inode ROOTINO with size := rootSize es.length } s₀.content)

include h himg

lemma dirlookup_root (name : List (BitVec 8)) (devsw : Devsw) {fs : Fs} {dp : Fin NINODE} (hm : s.Mounted fs dp)
    {de : Dirent} (hk : es[k]? = some de) (hmatch : de.Matches name)
    (hfirst : ∀ i de', i < k → es[i]? = some de' → ¬ de'.Matches name) :
    ∃ ip fs', fs.dirlookup sb devsw dp name = .ok (some (ip, 16 * k), fs') ∧
      (fs'.icache ip).inum = de.inum.toNat := by
  obtain ⟨hlt, hget⟩ := List.getElem?_eq_some_iff.mp hk
  have hsize : (s₀.bytesOf ROOTINO).length = 16 * es.length := by
    rw [length_bytesOf, h.built.root]
  have hentries : dirents (s₀.bytesOf ROOTINO) = es := by
    apply ext_getElem?
    intro j
    rw [getElem?_dirents, hsize, Nat.mul_div_cancel_left _ (by decide)]
    split
    · rename_i hj
      rw [h.root j es[j] (getElem?_eq_getElem hj), Dirent.ofBytes_bytes, getElem?_eq_getElem hj]
    · rename_i hj
      rw [getElem?_eq_none (Nat.le_of_not_lt hj)]
  have hfind : es.find? (·.Matches name) = some de := by
    refine find?_eq_some_iff_getElem.mpr ⟨decide_eq_true hmatch, k, hlt, hget, ?_⟩
    intro i hi
    simpa using hfirst i _ hi (getElem?_eq_getElem (hi.trans hlt))
  have hidx : es.findIdx (·.Matches name) = k := by
    rw [findIdx_eq hlt, hget]
    refine ⟨decide_eq_true hmatch, ?_⟩
    intro i hi
    exact decide_eq_false (hfirst i _ hi (getElem?_eq_getElem (hi.trans hlt)))
  have hroot := hm.root
  have htype : (fs.icache dp).type = T_DIR := by
    rw [hroot, dinode_img himg]
    exact h.dir
  have hle := le_rootSize h himg
  have hscan := dirScan_of_reads devsw .dirlookupRead (·.Matches name) hsize hle
    (fun j hj => readi_root h himg devsw hj) (s.img.dinode sb ROOTINO).size.toNat 0 (by omega) (Nat.zero_le _)
    (.inr ⟨de, by rw [drop_zero, hentries]; exact mem_of_getElem? hk, decide_eq_true hmatch⟩)
  rw [drop_zero, hentries, Nat.mul_zero, Nat.zero_add, ← hroot, ← hm.content] at hscan
  obtain ⟨ip, fs', higet⟩ := exists_iget hm.slot de.inum.toNat
  refine ⟨ip, fs', ?_, (iget_frame higet).1⟩
  rw [Fs.dirlookup_of_scan htype hscan, hfind, hidx]
  dsimp only
  rw [higet]
  rfl

end Lookup

lemma rootEntries_getElem? {files : List InputFile} {f : InputFile} (hk : files[k]? = some f) :
    (rootEntries files)[k + 2]? = some (f.entry k) := by
  simp [rootEntries, hk]

def rootNames (files : List InputFile) : List (List (BitVec 8)) :=
  [0x2E] :: [0x2E, 0x2E] :: files.map InputFile.key

lemma getElem?_rootNames (files : List InputFile) (i : ℕ) :
    (rootNames files)[i]? = (rootEntries files)[i]?.map (fun de => nameKey de.name) := by
  match i with
  | 0 => rfl
  | 1 => rfl
  | i + 2 =>
    rw [rootNames, rootEntries, getElem?_cons_succ, getElem?_cons_succ, getElem?_cons_succ,
      getElem?_cons_succ, getElem?_map, getElem?_mapIdx, Option.map_map]
    congr 1
    funext f
    exact (nameKey_strncpy _).symm

/-- If the files fit in the image, `mkfs` stores them so that the kernel reads back their bytes, and
finds each of them under its name if the names are distinct, also from `.` and `..`. -/
theorem mkfs_files_readable {files : List InputFile} (hfits : Fits files) :
    ∃ s, main files start = .ok () s ∧ (∀ k f, files[k]? = some f → s.ReadsBack f (k + 2)) ∧
      ((rootNames files).Nodup → ∀ k f, files[k]? = some f → s.Finds f.key (k + 2)) := by
  obtain ⟨s₀, s, hrun, h, himg⟩ := exists_stored hfits
  have hinodes : files.length + 1 < 200 := hfits.inodes
  rw [← length_rootEntries] at himg
  refine ⟨s, hrun, ?_, ?_⟩
  · intro k f hk
    have hentry := rootEntries_getElem? hk
    constructor
    · intro devsw
      rw [readi_root h himg devsw (List.getElem?_eq_some_iff.mp hentry).1, h.root _ _ hentry]
      rfl
    · intro devsw off n
      refine readi_file h himg devsw ?_ (by rw [getElem?_map, hk]; rfl) off n
      rw [length_map]
      exact hfits.inodes
  · intro hnodup k f hk devsw fs dp hm
    have hlt : k < files.length := (List.getElem?_eq_some_iff.mp hk).1
    have hentry := rootEntries_getElem? hk
    have hinum : (f.entry k).inum.toNat = k + 2 := by
      rw [InputFile.entry, BitVec.toNat_ofNat, Nat.mod_eq_of_lt (by omega)]
    have hname : (rootNames files)[k + 2]? = some f.key := by
      rw [getElem?_rootNames, hentry]
      exact congrArg some (nameKey_strncpy _)
    have hkey : nameKey f.key = f.key := nameKey_nameKey f.base
    have hlookup := dirlookup_root h himg f.key devsw hm hentry ?_ ?_
    · rwa [hinum] at hlookup
    · rw [Dirent.matches_iff]
      refine ⟨?_, ?_⟩
      · intro hzero
        rw [hzero] at hinum
        cases hinum
      · rw [hkey]
        exact (nameKey_strncpy _).symm
    · intro i de hi hde hmatch
      rw [Dirent.matches_iff, hkey] at hmatch
      have hsame : (rootNames files)[i]? = (rootNames files)[k + 2]? := by
        rw [hname, getElem?_rootNames, hde, hmatch.2]
        rfl
      have hlen : i < (rootNames files).length := by
        simp only [rootNames, length_cons, length_map]
        omega
      exact hi.ne ((getElem?_inj hlen hnodup).mp hsame)

def catFile : InputFile := ⟨[0x5F, 0x63, 0x61, 0x74], some [[1, 2, 3], [4]]⟩

theorem mkfs_files_readable_cat : ∃ s, main [catFile] start = .ok () s ∧ s.ReadsBack catFile 2 ∧
    s.Finds [0x63, 0x61, 0x74] 2 := by
  have hkey : catFile.key = [0x63, 0x61, 0x74] := by decide
  obtain ⟨s, hrun, hreads, hfinds⟩ := mkfs_files_readable (show Fits [catFile] from
    ⟨by decide, by decide, by decide, by decide, by decide +kernel⟩)
  refine ⟨s, hrun, hreads 0 _ rfl, ?_⟩
  rw [← hkey]
  exact hfinds (by decide) 0 _ rfl

def dotFile : InputFile := ⟨[0x5F, 0x2E], some []⟩

lemma dotFile_fits : Fits [dotFile] :=
  ⟨by decide, by decide, by decide, by decide, by decide +kernel⟩

def mount (s : Mkfs) : Fs where
  content := s.img
  icache ip := if ip = 0 then ⟨s.img.dinode sb ROOTINO, ROOTINO, 1, none, true⟩ else ⟨Dinode.zero, 0, 0, none, false⟩

/-- The name of the only file is distinct from the names of all others, but `dirlookup` finds the
directory's own entry. -/
theorem mkfs_dot_file_not_found : Fits [dotFile] ∧ ([dotFile].map InputFile.key).Nodup ∧
    ∃ s, main [dotFile] start = .ok () s ∧ ¬ s.Finds dotFile.key 2 := by
  obtain ⟨s₀, s, hrun, h, himg⟩ := exists_stored dotFile_fits
  refine ⟨dotFile_fits, by decide, s, hrun, ?_⟩
  intro hfinds
  have hm : s.Mounted s.mount 0 := ⟨rfl, by simp [mount], 1, congrArg Inode.ref (if_neg (by decide))⟩
  obtain ⟨ip, fs', hlookup, -⟩ := hfinds ⟨fun _ => none, fun _ => none⟩ s.mount 0 hm
  obtain ⟨ip', fs'', hlookup', -⟩ := dirlookup_root h himg dotFile.key ⟨fun _ => none, fun _ => none⟩ hm
    (k := 0) rfl (by decide) (fun i _ hi => absurd hi (Nat.not_lt_zero i))
  rw [hlookup'] at hlookup
  simp at hlookup

end Mkfs

end Xv6Bfs
