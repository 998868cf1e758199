import Mathlib.Data.List.DropRight
import SchemaDrift.Files.Search
import SchemaDrift.Proofs.Collection.Lookup

/-!
# Where paths lead

Following a path asks a tree only whether each place on the way is there, never which place comes
next: that is the same in all trees (`destination`). A search walks a folder's path without its
final slashes and keeps the text it has walked. It ends where the path leads
(`resolve?_of_folderPlace?`), and two trees that have the folder begin their searches in the same
place (`folderPlace?_congr`).
-/

namespace SchemaDrift.Files

/-! ## Pieces of paths -/

/-- Every text has a piece. -/
theorem slashPieces_ne_nil (s : List Char) : slashPieces s ≠ [] := by
  cases s with
  | nil => simp [slashPieces]
  | cons c s =>
    rw [slashPieces]
    split
    · simp
    · split <;> simp

/-- Every path has a first piece. -/
theorem exists_pieces_eq_cons (path : String) : ∃ first more, pieces path = first :: more := by
  refine List.exists_cons_of_ne_nil fun h => slashPieces_ne_nil path.toList ?_
  simpa [pieces] using h

/-- A character other than a slash belongs to the first piece. -/
theorem slashPieces_cons_of_ne {c : Char} (hc : c ≠ '/') (s : List Char) :
    ∃ piece more, slashPieces s = piece :: more ∧ slashPieces (c :: s) = (c :: piece) :: more := by
  obtain ⟨piece, more, h⟩ := List.exists_cons_of_ne_nil (slashPieces_ne_nil s)
  exact ⟨piece, more, h, by simp [slashPieces, hc, h]⟩

/-- A slash separates the pieces before it from those behind it. -/
theorem slashPieces_append_slash (r s : List Char) :
    slashPieces (r ++ '/' :: s) = slashPieces r ++ slashPieces s := by
  induction r with
  | nil => simp [slashPieces]
  | cons c r ih =>
    by_cases hc : c = '/'
    · simp [slashPieces, hc, ih]
    · obtain ⟨piece, more, hr, hcr⟩ := slashPieces_cons_of_ne hc r
      rw [hcr, List.cons_append, slashPieces, if_neg hc, ih, hr]
      rfl

/-- Each slash at the end of a text adds an empty piece. -/
theorem slashPieces_append_slashes (r : List Char) (k : Nat) :
    slashPieces (r ++ List.replicate k '/') = slashPieces r ++ List.replicate k [] := by
  induction k generalizing r with
  | zero => simp
  | succ k ih =>
    have h : r ++ List.replicate (k + 1) '/' = (r ++ ['/']) ++ List.replicate k '/' := by
      simp [List.replicate_succ]
    rw [h, ih, slashPieces_append_slash, List.replicate_succ]
    simp [slashPieces]

/-- A piece holds no slash. -/
theorem slash_not_mem_slashPieces {s piece : List Char} (h : piece ∈ slashPieces s) :
    '/' ∉ piece := by
  induction s generalizing piece with
  | nil => simp_all [slashPieces]
  | cons c s ih =>
    by_cases hc : c = '/'
    · simp only [slashPieces, hc, if_true, List.mem_cons] at h
      rcases h with rfl | h
      · simp
      · exact ih h
    · obtain ⟨first, more, hs, hcs⟩ := slashPieces_cons_of_ne hc s
      rw [hcs, List.mem_cons] at h
      rcases h with rfl | h
      · have hf : '/' ∉ first := ih (by simp [hs])
        simp [Ne.symm hc, hf]
      · exact ih (by simp [hs, h])

/-- No piece of a path is the name of the root. -/
theorem ne_slash_of_mem_pieces {path piece : String} (h : piece ∈ pieces path) : piece ≠ "/" := by
  obtain ⟨s, hs, rfl⟩ := List.mem_map.1 h
  intro he
  have hm : '/' ∈ (String.ofList s).toList := by rw [he]; decide
  rw [String.toList_ofList] at hm
  exact slash_not_mem_slashPieces hs hm

/-- A path loses the slashes at its end. -/
theorem toList_trimSlashes (path : String) :
    (trimSlashes path).toList = path.toList.rdropWhile (· = '/') :=
  String.toList_ofList

/-- A path is itself without its final slashes, followed by slashes. -/
theorem exists_toList_eq_trimSlashes (path : String) :
    ∃ k, path.toList = (trimSlashes path).toList ++ List.replicate k '/' := by
  have hall : path.toList.rtakeWhile (· = '/') =
      List.replicate (path.toList.rtakeWhile (· = '/')).length '/' :=
    List.eq_replicate_of_mem fun c hc => by simpa using List.mem_rtakeWhile_imp hc
  exact ⟨_, by rw [toList_trimSlashes, ← hall, List.rdropWhile_append_rtakeWhile]⟩

/-- The slashes at the end of a path are empty pieces. -/
theorem exists_pieces_eq_trimSlashes (path : String) :
    ∃ k, pieces path = pieces (trimSlashes path) ++ List.replicate k "" := by
  obtain ⟨k, hk⟩ := exists_toList_eq_trimSlashes path
  refine ⟨k, ?_⟩
  rw [pieces, hk, slashPieces_append_slashes]
  simp [pieces]

/-- A path begins at the root exactly if its first piece without the final slashes is empty. -/
theorem pieces_trimSlashes_cases {path : String} (hne : path ≠ "") :
    (path.toList.head? = some '/' ∧ ∃ more, pieces (trimSlashes path) = "" :: more) ∨
      (path.toList.head? ≠ some '/' ∧
        ∃ first more, first ≠ "" ∧ pieces (trimSlashes path) = first :: more) := by
  obtain ⟨k, hk⟩ := exists_toList_eq_trimSlashes path
  rw [pieces]
  cases ht : (trimSlashes path).toList with
  | nil =>
    -- Nothing is left of the path, so it is made of slashes.
    refine .inl ⟨?_, [], rfl⟩
    cases k with
    | zero => exact absurd (by simpa [ht] using hk) hne
    | succ k => simp [hk, ht, List.replicate_succ]
  | cons c s =>
    have hhead : path.toList.head? = some c := by simp [hk, ht]
    by_cases hc : c = '/'
    · exact .inl ⟨by rw [hhead, hc], (slashPieces s).map String.ofList, by simp [slashPieces, hc]⟩
    · obtain ⟨piece, more, -, hcs⟩ := slashPieces_cons_of_ne hc s
      refine .inr ⟨by simpa [hhead] using hc, String.ofList (c :: piece), more.map String.ofList,
        ?_, by rw [hcs]; rfl⟩
      intro he
      have := congrArg String.toList he
      simp at this

/-! ## Following pieces -/

/-- Where a piece of a path leads from a place, if it leads to something. -/
def destination (names : List String) (piece : String) : List String :=
  if piece = "" ∨ piece = "." then names
  else if piece = ".." then outerNames names
  else names ++ [piece]

namespace FileTree

variable {t t' : FileTree} {names a : List String}

/-- A step that succeeds leads where its piece says. -/
theorem eq_destination_of_step {piece : String} (h : t.step names piece = some a) :
    a = destination names piece := by
  rw [step] at h
  rw [destination]
  split at h
  · cases h
  · split at h
    · next hstay => rw [if_pos hstay, Option.some.inj h]
    · next hstay =>
      rw [if_neg hstay]
      split at h
      · next hup => rw [if_pos hup, Option.some.inj h]
      · next hup =>
        rw [if_neg hup]
        split at h
        · rw [Option.some.inj h]
        · cases h

/-- An empty piece stays at a folder. -/
theorem step_empty (h : t.isFolder names) : t.step names "" = some names := by
  simp [step, h]

/-- Empty pieces lead nowhere else. -/
theorem eq_of_foldlM_step_replicate {k : Nat}
    (h : (List.replicate k "").foldlM t.step names = some a) : a = names := by
  induction k with
  | zero => simpa using h.symm
  | succ k ih =>
    simp only [List.replicate_succ, List.foldlM_cons, Option.bind_eq_bind,
      Option.bind_eq_some_iff] at h
    obtain ⟨x, hx, h⟩ := h
    obtain rfl : x = names := eq_destination_of_step hx
    exact ih h

/-- A path to a folder is resolved. -/
theorem exists_resolve?_of_hasFolder {path : String} (h : t.hasFolder path) :
    ∃ names, t.resolve? path = some names ∧ t.isFolder names := by
  simpa only [hasFolder, Option.any_eq_true] using h

end FileTree

namespace Place

variable {t t' : FileTree} {p q : Place}

/-- A walk takes the step of its piece. -/
theorem step_of_walk {piece : String} (h : p.walk t piece = some q) :
    t.step p.names piece = some q.names := by
  rw [walk] at h
  split at h
  · cases h
  · obtain ⟨names, hn, rfl⟩ := Option.map_eq_some_iff.1 h
    exact hn

/-- A walk over several pieces takes their steps. -/
theorem foldlM_step_of_walk {ps : List String} (h : ps.foldlM (walk t) p = some q) :
    ps.foldlM t.step p.names = some q.names := by
  induction ps generalizing p with
  | nil => simp_all
  | cons piece ps ih =>
    simp only [List.foldlM_cons, Option.bind_eq_bind, Option.bind_eq_some_iff] at h ⊢
    obtain ⟨x, hx, h⟩ := h
    exact ⟨x.names, step_of_walk hx, ih h⟩

/-- Walks of the same pieces end alike in trees where the pieces lead somewhere. -/
theorem foldlM_walk_congr {ps a b : List String} (h : ps.foldlM t.step p.names = some a)
    (h' : ps.foldlM t'.step p.names = some b) :
    ps.foldlM (walk t) p = ps.foldlM (walk t') p := by
  induction ps generalizing p with
  | nil => rfl
  | cons piece ps ih =>
    simp only [List.foldlM_cons, Option.bind_eq_bind, Option.bind_eq_some_iff] at h h' ⊢
    obtain ⟨x, hx, h⟩ := h
    obtain ⟨y, hy, h'⟩ := h'
    obtain rfl := FileTree.eq_destination_of_step hx
    obtain rfl := FileTree.eq_destination_of_step hy
    simp only [walk, hx, hy]
    split
    · rfl
    · exact ih h h'

end Place

/-! ## Names inside a folder -/

/-- Whether names lead down from a place, not above the working directory or to the root. -/
def isInner (names : List String) : Bool :=
  names.head?.any fun n => n ≠ ".." ∧ n ≠ "/"

variable {base inner : List String}

/-- Names inside a folder begin with a name that neither leads out of it nor is the root. -/
theorem exists_cons_of_isInner (h : isInner inner) :
    ∃ n more, inner = n :: more ∧ n ≠ ".." ∧ n ≠ "/" := by
  cases inner with
  | nil => cases h
  | cons n more =>
    have hn : n ≠ ".." ∧ n ≠ "/" := by simpa [isInner] using h
    exact ⟨n, more, rfl, hn⟩

/-- What stands inside a folder is not one of the places that every tree has. -/
theorem isFixed_append (base : List String) (h : isInner inner) :
    isFixed (base ++ inner) = false := by
  obtain ⟨n, more, rfl, hup, hroot⟩ := exists_cons_of_isInner h
  have hne : base ++ n :: more ≠ rootNames := by
    intro he
    rcases List.append_eq_singleton_iff.1 he with ⟨-, he⟩ | ⟨-, he⟩
    · exact hroot (List.cons.inj he).1
    · cases he
  simp [isFixed, hne, hup]

/-- The entry at names inside a folder is the one stored under them. -/
theorem FileTree.entry?_append (t : FileTree) (base : List String) (h : isInner inner) :
    t.entry? (base ++ inner) = t.entries.get? (base ++ inner) := by
  rw [FileTree.entry?, isFixed_append base h]
  rfl

/-- The folder around something inside a folder is found by leaving out the last name. -/
theorem outerNames_append (base : List String) (h : isInner inner) :
    outerNames (base ++ inner) = base ++ inner.dropLast := by
  have hf := isFixed_append base h
  obtain ⟨n, more, rfl, -, -⟩ := exists_cons_of_isInner h
  have hne : base ++ n :: more ≠ rootNames := by
    intro he
    rw [he] at hf
    cases hf
  rw [outerNames, if_neg hne, hf, if_neg Bool.false_ne_true]
  exact List.dropLast_append_of_ne_nil (List.cons_ne_nil n more)

/-- Without their last name, names inside a folder lead to the folder or inside it. -/
theorem isInner_dropLast (h : isInner inner) : inner.dropLast = [] ∨ isInner inner.dropLast := by
  obtain ⟨n, more, rfl, hn⟩ := exists_cons_of_isInner h
  cases more with
  | nil => exact .inl rfl
  | cons m more => exact .inr (by simp [isInner, hn])

/-- Names inside a folder stay inside when a name is added. -/
theorem isInner_concat {piece : String} (h : inner = [] ∨ isInner inner)
    (hpiece : piece ≠ ".." ∧ piece ≠ "/") : isInner (inner ++ [piece]) := by
  rcases h with rfl | h
  · simp [isInner, hpiece]
  · obtain ⟨n, more, rfl, hn⟩ := exists_cons_of_isInner h
    simp [isInner, hn]

/-- The names below a base are what follows it. -/
theorem namesBelow?_eq_some_iff {names : List String} :
    namesBelow? base names = some inner ↔ names = base ++ inner := by
  fun_induction namesBelow? base names with
  | case1 => simp
  | case2 b base names ih => simp [ih]
  | case3 b base n names hne => simp [Ne.symm hne]
  | case4 => simp

/-- A list of names is a single one if it has no other. -/
theorem onlyName?_eq_some_iff {names : List String} {n : String} :
    onlyName? names = some n ↔ names = [n] := by
  constructor
  · intro h
    match names, h with
    | [m], h => rw [Option.some.inj h]
  · rintro rfl
    rfl

/-- The contents of a place are the names that lead down from it to something. -/
theorem mem_contents {t : FileTree} {p : Place} :
    inner ∈ contents t p ↔ isInner inner ∧ (t.entry? (p.names ++ inner)).isSome := by
  rw [contents, List.mem_filterMap]
  constructor
  · rintro ⟨e, he, hsome⟩
    obtain ⟨hbelow, hinner⟩ := Option.filter_eq_some_iff.1 hsome
    refine ⟨hinner, ?_⟩
    rw [t.entry?_append _ hinner, ← namesBelow?_eq_some_iff.1 hbelow,
      SortedMap.get?_of_mem_entries he]
    rfl
  · rintro ⟨hinner, hsome⟩
    rw [t.entry?_append _ hinner] at hsome
    obtain ⟨e, he⟩ := Option.isSome_iff_exists.1 hsome
    exact ⟨(p.names ++ inner, e), SortedMap.mem_entries.2 he,
      Option.filter_eq_some_iff.2 ⟨namesBelow?_eq_some_iff.2 rfl, hinner⟩⟩

/-- What a folder holds is inside it. -/
theorem isInner_of_mem_contents {t : FileTree} {p : Place} (h : inner ∈ contents t p) :
    isInner inner :=
  (mem_contents.1 h).1

/-- The names inside a folder are its contents that are single names. -/
theorem mem_namesInside {t : FileTree} {p : Place} {n : String} :
    n ∈ namesInside t p ↔ [n] ∈ contents t p := by
  rw [namesInside, List.mem_filterMap]
  constructor
  · rintro ⟨names, hnames, hn⟩
    rwa [← onlyName?_eq_some_iff.1 hn]
  · exact fun h => ⟨[n], h, rfl⟩

/-- Nothing stands twice below a place. -/
theorem nodup_contents (t : FileTree) (p : Place) : (contents t p).Nodup := by
  have hkeys : contents t p = (t.entries.entries.map (·.1)).filterMap fun names =>
      (namesBelow? p.names names).filter isInner := by
    rw [List.filterMap_map]
    rfl
  rw [hkeys]
  refine List.Pairwise.filterMap _ (fun a b hne inner ha inner' hb he => hne ?_)
    (SortedMap.nodup_keys t.entries)
  rw [namesBelow?_eq_some_iff.1 (Option.filter_eq_some_iff.1 ha).1, he,
    namesBelow?_eq_some_iff.1 (Option.filter_eq_some_iff.1 hb).1]

/-- A folder holds no name twice. -/
theorem nodup_namesInside (t : FileTree) (p : Place) : (namesInside t p).Nodup := by
  refine List.Pairwise.filterMap _ (fun a b hne x hx y hy he => hne ?_) (nodup_contents t p)
  rw [onlyName?_eq_some_iff.1 hx, he, onlyName?_eq_some_iff.1 hy]

/-! ## The place of a folder -/

/-- Where the search of a folder begins and which pieces it walks. Neither depends on a tree. -/
def searchWalk (dir : String) : Place × List String :=
  match pieces (trimSlashes dir) with
  | "" :: more => (.root, more)
  | walked => (.start, walked)

/-- A path that begins with a slash is walked from the root. -/
theorem searchWalk_of_root {dir : String} {more : List String}
    (h : pieces (trimSlashes dir) = "" :: more) : searchWalk dir = (.root, more) := by
  simp only [searchWalk, h]

/-- A path that does not begin with a slash is walked from the working folder. -/
theorem searchWalk_of_ne {dir : String} (h : ∀ more, pieces (trimSlashes dir) ≠ "" :: more) :
    searchWalk dir = (.start, pieces (trimSlashes dir)) := by
  rw [searchWalk]
  split
  · next more hmore => exact absurd hmore (h more)
  · rfl

/-- The place of a folder, given its path. -/
def folderPlace? (t : FileTree) (dir : String) : Option Place :=
  (searchWalk dir).2.foldlM (Place.walk t) (searchWalk dir).1

/-- The pieces that a search walks lead where the path leads. -/
theorem foldlM_step_of_resolve? {t : FileTree} {dir : String} {a : List String}
    (h : t.resolve? dir = some a) :
    (searchWalk dir).2.foldlM t.step (searchWalk dir).1.names = some a := by
  have hne : dir ≠ "" := by
    rintro rfl
    cases h
  -- The final slashes are empty pieces, so the path leads where the pieces before them lead.
  have hr : (pieces (trimSlashes dir)).foldlM t.step
      (if dir.toList.head? = some '/' then rootNames else []) = some a := by
    obtain ⟨k, hk⟩ := exists_pieces_eq_trimSlashes dir
    rw [FileTree.resolve?, if_neg hne, hk, List.foldlM_append] at h
    obtain ⟨x, hx, ha⟩ := Option.bind_eq_some_iff.1 h
    rw [FileTree.eq_of_foldlM_step_replicate ha]
    exact hx
  rcases pieces_trimSlashes_cases hne with ⟨hroot, more, hm⟩ | ⟨hroot, first, more, hfirst, hm⟩
  · rw [hm, if_pos hroot, List.foldlM_cons, FileTree.step_empty rfl, Option.bind_eq_bind,
      Option.bind_some] at hr
    simp only [searchWalk_of_root hm, Place.root, hr]
  · rw [if_neg hroot] at hr
    have hwalk := searchWalk_of_ne fun _ h => hfirst (List.cons.inj (hm.symm.trans h)).1
    simp only [hwalk, Place.start, hr]

/-- The empty path leads to no folder. -/
theorem ne_empty_of_hasFolder {t : FileTree} {dir : String} (h : t.hasFolder dir) : dir ≠ "" := by
  rintro rfl
  cases h

/-- Searches of a folder that two trees have begin in the same place. -/
theorem folderPlace?_congr {t t' : FileTree} {dir : String} (h : t.hasFolder dir)
    (h' : t'.hasFolder dir) : folderPlace? t dir = folderPlace? t' dir := by
  obtain ⟨a, ha, -⟩ := FileTree.exists_resolve?_of_hasFolder h
  obtain ⟨b, hb, -⟩ := FileTree.exists_resolve?_of_hasFolder h'
  rw [folderPlace?, folderPlace?]
  exact Place.foldlM_walk_congr (foldlM_step_of_resolve? ha) (foldlM_step_of_resolve? hb)

/-- A search of a folder begins where its path leads. -/
theorem resolve?_of_folderPlace? {t : FileTree} {dir : String} {p : Place} (h : t.hasFolder dir)
    (hp : folderPlace? t dir = some p) : t.resolve? dir = some p.names := by
  obtain ⟨a, ha, -⟩ := FileTree.exists_resolve?_of_hasFolder h
  rw [folderPlace?] at hp
  have hs := Place.foldlM_step_of_walk hp
  rw [foldlM_step_of_resolve? ha] at hs
  rw [ha, Option.some.inj hs]

/-- The place of a path to a folder is a folder. -/
theorem isFolder_of_folderPlace? {t : FileTree} {dir : String} {p : Place} (h : t.hasFolder dir)
    (hp : folderPlace? t dir = some p) : t.isFolder p.names := by
  have hr := resolve?_of_folderPlace? h hp
  rw [FileTree.hasFolder, hr, Option.any_some] at h
  exact h

end SchemaDrift.Files
