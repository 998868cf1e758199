import SchemaDrift.Proofs.Files.Places

/-!
# The parts of walked paths

A search keeps the path that it walks, and what it finds is sorted and named by the parts of that
path. A walked path has the parts of the path that was given, without a dot at its start
(`pathParts_of_folderPlace?`), and what stands below a place adds its names to them
(`pathParts_below`). The walk fails in an existing folder in one case only: behind the dots at the
start of a path, an empty piece leads nowhere (`folderPlace?_isSome_iff`).
-/

namespace SchemaDrift.Files

/-! ## Names -/

/-- What may be the name of a file or a folder: it is not empty, has no slash, and is neither `.`
nor `..`. -/
structure IsPlain (name : String) : Prop where
  ne_empty : name ≠ ""
  ne_here : name ≠ "."
  ne_up : name ≠ ".."
  no_slash : '/' ∉ name.toList

instance (name : String) : Decidable (IsPlain name) :=
  decidable_of_iff (name ≠ "" ∧ name ≠ "." ∧ name ≠ ".." ∧ '/' ∉ name.toList)
    ⟨fun h => ⟨h.1, h.2.1, h.2.2.1, h.2.2.2⟩, fun h => ⟨h.1, h.2, h.3, h.4⟩⟩

/-- A plain name is not the root. -/
theorem IsPlain.ne_root {name : String} (h : IsPlain name) : name ≠ "/" := by
  rintro rfl
  exact h.no_slash (by decide)

/-- A plain name is a part of a path by itself. -/
theorem IsPlain.innerPart? {name : String} (h : IsPlain name) :
    innerPart? name = some (.name name) := by
  simp [Files.innerPart?, h.ne_empty, h.ne_here, h.ne_up]

/-- The pieces of a path hold no slash. -/
theorem no_slash_of_mem_pieces {path piece : String} (h : piece ∈ pieces path) :
    '/' ∉ piece.toList := by
  obtain ⟨s, hs, rfl⟩ := List.mem_map.1 h
  rw [String.toList_ofList]
  exact slash_not_mem_slashPieces hs

/-! ## Joined paths -/

/-- A text without a slash is one piece. -/
theorem slashPieces_of_no_slash {s : List Char} (h : '/' ∉ s) : slashPieces s = [s] := by
  induction s with
  | nil => rfl
  | cons c s ih =>
    rw [List.mem_cons, not_or] at h
    rw [slashPieces, if_neg (Ne.symm h.1), ih h.2]

/-- A path without a slash is one piece. -/
theorem pieces_of_no_slash {piece : String} (h : '/' ∉ piece.toList) : pieces piece = [piece] := by
  rw [pieces, slashPieces_of_no_slash h]
  simp

/-- What the parts of a path are, told by its pieces. -/
theorem pathParts_of_pieces {path first : String} {more : List String} (hne : path ≠ "")
    (h : pieces path = first :: more) :
    pathParts path = (if first = "" then [.root] else if first = "." then [.here]
      else (innerPart? first).toList) ++ more.filterMap innerPart? := by
  simp [pathParts, h, hne]

/-- A piece behind a path adds its part to the path's. -/
theorem pathParts_join {dir piece : String} (hne : dir ≠ "") (hpiece : '/' ∉ piece.toList) :
    pathParts (join dir piece) = pathParts dir ++ (innerPart? piece).toList := by
  obtain ⟨first, more, hdir⟩ := exists_pieces_eq_cons dir
  have hjoin : join dir piece ≠ "" := by
    rw [join]
    split <;> simp [hne]
  have hlast : ∀ ps, pieces (join dir piece) = first :: (ps ++ [piece]) →
      more.filterMap innerPart? = ps.filterMap innerPart? →
      pathParts (join dir piece) = pathParts dir ++ (innerPart? piece).toList := by
    intro ps hps hmore
    rw [pathParts_of_pieces hjoin hps, pathParts_of_pieces hne hdir, hmore, List.filterMap_append,
      List.append_assoc, List.filterMap_cons, List.filterMap_nil]
    cases innerPart? piece <;> rfl
  by_cases hslash : dir.toList.getLast? = some '/'
  · -- The path ends in a slash, so its last piece is empty and the new piece takes its place.
    obtain ⟨s, hs⟩ := List.getLast?_eq_some_iff.1 hslash
    have hpieces : first :: more = (slashPieces s).map String.ofList ++ [""] := by
      rw [← hdir, pieces, hs, slashPieces_append_slash]
      simp [slashPieces]
    obtain ⟨piece₀, ps, hps⟩ := List.exists_cons_of_ne_nil (slashPieces_ne_nil s)
    rw [hps, List.map_cons, List.cons_append, List.cons.injEq] at hpieces
    refine hlast (ps.map String.ofList) ?_ ?_
    · have htext : (join dir piece).toList = s ++ '/' :: piece.toList := by
        simp [join, hs]
      rw [pieces, htext, slashPieces_append_slash, slashPieces_of_no_slash hpiece, hps,
        hpieces.1]
      simp
    · rw [hpieces.2, List.filterMap_append]
      simp [innerPart?]
  · refine hlast more ?_ rfl
    have htext : (join dir piece).toList = dir.toList ++ '/' :: piece.toList := by
      simp [join, hslash, hne]
    rw [pieces, htext, slashPieces_append_slash, slashPieces_of_no_slash hpiece, List.map_append]
    change pieces dir ++ _ = _
    rw [hdir]
    simp

/-- A joined path is not the working directory. -/
theorem join_ne_here {dir : String} (hne : dir ≠ "") (piece : String) : join dir piece ≠ "." := by
  have hslash : '/' ∈ (join dir piece).toList := by
    rw [join]
    split
    · next h =>
      have hlast := h.resolve_left hne
      simp [List.mem_of_getLast? hlast]
    · simp
  intro he
  rw [he] at hslash
  exact absurd hslash (by decide)

/-- A path that is joined to one that is not empty is not empty. -/
theorem join_ne_empty {dir : String} (hne : dir ≠ "") (piece : String) : join dir piece ≠ "" := by
  rw [join]
  split <;> simp [hne]

/-! ## Walking -/

namespace Place

variable {t : FileTree} {p q : Place}

/-- The parts of the path to a place. The working directory has none. -/
def parts (p : Place) : List PathPart :=
  if p.path = "." then [] else pathParts p.path

/-- The parts of a path inside a folder are those of the folder and the piece behind them. -/
theorem parts_inside {piece : String} (hp : p.path ≠ "") (hpiece : '/' ∉ piece.toList)
    (hne : p.path = "." → piece ≠ "") :
    p.inside piece ≠ "" ∧
      (if p.inside piece = "." then [] else pathParts (p.inside piece)) =
        p.parts ++ (innerPart? piece).toList := by
  rw [inside, parts]
  split
  · next hhere =>
    have hne := hne hhere
    refine ⟨hne, ?_⟩
    split
    · next hdot => simp [hdot, innerPart?]
    · next hdot =>
      rw [pathParts_of_pieces hne (pieces_of_no_slash hpiece)]
      simp [hne, hdot]
  · exact ⟨join_ne_empty hp piece, by
      rw [if_neg (join_ne_here hp piece), pathParts_join hp hpiece]⟩

/-- A piece that is walked adds its part to the path. -/
theorem parts_of_walk {piece : String} (h : p.walk t piece = some q) (hp : p.path ≠ "")
    (hpiece : '/' ∉ piece.toList) :
    q.path ≠ "" ∧ q.parts = p.parts ++ (innerPart? piece).toList := by
  rw [walk] at h
  split at h
  · cases h
  · next hnot =>
    obtain ⟨names, -, rfl⟩ := Option.map_eq_some_iff.1 h
    exact parts_inside hp hpiece fun hhere hempty => hnot ⟨hhere, hempty⟩

/-- Pieces that are walked add their parts to the path. -/
theorem parts_of_foldlM_walk {ps : List String} (h : ps.foldlM (walk t) p = some q)
    (hp : p.path ≠ "") (hps : ∀ piece ∈ ps, '/' ∉ piece.toList) :
    q.path ≠ "" ∧ q.parts = p.parts ++ ps.filterMap innerPart? := by
  induction ps generalizing p with
  | nil =>
    obtain rfl : p = q := by simpa using h
    exact ⟨hp, by simp⟩
  | cons piece ps ih =>
    rw [List.foldlM_cons] at h
    obtain ⟨x, hx, h⟩ := Option.bind_eq_some_iff.1 h
    obtain ⟨hxp, hxparts⟩ := parts_of_walk hx hp (hps piece List.mem_cons_self)
    obtain ⟨hq, hqparts⟩ := ih h hxp fun x hx => hps x (List.mem_cons_of_mem _ hx)
    refine ⟨hq, ?_⟩
    rw [hqparts, hxparts, List.append_assoc, List.filterMap_cons]
    cases innerPart? piece <;> rfl

/-- A place below a folder is reached name by name. -/
theorem below_cons (p : Place) (n : String) (inner : List String) :
    p.below (n :: inner) = below ⟨p.inside n, p.names ++ [n]⟩ inner := by
  simp [below, inside]

/-- The parts of a path below a folder are those of the folder and the names behind them. -/
theorem parts_below (hp : p.path ≠ "") {inner : List String} (hplain : ∀ n ∈ inner, IsPlain n) :
    (p.below inner).parts = p.parts ++ inner.map .name := by
  induction inner generalizing p with
  | nil => simp [below]
  | cons n inner ih =>
    have hn := hplain n List.mem_cons_self
    obtain ⟨hpath, hparts⟩ := parts_inside hp hn.no_slash fun _ => hn.ne_empty
    rw [below_cons, ih hpath fun m hm => hplain m (List.mem_cons_of_mem _ hm), parts, hparts,
      hn.innerPart?]
    simp

/-- What stands below a place adds its names to the parts of the path. -/
theorem pathParts_below (hp : p.path ≠ "") {inner : List String} (hne : inner ≠ [])
    (hplain : ∀ n ∈ inner, IsPlain n) :
    pathParts (p.below inner).path = p.parts ++ inner.map .name := by
  have hparts := parts_below hp hplain
  rw [← hparts, parts, if_neg]
  intro hhere
  rw [parts, if_pos hhere] at hparts
  simp [hne] at hparts

end Place

/-! ## The place of a folder -/

/-- Whether a path begins with dots between slashes and then doubles a slash, as `.//a` does. -/
def doublesFirstSlash (path : String) : Bool :=
  match pieces (trimSlashes path) with
  | "." :: more => (more.dropWhile (· = ".")).head? = some ""
  | _ => false

namespace Place

variable {t : FileTree} {p q : Place}

/-- Behind a place other than the working directory every path that leads somewhere is walked. -/
theorem isSome_foldlM_walk {ps names : List String} (hp : p.path ≠ "") (hhere : p.path ≠ ".")
    (hstep : ps.foldlM t.step p.names = some names) : (ps.foldlM (walk t) p).isSome := by
  induction ps generalizing p with
  | nil => rfl
  | cons piece ps ih =>
    rw [List.foldlM_cons] at hstep ⊢
    obtain ⟨x, hx, hstep⟩ := Option.bind_eq_some_iff.1 hstep
    have hwalk : p.walk t piece = some ⟨join p.path piece, x⟩ := by
      simp [walk, hhere, hx, inside]
    rw [hwalk]
    exact ih (join_ne_empty hp piece) (join_ne_here hp piece) hstep

/-- From the working directory a path is walked unless its first piece that is no dot is empty. -/
theorem isSome_foldlM_walk_start {ps names : List String}
    (hstep : ps.foldlM t.step [] = some names) :
    (ps.foldlM (walk t) start).isSome ↔ (ps.dropWhile (· = ".")).head? ≠ some "" := by
  induction ps with
  | nil => simp
  | cons piece ps ih =>
    rw [List.foldlM_cons] at hstep ⊢
    obtain ⟨x, hx, hstep⟩ := Option.bind_eq_some_iff.1 hstep
    by_cases hdot : piece = "."
    · subst hdot
      obtain rfl : x = [] := FileTree.eq_destination_of_step hx
      have hwalk : start.walk t "." = some start := by
        simp [walk, start, hx, inside]
      rw [hwalk]
      simpa using ih hstep
    · rw [List.dropWhile_cons_of_neg (by simpa using hdot)]
      by_cases hempty : piece = ""
      · simp [walk, start, hempty]
      · have hwalk : start.walk t piece = some ⟨piece, x⟩ := by
          simp [walk, start, hempty, hx, inside]
        rw [hwalk]
        simpa [hempty] using isSome_foldlM_walk (p := ⟨piece, x⟩) hempty hdot hstep

end Place

variable {t : FileTree} {dir : String}

/-- A search begins at the root if the first piece is empty, and else at the working directory. -/
theorem searchWalk_cases (hne : dir ≠ "") :
    (∃ more, pieces (trimSlashes dir) = "" :: more ∧ searchWalk dir = (.root, more)) ∨
      ∃ first more, first ≠ "" ∧ pieces (trimSlashes dir) = first :: more ∧
        searchWalk dir = (.start, first :: more) := by
  rcases pieces_trimSlashes_cases hne with ⟨-, more, hm⟩ | ⟨-, first, more, hfirst, hm⟩
  · exact .inl ⟨more, hm, searchWalk_of_root hm⟩
  · refine .inr ⟨first, more, hfirst, hm, ?_⟩
    rw [searchWalk_of_ne fun _ h => hfirst (List.cons.inj (hm.symm.trans h)).1, hm]

/-- The pieces of a walk from a folder hold no slash. -/
theorem no_slash_of_mem_searchWalk {piece : String} (hne : dir ≠ "")
    (h : piece ∈ (searchWalk dir).2) : '/' ∉ piece.toList := by
  rcases searchWalk_cases hne with ⟨more, hm, hw⟩ | ⟨first, more, -, hm, hw⟩
  · rw [hw] at h
    exact no_slash_of_mem_pieces (hm ▸ List.mem_cons_of_mem "" h)
  · rw [hw] at h
    exact no_slash_of_mem_pieces (hm ▸ h)

/-- The slashes at the end of a path add no parts. -/
theorem pathParts_of_pieces_trimSlashes {first : String} {more : List String} (hne : dir ≠ "")
    (h : pieces (trimSlashes dir) = first :: more) :
    pathParts dir = (if first = "" then [.root] else if first = "." then [.here]
      else (innerPart? first).toList) ++ more.filterMap innerPart? := by
  obtain ⟨k, hk⟩ := exists_pieces_eq_trimSlashes dir
  rw [h, List.cons_append] at hk
  rw [pathParts_of_pieces hne hk, List.filterMap_append]
  simp [innerPart?]

/-- The path that a search walked to a folder has the parts of the folder's path, without a dot at
its start. -/
theorem pathParts_of_folderPlace? {p : Place} (hne : dir ≠ "") (h : folderPlace? t dir = some p) :
    p.path ≠ "" ∧ (pathParts dir = p.parts ∨ pathParts dir = .here :: p.parts) := by
  have hslash : ∀ piece ∈ (searchWalk dir).2, '/' ∉ piece.toList :=
    fun _ => no_slash_of_mem_searchWalk hne
  rw [folderPlace?] at h
  rcases searchWalk_cases hne with ⟨more, hm, hw⟩ | ⟨first, more, hfirst, hm, hw⟩
  · rw [hw] at h hslash
    have hroot : Place.root.parts = [.root] := by decide
    obtain ⟨hp, hparts⟩ := Place.parts_of_foldlM_walk (p := .root) h (by decide) hslash
    exact ⟨hp, .inl (by rw [hparts, pathParts_of_pieces_trimSlashes hne hm, hroot, if_pos rfl])⟩
  · rw [hw] at h hslash
    have hstart : Place.start.parts = [] := rfl
    obtain ⟨hp, hparts⟩ := Place.parts_of_foldlM_walk (p := .start) h (by decide) hslash
    refine ⟨hp, ?_⟩
    rw [hparts, hstart, pathParts_of_pieces_trimSlashes hne hm, if_neg hfirst]
    by_cases hdot : first = "."
    · subst hdot
      exact .inr rfl
    · left
      rw [if_neg hdot, List.filterMap_cons]
      cases innerPart? first <;> rfl

/-- A folder is searched unless its path doubles a slash behind the dots at its start. -/
theorem folderPlace?_isSome_iff (h : t.hasFolder dir) :
    (folderPlace? t dir).isSome ↔ doublesFirstSlash dir = false := by
  have hne := ne_empty_of_hasFolder h
  obtain ⟨a, ha, -⟩ := FileTree.exists_resolve?_of_hasFolder h
  have hstep := foldlM_step_of_resolve? ha
  rw [folderPlace?]
  rcases searchWalk_cases hne with ⟨more, hm, hw⟩ | ⟨first, more, hfirst, hm, hw⟩
  · rw [hw] at hstep ⊢
    have hwalk := Place.isSome_foldlM_walk (p := .root) (by decide) (by decide) hstep
    simp [hwalk, doublesFirstSlash, hm]
  · rw [hw] at hstep ⊢
    rw [Place.isSome_foldlM_walk_start hstep, doublesFirstSlash, hm]
    by_cases hdot : first = "."
    · subst hdot
      simp
    · rw [List.dropWhile_cons_of_neg (by simpa using hdot)]
      split
      · next h => exact absurd (List.cons.inj h).1 hdot
      · simp [hfirst]

end SchemaDrift.Files
