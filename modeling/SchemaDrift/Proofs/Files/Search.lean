import SchemaDrift.Files.Load
import SchemaDrift.Proofs.Files.Places
import SchemaDrift.Proofs.Wildcard.Accept

/-!
# What a search finds

The pattern of a search is the escaped path of a folder with what to look for there. Its components
are the escaped pieces of the path and those of the rest (`searchStart_searchPattern`). An escaped
piece leads where the piece leads, whether it is followed or matched (`advance_exactly`), so the
search comes to the place of the folder and goes on there (`search_searchPattern`). From there
`*.sql` leads to the files whose names end in `.sql` (`search_migrations`), and `**` with an escaped
leaf leads to the files at that leaf (`search_modules`). The pattern is always valid, whatever the
path of the folder and the leaf hold.
-/

namespace SchemaDrift.Files

open Wildcard

variable {t : FileTree} {p : Place} {dir tail leaf : String}

/-! ## The pieces of a pattern -/

/-- A text without slashes goes on in the first piece behind it. -/
theorem slashPieces_append_of_no_slash {w s piece : List Char} {more : List (List Char)}
    (hw : '/' ∉ w) (hs : slashPieces s = piece :: more) :
    slashPieces (w ++ s) = (w ++ piece) :: more := by
  induction w with
  | nil => exact hs
  | cons c w ih =>
    rw [List.mem_cons, not_or] at hw
    rw [List.cons_append, slashPieces, if_neg (Ne.symm hw.1), ih hw.2]
    rfl

/-- Escaping a character makes no slash. -/
theorem no_slash_escapeChar {c : Char} (hc : c ≠ '/') : '/' ∉ escapeChar c := by
  rw [escapeChar]
  split <;> simp [Ne.symm hc]

/-- The pieces of an escaped text are the escaped pieces of the text. -/
theorem pieces_escape (text : String) : pieces (escape text) = (pieces text).map escape := by
  have hchars : ∀ cs : List Char, slashPieces (cs.flatMap escapeChar) =
      (slashPieces cs).map (·.flatMap escapeChar) := by
    intro cs
    induction cs with
    | nil => rfl
    | cons c cs ih =>
      by_cases hc : c = '/'
      · subst hc
        rw [List.flatMap_cons, slashPieces, if_pos rfl, List.map_cons, ← ih]
        rfl
      · obtain ⟨piece, more, hcs, hccs⟩ := slashPieces_cons_of_ne hc cs
        rw [hcs] at ih
        rw [List.flatMap_cons, slashPieces_append_of_no_slash (no_slash_escapeChar hc) ih, hccs]
        rfl
  rw [pieces, escape, String.toList_ofList, hchars, pieces, List.map_map, List.map_map]
  refine List.map_congr_left fun piece _ => ?_
  simp [escape]

/-- The characters of a search pattern: those of the escaped folder, a slash and the tail. -/
theorem toList_searchPattern (dir tail : String) : (searchPattern dir tail).toList =
    (escape (trimSlashes dir)).toList ++ '/' :: tail.toList := by
  have htrim : (trimSlashes (escape dir)).toList = (escape (trimSlashes dir)).toList := by
    rw [toList_trimSlashes, escape, String.toList_ofList, rdropWhile_escape, escape,
      String.toList_ofList, toList_trimSlashes]
  rw [searchPattern, String.toList_append, String.toList_append, htrim, List.append_assoc]
  rfl

/-- A search pattern has the escaped pieces of its folder and the pieces of its tail. -/
theorem pieces_searchPattern (dir tail : String) : pieces (searchPattern dir tail) =
    (pieces (trimSlashes dir)).map escape ++ pieces tail := by
  rw [← pieces_escape, pieces, toList_searchPattern, slashPieces_append_slash, List.map_append]
  rfl

/-- Escaping keeps a text from being empty. -/
theorem escape_ne_empty {text : String} (h : text ≠ "") : escape text ≠ "" := by
  obtain ⟨c, cs, hcs⟩ := List.exists_cons_of_ne_nil fun hnil => h (String.toList_eq_nil_iff.1 hnil)
  intro he
  have hnil := congrArg String.toList he
  rw [escape, String.toList_ofList, hcs, List.flatMap_cons, escapeChar] at hnil
  split at hnil <;> cases hnil

/-- Only the pieces at the end decide whether the last one is dropped. -/
theorem closedPieces_append {ps qs : List String} (hqs : qs ≠ []) (hempty : qs ≠ [""]) :
    closedPieces (ps ++ qs) = ps ++ closedPieces qs := by
  induction ps with
  | nil => rfl
  | cons piece ps ih =>
    rw [List.cons_append, List.cons_append, ← ih, closedPieces]
    intro he
    rcases List.append_eq_singleton_iff.1 he with ⟨-, he⟩ | ⟨-, he⟩
    · exact hempty he
    · exact hqs he

/-- A search begins where the walk to its folder begins, and follows the escaped pieces of the
folder's path. -/
theorem searchStart_searchPattern (dir : String) (hempty : pieces tail ≠ [""]) :
    searchStart (searchPattern dir tail) =
      ((searchWalk dir).1, (searchWalk dir).2.map escape ++ closedPieces (pieces tail)) := by
  have htail : pieces tail ≠ [] := by
    simpa [pieces] using slashPieces_ne_nil tail.toList
  rw [← closedPieces_append htail hempty, searchStart, pieces_searchPattern]
  by_cases hroot : ∃ more, pieces (trimSlashes dir) = "" :: more
  · obtain ⟨more, hmore⟩ := hroot
    obtain ⟨next, rest, hrest⟩ := List.exists_cons_of_ne_nil
      (List.append_ne_nil_of_right_ne_nil (more.map escape) htail)
    rw [searchWalk_of_root hmore, hmore, List.map_cons, List.cons_append, hrest]
    rfl
  · rw [searchWalk_of_ne (not_exists.1 hroot)]
    dsimp only
    split
    · next next more he =>
      obtain ⟨first, rest, hfirst⟩ := exists_pieces_eq_cons (trimSlashes dir)
      rw [hfirst, List.map_cons, List.cons_append] at he
      have hne : first ≠ "" := fun h => hroot ⟨rest, h ▸ hfirst⟩
      exact absurd (List.cons.inj he).1 (escape_ne_empty hne)
    · rfl

/-- Escaped pieces are valid patterns. -/
theorem mapM_ofText_append (ps : List String) {qs : List String} {cs : List Pattern}
    (h : qs.mapM Pattern.ofText = .ok cs) :
    (ps.map escape ++ qs).mapM Pattern.ofText = .ok (ps.map Pattern.exactly ++ cs) := by
  induction ps with
  | nil => exact h
  | cons piece ps ih =>
    rw [List.map_cons, List.cons_append, List.mapM_cons, ofText_escape, ih]
    rfl

/-! ## Following escaped pieces -/

/-- In a list without repetitions, an element stands once or not at all. -/
theorem filter_eq_of_nodup {α : Type} [DecidableEq α] {l : List α} (h : l.Nodup) (a : α) :
    l.filter (fun x => x = a) = if a ∈ l then [a] else [] := by
  induction l with
  | nil => rfl
  | cons x l ih =>
    rw [List.nodup_cons] at h
    by_cases hx : x = a
    · subst hx
      simp [ih h.2, h.1]
    · simp [ih h.2, hx, Ne.symm hx]

/-- A piece is matched with the names inside a folder as it is followed, unless it is one of those
that lead elsewhere. -/
theorem acceptedInside_exactly {piece : String} (hempty : piece ≠ "") (hhere : piece ≠ ".")
    (hup : piece ≠ "..") (hroot : piece ≠ "/") (t : FileTree) (p : Place) :
    acceptedInside t p (.exactly piece) = (p.walk t piece).toList := by
  have haccepts : (Pattern.exactly piece).accepts = fun n => decide (n = piece) := by
    funext n
    rw [Bool.eq_iff_iff, accepts_exactly_iff, decide_eq_true_iff]
  have hinner : isInner [piece] := by simp [isInner, hup, hroot]
  have hmem : piece ∈ namesInside t p ↔ (t.entry? (p.names ++ [piece])).isSome := by
    rw [mem_namesInside, mem_contents, and_iff_right hinner]
  rw [acceptedInside, haccepts, filter_eq_of_nodup (nodup_namesInside t p), Place.walk,
    if_neg (not_and_of_not_right _ hempty), FileTree.step]
  cases hfolder : t.isFolder p.names with
  | false => rfl
  | true =>
    rw [if_pos rfl, Bool.not_true, if_neg Bool.false_ne_true,
      if_neg (not_or.2 ⟨hempty, hhere⟩), if_neg hup]
    by_cases hpiece : piece ∈ namesInside t p
    · rw [if_pos hpiece, if_pos (hmem.1 hpiece)]
      rfl
    · rw [if_neg hpiece, if_neg (hmem.not.1 hpiece)]
      rfl

/-- An escaped piece leads where the piece leads. -/
theorem advance_exactly (t : FileTree) (p : Place) (piece : String) :
    advance t p (.exactly piece) = (p.walk t piece).toList := by
  rw [advance, plainText?_exactly]
  by_cases hspecial : piece.toList.any isSpecial
  · rw [if_pos hspecial]
    have hne : ∀ plain : String, plain.toList.any isSpecial = false → piece ≠ plain := by
      rintro plain hplain rfl
      rw [hplain] at hspecial
      cases hspecial
    exact acceptedInside_exactly (hne _ rfl) (hne _ (by decide)) (hne _ (by decide))
      (hne _ (by decide)) t p
  · rw [if_neg hspecial]

/-- The escaped pieces of a path lead where the path is walked to. -/
theorem find_exactly (ps : List String) (cs : List Pattern) (p : Place) :
    find t false (ps.map .exactly ++ cs) p =
      (ps.foldlM (Place.walk t) p).toList.flatMap (find t false cs) := by
  induction ps generalizing p with
  | nil => exact (List.append_nil _).symm
  | cons piece ps ih =>
    rw [List.map_cons, List.cons_append, find, isRecursive_exactly, if_neg Bool.false_ne_true,
      advance_exactly, List.foldlM_cons]
    cases p.walk t piece with
    | none => rfl
    | some q => exact (List.append_nil _).trans (ih q)

/-! ## Searching a folder -/

/-- A search whose pattern is valid goes on from the place of its folder. -/
theorem search_searchPattern {whole : Pattern} {cs : List Pattern}
    (hwhole : Pattern.ofText (searchPattern dir tail) = .ok whole) (hempty : pieces tail ≠ [""])
    (htail : (closedPieces (pieces tail)).mapM Pattern.ofText = .ok cs) (t : FileTree) :
    search t (searchPattern dir tail) =
      .ok (sortedFiles t (((folderPlace? t dir).toList.flatMap (find t false cs)).filter fun p =>
        tail.toList.getLast? ≠ some '/' || t.isFolder p.names)) := by
  have hlast : (searchPattern dir tail).toList.getLast? = tail.toList.getLast? := by
    have hne : tail.toList ≠ [] := by
      intro h
      rw [pieces, h] at hempty
      exact hempty rfl
    rw [toList_searchPattern, List.getLast?_append_of_ne_nil _ (List.cons_ne_nil _ _),
      List.getLast?_cons_of_ne_nil hne]
  rw [search, hwhole, searchStart_searchPattern dir hempty, mapM_ofText_append _ htail]
  refine congrArg Except.ok (congrArg (sortedFiles t) ?_)
  dsimp only
  rw [find_exactly, hlast, folderPlace?]

/-- The files directly inside a folder whose names end in a given way. -/
def filesEndingIn (t : FileTree) (dir ending : String) : List (Place × List UInt8) :=
  sortedFiles t <| (folderPlace? t dir).toList.flatMap fun p =>
    ((namesInside t p).filter (ending.toList.isSuffixOf ·.toList)).map fun n => p.below [n]

/-- The places below a place that a leaf leads to: its first piece is the name of something there,
and the other pieces are followed from it. -/
def placesAtLeaf (t : FileTree) (leaf : String) (p : Place) : List Place :=
  ((contents t p).filter (·.getLast? = (pieces leaf).head?)).filterMap fun names =>
    (pieces leaf).tail.foldlM (Place.walk t) (p.below names)

/-- The files at any depth below a folder that a leaf leads to. An empty leaf and one that ends in a
slash lead to none. -/
def filesAtLeaf (t : FileTree) (dir leaf : String) : List (Place × List UInt8) :=
  if leaf = "" ∨ leaf.toList.getLast? = some '/' then []
  else sortedFiles t <| (folderPlace? t dir).toList.flatMap (placesAtLeaf t leaf)

/-- The tokens of a search's pattern are read up to what it looks for. -/
theorem readTokens_searchPattern (dir tail : String) : ∃ i tokens,
    readTokens 0 0 none [] (searchPattern dir tail).toList =
      readTokens 0 i (some '/') tokens tail.toList := by
  rw [toList_searchPattern, escape, String.toList_ofList]
  obtain ⟨i, before, h⟩ := readTokens_escape (trimSlashes dir).toList 0 none [] ('/' :: tail.toList)
  exact ⟨i + 1, _, h.trans rfl⟩

/-- A text whose tokens can be read is a pattern. -/
theorem exists_ofText {pattern : String}
    (h : ∃ tokens, readTokens 0 0 none [] pattern.toList = .ok tokens) :
    ∃ whole, Pattern.ofText pattern = .ok whole := by
  obtain ⟨tokens, h⟩ := h
  exact ⟨⟨tokens⟩, by rw [Pattern.ofText, h]; rfl⟩

/-- The search for migrations finds the files directly inside the folder whose names end in
`.sql`. -/
theorem search_migrations (hdir : t.hasFolder dir) :
    search t (searchPattern dir "*.sql") = .ok (filesEndingIn t dir ".sql") := by
  obtain ⟨i, tokens, h⟩ := readTokens_searchPattern dir "*.sql"
  obtain ⟨whole, hwhole⟩ := exists_ofText ⟨_, h.trans rfl⟩
  have htail : (closedPieces (pieces "*.sql")).mapM Pattern.ofText = .ok [.ending ".sql"] := rfl
  rw [search_searchPattern hwhole (by decide) htail, filesEndingIn]
  have haccepts : (Pattern.ending ".sql").accepts = (".sql".toList.isSuffixOf ·.toList) := by
    funext n
    rw [Bool.eq_iff_iff, accepts_ending_iff, List.isSuffixOf_iff_suffix]
  have hfind : ∀ p, find t false [.ending ".sql"] p = acceptedInside t p (.ending ".sql") := by
    intro p
    rw [find, isRecursive_ending, if_neg Bool.false_ne_true, advance, plainText?_ending]
    exact List.flatMap_singleton' _
  have hlast : "*.sql".toList.getLast? ≠ some '/' := by decide
  simp only [hlast, ne_eq, not_false_eq_true, decide_true, Bool.true_or, List.filter_true]
  refine congrArg Except.ok (congrArg (sortedFiles t) (List.flatMap_congr fun p hp => ?_))
  rw [hfind, acceptedInside, haccepts,
    if_pos (isFolder_of_folderPlace? hdir (Option.mem_toList.1 hp))]

/-! ## Searching for a leaf -/

/-- The pattern for a leaf is a recursive component with the escaped pieces of the leaf behind
it. -/
theorem pieces_leafPattern (leaf : String) :
    pieces ("**/" ++ escape leaf) = "**" :: (pieces leaf).map escape := by
  rw [← pieces_escape]
  simp [pieces, slashPieces]

/-- The characters of the pattern for a leaf. -/
theorem toList_leafPattern (leaf : String) :
    ("**/" ++ escape leaf).toList = ['*', '*', '/'] ++ leaf.toList.flatMap escapeChar := by
  simp [escape]

/-- The pattern for a leaf ends in a slash if the leaf does, or if there is none. -/
theorem getLast?_leafPattern_iff : ("**/" ++ escape leaf).toList.getLast? = some '/' ↔
    leaf = "" ∨ leaf.toList.getLast? = some '/' := by
  rw [toList_leafPattern, ← String.toList_eq_nil_iff]
  rcases List.eq_nil_or_concat' leaf.toList with hnil | ⟨s, c, hs⟩
  · simp [hnil]
  · rw [hs, List.flatMap_append, List.flatMap_singleton, ← List.append_assoc, escapeChar]
    by_cases hc : isSpecial c
    · have hslash : c ≠ '/' := by
        rintro rfl
        cases hc
      rw [if_pos hc, List.getLast?_append_of_ne_nil _ (List.cons_ne_nil _ _)]
      simp [hslash]
    · rw [if_neg hc, List.getLast?_concat, List.getLast?_concat]
      simp

/-- The last piece of a text that does not end in a slash is not empty. -/
theorem exists_slashPieces_concat {c : Char} (hc : c ≠ '/') (s : List Char) :
    ∃ ps piece, slashPieces (s ++ [c]) = ps ++ [piece ++ [c]] := by
  induction s with
  | nil => exact ⟨[], [], by simp [slashPieces, hc]⟩
  | cons d s ih =>
    obtain ⟨ps, piece, hps⟩ := ih
    by_cases hd : d = '/'
    · exact ⟨[] :: ps, piece, by simp [slashPieces, hd, hps]⟩
    · cases ps with
      | nil => exact ⟨[], d :: piece, by simp [slashPieces, hd, hps]⟩
      | cons first ps => exact ⟨(d :: first) :: ps, piece, by simp [slashPieces, hd, hps]⟩

/-- The last piece of a leaf that does not end with a slash is not empty. -/
theorem getLast?_pieces_ne (hempty : leaf ≠ "") (hslash : leaf.toList.getLast? ≠ some '/') :
    (pieces leaf).getLast? ≠ some "" := by
  rcases List.eq_nil_or_concat' leaf.toList with hnil | ⟨s, c, hs⟩
  · exact absurd (String.toList_eq_nil_iff.1 hnil) hempty
  · have hc : c ≠ '/' := by
      rintro rfl
      exact hslash (by rw [hs, List.getLast?_concat])
    obtain ⟨ps, piece, hps⟩ := exists_slashPieces_concat hc s
    rw [pieces, hs, hps, List.map_append, List.map_singleton, List.getLast?_concat]
    intro he
    have hnil := congrArg String.toList (Option.some.inj he)
    rw [String.toList_ofList] at hnil
    exact List.append_ne_nil_of_right_ne_nil piece (List.cons_ne_nil c []) hnil

/-- Pieces whose last one is not empty are kept. -/
theorem closedPieces_of_getLast?_ne {ps : List String} (h : ps.getLast? ≠ some "") :
    closedPieces ps = ps := by
  fun_induction closedPieces ps with
  | case1 piece => exact absurd rfl h
  | case2 piece more hne ih =>
    cases more with
    | nil => rfl
    | cons next more => rw [ih (by rwa [List.getLast?_cons_cons] at h)]
  | case3 => rfl

/-- Every piece of a leaf that does not end in a slash is a component of its pattern. -/
theorem closedPieces_leafPattern (hempty : leaf ≠ "") (hslash : leaf.toList.getLast? ≠ some '/') :
    closedPieces (pieces ("**/" ++ escape leaf)) = "**" :: (pieces leaf).map escape := by
  rw [← pieces_leafPattern]
  refine closedPieces_of_getLast?_ne (getLast?_pieces_ne ?_ ?_)
  · intro h
    have hnil := congrArg String.toList h
    rw [toList_leafPattern] at hnil
    cases hnil
  · exact mt getLast?_leafPattern_iff.1 (not_or.2 ⟨hempty, hslash⟩)

/-- The pieces that are kept are among the pieces. -/
theorem closedPieces_subset (ps : List String) : closedPieces ps ⊆ ps := by
  fun_induction closedPieces ps with
  | case1 piece => simp
  | case2 piece more hne ih => exact List.cons_subset_cons piece ih
  | case3 => exact List.Subset.refl _

/-- Pieces that are patterns one by one are patterns together. -/
theorem exists_mapM_ofText {ps : List String}
    (h : ∀ piece ∈ ps, ∃ c, Pattern.ofText piece = .ok c) :
    ∃ cs, ps.mapM Pattern.ofText = .ok cs := by
  induction ps with
  | nil => exact ⟨[], rfl⟩
  | cons piece ps ih =>
    obtain ⟨c, hc⟩ := h piece List.mem_cons_self
    obtain ⟨cs, hcs⟩ := ih fun piece hp => h piece (List.mem_cons_of_mem _ hp)
    exact ⟨c :: cs, by rw [List.mapM_cons, hc, hcs]; rfl⟩

/-- The pattern of a search for a leaf is valid. -/
theorem exists_ofText_leafPattern (dir leaf : String) :
    ∃ whole, Pattern.ofText (searchPattern dir ("**/" ++ escape leaf)) = .ok whole := by
  obtain ⟨i, tokens, h⟩ := readTokens_searchPattern dir ("**/" ++ escape leaf)
  obtain ⟨j, before, hleaf⟩ := readTokens_escape leaf.toList (i + 3) (some '/')
    (pushDirectories tokens) []
  rw [toList_leafPattern] at h
  rw [List.append_nil] at hleaf
  exact exists_ofText ⟨_, h.trans (Eq.trans rfl hleaf)⟩

/-- A search that finds no place finds no file. -/
theorem sortedFiles_nil (t : FileTree) : sortedFiles t [] = [] :=
  List.mergeSort_nil

/-- No file is found where only folders are looked for. -/
theorem sortedFiles_of_isFolder {found : List Place} (h : ∀ p ∈ found, t.isFolder p.names) :
    sortedFiles t found = [] := by
  have hnone : (found.filterMap fun p => (t.content? p.names).map fun bytes => (p, bytes)) = [] := by
    rw [List.filterMap_eq_nil_iff]
    intro p hp
    rw [FileTree.content?, of_decide_eq_true (h p hp)]
    rfl
  rw [sortedFiles, hnone]
  exact List.mergeSort_nil

/-- The components of the pattern for a leaf lead to the places at the leaf. -/
theorem find_leafPattern (hfolder : t.isFolder p.names) (leaf : String) :
    find t false (⟨[.anyDirectories]⟩ :: (pieces leaf).map .exactly) p = placesAtLeaf t leaf p := by
  obtain ⟨first, more, hleaf⟩ := exists_pieces_eq_cons leaf
  have hlast : ∀ names : List String, names.getLast?.any (Pattern.exactly first).accepts =
      decide (names.getLast? = some first) := by
    intro names
    rw [Bool.eq_iff_iff, Option.any_eq_true, decide_eq_true_iff]
    constructor
    · rintro ⟨n, hn, haccepts⟩
      rw [hn, accepts_exactly_iff.1 haccepts]
    · exact fun h => ⟨first, h, accepts_exactly_iff.2 rfl⟩
  have hmore : ∀ q, find t false (more.map .exactly) q = (more.foldlM (Place.walk t) q).toList := by
    intro q
    have h := find_exactly (t := t) more [] q
    rw [List.append_nil] at h
    exact h.trans (List.flatMap_singleton' _)
  have hdeep : find t false (⟨[.anyDirectories]⟩ :: (first :: more).map .exactly) p =
      find t true ((first :: more).map .exactly) p := if_pos hfolder
  rw [placesAtLeaf, hleaf, hdeep, List.map_cons, find, isRecursive_exactly,
    if_neg Bool.false_ne_true, List.filterMap_eq_flatMap_toList]
  simp only [hlast, hmore]
  rfl

/-- The search for modules finds the files at the leaf. -/
theorem search_modules (hdir : t.hasFolder dir) (leaf : String) :
    search t (searchPattern dir ("**/" ++ escape leaf)) = .ok (filesAtLeaf t dir leaf) := by
  have hpieces := pieces_leafPattern leaf
  have hne : pieces ("**/" ++ escape leaf) ≠ [""] := by
    rw [hpieces]
    exact fun h => absurd (List.cons.inj h).1 (by decide)
  obtain ⟨whole, hwhole⟩ := exists_ofText_leafPattern dir leaf
  by_cases hslash : leaf = "" ∨ leaf.toList.getLast? = some '/'
  · -- Only folders are looked for.
    have hvalid : ∀ piece ∈ closedPieces (pieces ("**/" ++ escape leaf)),
        ∃ c, Pattern.ofText piece = .ok c := by
      intro piece hmem
      have hmem := closedPieces_subset _ hmem
      rw [hpieces, List.mem_cons, List.mem_map] at hmem
      rcases hmem with rfl | ⟨text, -, rfl⟩
      · exact ⟨_, rfl⟩
      · exact ⟨_, ofText_escape text⟩
    obtain ⟨cs, hcs⟩ := exists_mapM_ofText hvalid
    rw [search_searchPattern hwhole hne hcs, filesAtLeaf, if_pos hslash, sortedFiles_of_isFolder]
    intro p hp
    have hkeep := (List.mem_filter.1 hp).2
    rwa [getLast?_leafPattern_iff.2 hslash, decide_eq_false (not_not_intro rfl),
      Bool.false_or] at hkeep
  · have hlast := mt getLast?_leafPattern_iff.1 hslash
    obtain ⟨hempty, hend⟩ := not_or.1 hslash
    have hcs : (closedPieces (pieces ("**/" ++ escape leaf))).mapM Pattern.ofText =
        .ok (⟨[.anyDirectories]⟩ :: (pieces leaf).map .exactly) := by
      have hescaped := mapM_ofText_append (pieces leaf) (show [].mapM Pattern.ofText = .ok [] from rfl)
      rw [List.append_nil, List.append_nil] at hescaped
      rw [closedPieces_leafPattern hempty hend, List.mapM_cons, hescaped]
      rfl
    rw [search_searchPattern hwhole hne hcs, filesAtLeaf, if_neg hslash]
    simp only [hlast, ne_eq, not_false_eq_true, decide_true, Bool.true_or, List.filter_true]
    refine congrArg Except.ok (congrArg (sortedFiles t) (List.flatMap_congr fun p hp => ?_))
    exact find_leafPattern (isFolder_of_folderPlace? hdir (Option.mem_toList.1 hp)) leaf

end SchemaDrift.Files
