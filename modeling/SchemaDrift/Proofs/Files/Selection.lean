import SchemaDrift.Proofs.Files.Load
import SchemaDrift.Proofs.Files.Parts
import SchemaDrift.Proofs.Text.ByteOrder

/-!
# What the loaders select

The loaders take exactly the files that they are asked for, each once and in the order of the bytes
of their names (`loaders_select`). A tree has plain names if every place in it is one that a path
can lead to (`FileTree.HasPlainNames`), and every tree that is made by adding files and folders has
(`FileTree.HasPlainNames.addFile`, `FileTree.HasPlainNames.addFolder`). What the pattern of a search
finds is told by the names below the place of its folder (`filesBelow`), since the path that was
walked to that place stands at the start of every path found there.

A search loads nothing from a folder whose path doubles a slash behind the dots at its start,
although the path leads to the folder (`doubled_slash_loads_nothing`).
-/

namespace SchemaDrift.Files

open Text (Precedes)

/-! ## Trees with plain names -/

/-- A place that a path can lead to: below one that every tree has, all names are plain. -/
def IsPlainPlace (names : List String) : Prop :=
  ∃ outer inner, names = outer ++ inner ∧ isFixed outer ∧ ∀ n ∈ inner, IsPlain n

namespace IsPlainPlace

variable {names inner : List String}

/-- The fixed places are plain. -/
theorem of_isFixed (h : isFixed names) : IsPlainPlace names :=
  ⟨names, [], by simp, h, by simp⟩

/-- A plain place goes on with a plain name. -/
theorem concat (h : IsPlainPlace names) {n : String} (hn : IsPlain n) :
    IsPlainPlace (names ++ [n]) := by
  obtain ⟨outer, inner, rfl, hfixed, hplain⟩ := h
  refine ⟨outer, inner ++ [n], by simp, hfixed, fun m hm => ?_⟩
  rcases List.mem_append.1 hm with hm | hm
  · exact hplain m hm
  · rwa [List.mem_singleton.1 hm]

/-- The folder around a plain place is plain. -/
theorem outerNames (h : IsPlainPlace names) : IsPlainPlace (outerNames names) := by
  rw [Files.outerNames]
  split
  · exact of_isFixed rfl
  split
  · next hroot hfixed =>
    refine of_isFixed ?_
    simp only [isFixed, hroot, decide_false, Bool.false_or] at hfixed
    simp [isFixed, hfixed]
  · next hfixed =>
    obtain ⟨outer, inner, rfl, houter, hplain⟩ := h
    have hne : inner ≠ [] := by
      rintro rfl
      rw [List.append_nil] at hfixed
      exact hfixed houter
    rw [List.dropLast_append_of_ne_nil hne]
    exact ⟨outer, _, rfl, houter, fun n hn => hplain n (List.mem_of_mem_dropLast hn)⟩

/-- Names that lead down from a place to a plain place are plain. -/
theorem plain_of_isInner {base : List String} (h : IsPlainPlace (base ++ inner))
    (hinner : isInner inner) : ∀ n ∈ inner, IsPlain n := by
  obtain ⟨outer, names, he, houter, hplain⟩ := h
  rcases List.append_eq_append_iff.1 he with ⟨x, rfl, hx⟩ | ⟨x, rfl, rfl⟩
  · -- The names would begin with one that only leads to a place that every tree has.
    cases x with
    | nil =>
      obtain rfl : inner = names := by simpa using hx
      exact hplain
    | cons n x =>
      rw [hx, List.cons_append] at hinner
      have hn : isInner (n :: x) := by simpa [isInner] using hinner
      rw [isFixed_append base hn] at houter
      cases houter
  · exact fun n hn => hplain n (List.mem_append_right _ hn)

end IsPlainPlace

/-- Plain names lead inside a folder. -/
theorem isInner_of_plain {inner : List String} (hne : inner ≠ []) (h : ∀ n ∈ inner, IsPlain n) :
    isInner inner := by
  obtain ⟨n, more, rfl⟩ := List.exists_cons_of_ne_nil hne
  have hn := h n List.mem_cons_self
  simp [isInner, hn.ne_up, hn.ne_root]

/-- The names in a path are plain. -/
theorem isPlain_of_mem_pathParts {path s : String} (h : .name s ∈ pathParts path) : IsPlain s := by
  have hinner : ∀ piece ∈ pieces path, innerPart? piece = some (.name s) → IsPlain s := by
    intro piece hp hs
    have hslash := no_slash_of_mem_pieces hp
    rw [innerPart?] at hs
    split at hs
    · cases hs
    · next hne =>
      split at hs
      · cases hs
      · next hup =>
        cases hs
        exact ⟨fun h => hne (.inl h), fun h => hne (.inr h), hup, hslash⟩
  obtain ⟨first, more, hp⟩ := exists_pieces_eq_cons path
  rw [hp] at hinner
  simp only [pathParts, hp, List.mem_append, List.mem_filterMap] at h
  rcases h with h | ⟨piece, hm, hs⟩
  · refine hinner first List.mem_cons_self ?_
    by_cases hempty : first = ""
    · split at h <;> simp_all
    · by_cases hdot : first = "." <;> simp_all
  · exact hinner piece (List.mem_cons_of_mem _ hm) hs

/-- Every place of a tree is one that a path can lead to. -/
def FileTree.HasPlainNames (t : FileTree) : Prop :=
  ∀ names, (t.entries.get? names).isSome → IsPlainPlace names

namespace FileTree

variable {t : FileTree}

/-- The empty tree has plain names. -/
theorem hasPlainNames_empty : HasPlainNames {} := by
  intro names h
  cases h

/-- A tree keeps plain names when an entry is added at a plain place. -/
theorem HasPlainNames.insert (h : t.HasPlainNames) {names : List String}
    (hnames : IsPlainPlace names) (e : Entry) :
    HasPlainNames { entries := t.entries.insert names e } := by
  intro names' h'
  by_cases he : names' = names
  · rwa [he]
  · exact h names' (by simpa [SortedMap.insert, SortedMap.get?_update, he] using h')

/-- Making folders for plain names keeps the names of a tree plain. -/
theorem HasPlainNames.makeFolders (h : t.HasPlainNames) {names : List String}
    (hnames : IsPlainPlace names) {parts : List PathPart}
    (hparts : ∀ s, .name s ∈ parts → IsPlain s) :
    (t.makeFolders names parts).1.HasPlainNames ∧
      IsPlainPlace (t.makeFolders names parts).2 := by
  induction parts generalizing t names with
  | nil => exact ⟨h, hnames⟩
  | cons part parts ih =>
    have hrest : ∀ s, .name s ∈ parts → IsPlain s :=
      fun s hs => hparts s (List.mem_cons_of_mem _ hs)
    cases part with
    | root => exact ih h (.of_isFixed rfl) hrest
    | here => exact ih h hnames hrest
    | up => exact ih h hnames.outerNames hrest
    | name s =>
      have hs := hnames.concat (hparts s List.mem_cons_self)
      exact ih (h.insert hs .folder) hs hrest

/-- A folder that is added at a path keeps the names of a tree plain. -/
theorem HasPlainNames.addFolder (h : t.HasPlainNames) (path : String) :
    (t.addFolder path).HasPlainNames :=
  (h.makeFolders (.of_isFixed rfl) fun _ hs => isPlain_of_mem_pathParts hs).1

/-- A file that is added at a path keeps the names of a tree plain. -/
theorem HasPlainNames.addFile (h : t.HasPlainNames) (path : String) (bytes : List UInt8) :
    (t.addFile path bytes).HasPlainNames := by
  rw [FileTree.addFile]
  split
  · exact h
  · next name hname =>
    have hn : .name name ∈ pathParts path := by
      rw [fileName?] at hname
      split at hname
      · next hlast =>
        cases hname
        exact List.mem_of_getLast? hlast
      · cases hname
    have houter : ∀ s, .name s ∈ (pathParts path).dropLast → IsPlain s :=
      fun s hs => isPlain_of_mem_pathParts (List.mem_of_mem_dropLast hs)
    obtain ⟨hfolders, hplace⟩ := h.makeFolders (.of_isFixed (rfl : isFixed [])) houter
    exact hfolders.insert (hplace.concat (isPlain_of_mem_pathParts hn)) _

end FileTree

/-! ## What stands below a place -/

variable {t : FileTree} {p : Place}

/-- Where all names are plain, the contents of a place are the plain names that lead down from it to
something. -/
theorem mem_contents_iff (ht : t.HasPlainNames) {inner : List String} :
    inner ∈ contents t p ↔
      inner ≠ [] ∧ (∀ n ∈ inner, IsPlain n) ∧ (t.entries.get? (p.names ++ inner)).isSome := by
  rw [mem_contents]
  constructor
  · rintro ⟨hinner, hsome⟩
    rw [t.entry?_append _ hinner] at hsome
    refine ⟨?_, (ht _ hsome).plain_of_isInner hinner, hsome⟩
    rintro rfl
    cases hinner
  · rintro ⟨hne, hplain, hsome⟩
    have hinner := isInner_of_plain hne hplain
    rw [t.entry?_append _ hinner]
    exact ⟨hinner, hsome⟩

/-! ## The order of what is found -/

/-- A common beginning does not matter when paths are compared. -/
theorem compare_append_left (ps as bs : List PathPart) :
    compare (ps ++ as) (ps ++ bs) = compare as bs := by
  induction ps with
  | nil => rfl
  | cons part ps ih =>
    rw [List.cons_append, List.cons_append, List.compare_cons_cons, ih,
      Std.ReflOrd.compare_self]
    rfl

/-- Different names are ordered part by part as their bytes are. -/
theorem lex_precedes_of_isLE {a b : List String}
    (h : (compare (a.map PathPart.name) (b.map .name)).isLE) (hne : a ≠ b) :
    List.Lex Precedes a b := by
  induction a generalizing b with
  | nil =>
    cases b with
    | nil => exact absurd rfl hne
    | cons m b => exact .nil
  | cons n a ih =>
    cases b with
    | nil => cases h
    | cons m b =>
      rw [List.map_cons, List.map_cons, List.compare_cons_cons] at h
      have hname : compare (PathPart.name n) (.name m) = compare n m := by
        change (compare 3 3).then (compare n m) = _
        rw [Std.ReflOrd.compare_self]
        rfl
      rw [hname] at h
      cases hc : compare n m with
      | lt => exact .rel (Text.compare_eq_lt_iff_precedes.1 hc)
      | gt =>
        rw [hc] at h
        cases h
      | eq =>
        obtain rfl := Std.LawfulEqOrd.compare_eq_iff_eq.1 hc
        rw [hc] at h
        exact .cons (ih h fun he => hne (by rw [he]))

/-- Single names are compared as texts. -/
theorem precedes_of_lex_singleton {a b : String} (h : List.Lex Precedes [a] [b]) :
    Precedes a b := by
  cases h with
  | rel h => exact h
  | cons h => cases h

/-- The files among what keys name below a place, with their contents, in the order of the names. -/
def filesBelow {κ : Type} (t : FileTree) (base : List String) (names : κ → List String)
    (keys : List κ) : List (κ × List UInt8) :=
  (keys.filterMap fun k => (t.content? (base ++ names k)).map fun bytes => (k, bytes)).mergeSort
    fun a b => (compare ((names a.1).map PathPart.name) ((names b.1).map .name)).isLE

section FilesBelow

variable {κ : Type} {base : List String} {names : κ → List String} {keys : List κ}

/-- The files below a folder are those of the keys at whose names there is content. -/
theorem mem_filesBelow {k : κ} {bytes : List UInt8} :
    (k, bytes) ∈ filesBelow t base names keys ↔
      k ∈ keys ∧ t.content? (base ++ names k) = some bytes := by
  rw [filesBelow, List.mem_mergeSort, List.mem_filterMap]
  constructor
  · rintro ⟨k', hk, hb⟩
    obtain ⟨bytes', hb, he⟩ := Option.map_eq_some_iff.1 hb
    cases he
    exact ⟨hk, hb⟩
  · rintro ⟨hk, hb⟩
    exact ⟨k, hk, by rw [hb]; rfl⟩

/-- The files below a place are in the strict order of their names. -/
theorem pairwise_filesBelow (hkeys : (keys.map names).Nodup) :
    ((filesBelow t base names keys).map fun f => names f.1).Pairwise (List.Lex Precedes) := by
  have hfound : (keys.filterMap fun k => (t.content? (base ++ names k)).map fun bytes =>
      (k, bytes)).Pairwise fun f g => names f.1 ≠ names g.1 := by
    refine List.Pairwise.filterMap _ (fun a b hne f hf g hg => ?_) (List.pairwise_map.1 hkeys)
    obtain ⟨-, -, rfl⟩ := Option.map_eq_some_iff.1 hf
    obtain ⟨-, -, rfl⟩ := Option.map_eq_some_iff.1 hg
    exact hne
  have hne : (filesBelow t base names keys).Pairwise fun f g => names f.1 ≠ names g.1 :=
    (List.mergeSort_perm _ _).symm.pairwise hfound fun h => h.symm
  have hle : (filesBelow t base names keys).Pairwise fun f g =>
      (compare ((names f.1).map PathPart.name) ((names g.1).map .name)).isLE := by
    refine List.pairwise_mergeSort (fun f g h hfg hgh => ?_) (fun f g => ?_) _
    · exact Std.TransOrd.isLE_trans hfg hgh
    · rw [Std.OrientedOrd.eq_swap]
      cases compare ((names g.1).map PathPart.name) ((names f.1).map .name) <;> rfl
  rw [List.pairwise_map]
  exact hle.imp₂ (fun f g hle hne => lex_precedes_of_isLE hle hne) hne

/-- What a search sorts are the files below its place. -/
theorem sortedFiles_below (hp : p.path ≠ "")
    (hkeys : ∀ k ∈ keys, names k ≠ [] ∧ ∀ n ∈ names k, IsPlain n) :
    sortedFiles t (keys.map fun k => p.below (names k)) =
      (filesBelow t p.names names keys).map fun f => (p.below (names f.1), f.2) := by
  have hfound : ((keys.map fun k => p.below (names k)).filterMap fun q =>
        (t.content? q.names).map fun bytes => (q, bytes)) =
      (keys.filterMap fun k => (t.content? (p.names ++ names k)).map fun bytes =>
        (k, bytes)).map fun f => (p.below (names f.1), f.2) := by
    rw [List.filterMap_map, List.map_filterMap]
    refine List.filterMap_congr fun k _ => ?_
    rw [Option.map_map]
    rfl
  rw [sortedFiles, hfound, filesBelow]
  refine (List.map_mergeSort fun f hf g hg => ?_).symm
  have hparts : ∀ f ∈ keys.filterMap fun k =>
        (t.content? (p.names ++ names k)).map fun bytes => (k, bytes),
      pathParts (p.below (names f.1)).path = p.parts ++ (names f.1).map .name := by
    intro f hf
    obtain ⟨k, hk, hf⟩ := List.mem_filterMap.1 hf
    obtain ⟨-, -, rfl⟩ := Option.map_eq_some_iff.1 hf
    exact Place.pathParts_below hp (hkeys k hk).1 (hkeys k hk).2
  rw [hparts f hf, hparts g hg, compare_append_left]

end FilesBelow

/-! ## The names of sources -/

/-- The name of a file is the last of the names that lead to it. -/
theorem fileName?_concat (ps : List PathPart) (n : String) :
    fileName? (ps ++ [.name n]) = some n := by
  simp [fileName?]

/-- The module of a file is told by the parts of its path up to the file's name. -/
theorem moduleName_of_pathParts {path n : String} {ps : List PathPart}
    (h : pathParts path = ps ++ [.name n]) :
    moduleName path = (fileName? ps).getD (fileStem n) := by
  have hparent : parent? (ps ++ [.name n]) = some ps := by
    simp [parent?]
  rw [moduleName, h, hparent, fileName?_concat]
  cases hps : fileName? ps <;> simp [hps]

/-- A part that stays in place does not change the name of the file. -/
theorem fileName?_here (ps : List PathPart) : fileName? (.here :: ps) = fileName? ps := by
  cases ps with
  | nil => rfl
  | cons part ps => simp [fileName?]

/-- The parts of a path that is joined with plain names are those of the path and the names. -/
theorem pathParts_foldl_join {dir : String} (hne : dir ≠ "") {inner : List String}
    (hplain : ∀ n ∈ inner, IsPlain n) :
    pathParts (inner.foldl join dir) = pathParts dir ++ inner.map .name := by
  induction inner generalizing dir with
  | nil => simp
  | cons n inner ih =>
    have hn := hplain n List.mem_cons_self
    rw [List.foldl_cons, ih (join_ne_empty hne n) fun m hm => hplain m (List.mem_cons_of_mem _ hm),
      pathParts_join hne hn.no_slash, hn.innerPart?]
    simp

/-- A file below a folder belongs to the module of its path, whether the path was walked or joined
to the folder's. -/
theorem moduleName_below {dir : String} (hne : dir ≠ "") (hp : folderPlace? t dir = some p)
    {inner : List String} (hinner : inner ≠ []) (hplain : ∀ n ∈ inner, IsPlain n) :
    moduleName (p.below inner).path = moduleName (inner.foldl join dir) := by
  obtain ⟨hpath, hparts⟩ := pathParts_of_folderPlace? hne hp
  obtain ⟨x, n, rfl⟩ : ∃ x n, inner = x ++ [n] :=
    ⟨_, _, (List.dropLast_append_getLast hinner).symm⟩
  have hwalked : pathParts (p.below (x ++ [n])).path = p.parts ++ x.map .name ++ [.name n] := by
    rw [Place.pathParts_below hpath hinner hplain]
    simp
  have hjoined : pathParts ((x ++ [n]).foldl join dir) =
      pathParts dir ++ x.map .name ++ [.name n] := by
    rw [pathParts_foldl_join hne hplain]
    simp
  rw [moduleName_of_pathParts hwalked, moduleName_of_pathParts hjoined]
  rcases hparts with hparts | hparts
  · rw [hparts]
  · rw [hparts, List.cons_append, fileName?_here]

/-! ## What the loaders find -/

variable {dir leaf : String}

/-- The names of what stands directly inside a place and ends in a given way. -/
def namesEndingIn (t : FileTree) (p : Place) (ending : String) : List String :=
  (namesInside t p).filter (ending.toList.isSuffixOf ·.toList)

/-- The names of a folder with an ending are those it holds that have the ending. -/
theorem mem_namesEndingIn {ending n : String} :
    n ∈ namesEndingIn t p ending ↔ [n] ∈ contents t p ∧ ending.toList <:+ n.toList := by
  rw [namesEndingIn, List.mem_filter, mem_namesInside, List.isSuffixOf_iff_suffix]

/-- No name of a folder is listed twice. -/
theorem nodup_namesEndingIn (t : FileTree) (p : Place) (ending : String) :
    ((namesEndingIn t p ending).map fun n => [n]).Nodup := by
  rw [List.nodup_iff_pairwise_ne, List.pairwise_map]
  exact ((nodup_namesInside t p).filter _).imp fun hne he => hne (List.cons.inj he).1

/-- The files with an ending in a folder are the sorted files at its names with that ending. -/
theorem filesEndingIn_eq (hp : folderPlace? t dir = some p) (ending : String) :
    filesEndingIn t dir ending =
      sortedFiles t ((namesEndingIn t p ending).map fun n => p.below [n]) := by
  rw [filesEndingIn, hp, Option.toList_some, List.flatMap_singleton, namesEndingIn]

/-- A plain leaf is one piece, so the search for it ends at what has its name. -/
theorem filesAtLeaf_eq (hp : folderPlace? t dir = some p) (hleaf : IsPlain leaf) :
    filesAtLeaf t dir leaf =
      sortedFiles t (((contents t p).filter (·.getLast? = some leaf)).map p.below) := by
  have hlast : leaf.toList.getLast? ≠ some '/' :=
    fun h => hleaf.no_slash (List.mem_of_getLast? h)
  rw [filesAtLeaf, if_neg (not_or.2 ⟨hleaf.ne_empty, hlast⟩), hp, Option.toList_some,
    List.flatMap_singleton, placesAtLeaf, pieces_of_no_slash hleaf.no_slash, ← List.filterMap_eq_map]
  rfl

/-- Something with content stands below a place exactly if it is a file among the contents. -/
theorem mem_contents_of_content? (ht : t.HasPlainNames) {inner : List String}
    {bytes : List UInt8} (hne : inner ≠ []) (hplain : ∀ n ∈ inner, IsPlain n)
    (h : t.content? (p.names ++ inner) = some bytes) : inner ∈ contents t p := by
  refine (mem_contents_iff ht).2 ⟨hne, hplain, ?_⟩
  rw [FileTree.content?, t.entry?_append _ (isInner_of_plain hne hplain)] at h
  split at h
  · next hget => rw [hget]; rfl
  · cases h

/-- A file directly inside a place has a plain name. -/
theorem isPlain_of_content? (ht : t.HasPlainNames) {base : List String} {n : String}
    {bytes : List UInt8} (h : t.content? (base ++ [n]) = some bytes) : IsPlain n := by
  have hentry : t.entry? (base ++ [n]) = some (.file bytes) := by
    rw [FileTree.content?] at h
    split at h
    · next hget => rw [hget, Option.some.inj h]
    · cases h
  rw [FileTree.entry?] at hentry
  split at hentry
  · cases hentry
  · next hfixed =>
    obtain ⟨outer, inner, he, houter, hplain⟩ := ht _ (by rw [hentry]; rfl)
    have hne : inner ≠ [] := by
      rintro rfl
      rw [he, List.append_nil] at hfixed
      exact hfixed houter
    have hlast : inner.getLast? = some n := by
      rw [← List.getLast?_append_of_ne_nil outer hne, ← he, List.getLast?_concat]
    exact hplain n (List.mem_of_getLast? hlast)

/-! ## The loaders -/

/-- What is loaded of the migrations of a folder: the files directly inside it whose names end in
`.sql`, each once, in the order of the bytes of their names. -/
structure IsMigrations (t : FileTree) (base : List String) (files : List (String × List UInt8)) :
    Prop where
  mem_iff : ∀ n bytes, (n, bytes) ∈ files ↔
    t.content? (base ++ [n]) = some bytes ∧ ".sql".toList <:+ n.toList
  increasing : (files.map (·.1)).Pairwise Precedes

/-- What is loaded of the modules of a folder: the files at any depth below it that have the name of
the leaf, each once, in the order of the bytes of the names that lead to them. -/
structure IsModules (t : FileTree) (base : List String) (leaf : String)
    (files : List (List String × List UInt8)) : Prop where
  mem_iff : ∀ inner bytes, (inner, bytes) ∈ files ↔
    (∀ n ∈ inner, IsPlain n) ∧ inner.getLast? = some leaf ∧
      t.content? (base ++ inner) = some bytes
  increasing : (files.map (·.1)).Pairwise (List.Lex Precedes)

/-- The files named with the ending of migrations are the migrations of a folder. -/
theorem isMigrations_filesBelow (ht : t.HasPlainNames) :
    IsMigrations t p.names (filesBelow t p.names (fun n => [n]) (namesEndingIn t p ".sql")) where
  mem_iff n bytes := by
    rw [mem_filesBelow, mem_namesEndingIn]
    constructor
    · rintro ⟨⟨-, hsuffix⟩, hbytes⟩
      exact ⟨hbytes, hsuffix⟩
    · rintro ⟨hbytes, hsuffix⟩
      have hn := isPlain_of_content? ht hbytes
      exact ⟨⟨mem_contents_of_content? ht (by simp) (by simpa using hn) hbytes, hsuffix⟩, hbytes⟩
  increasing := by
    rw [List.pairwise_map]
    refine List.Pairwise.imp (fun {f g} h => ?_)
      (List.pairwise_map.1 (pairwise_filesBelow (nodup_namesEndingIn t p ".sql")))
    exact precedes_of_lex_singleton h

/-- The files at the leaf are the modules of a folder. -/
theorem isModules_filesBelow (ht : t.HasPlainNames) (leaf : String) :
    IsModules t p.names leaf
      (filesBelow t p.names id ((contents t p).filter (·.getLast? = some leaf))) where
  mem_iff inner bytes := by
    rw [mem_filesBelow, List.mem_filter, decide_eq_true_iff]
    constructor
    · rintro ⟨⟨hm, hlast⟩, hbytes⟩
      exact ⟨((mem_contents_iff ht).1 hm).2.1, hlast, hbytes⟩
    · rintro ⟨hplain, hlast, hbytes⟩
      have hne : inner ≠ [] := by
        rintro rfl
        cases hlast
      exact ⟨⟨mem_contents_of_content? ht hne hplain hbytes, hlast⟩, hbytes⟩
  increasing := by
    have hnodup : (((contents t p).filter (·.getLast? = some leaf)).map id).Nodup := by
      rw [List.map_id]
      exact (nodup_contents t p).filter _
    exact pairwise_filesBelow hnodup

/-- The sources that are loaded from a folder's migrations. -/
theorem loadMigrations_sources (ht : t.HasPlainNames) (hdir : t.hasFolder dir)
    (hp : folderPlace? t dir = some p) :
    (loadMigrations t dir).map (·.sources) =
      .ok ((filesBelow t p.names (fun n => [n]) (namesEndingIn t p ".sql")).map fun f =>
        readSource f.1 f.2) := by
  obtain ⟨hpath, -⟩ := pathParts_of_folderPlace? (ne_empty_of_hasFolder hdir) hp
  have hplain : ∀ n ∈ namesEndingIn t p ".sql", [n] ≠ [] ∧ ∀ m ∈ [n], IsPlain m := by
    intro n hn
    have hc := (mem_contents_iff ht).1 (mem_namesEndingIn.1 hn).1
    exact ⟨hc.1, hc.2.1⟩
  rw [loadMigrations, if_pos hdir, searched_migrations hdir, filesEndingIn_eq hp,
    sortedFiles_below hpath hplain]
  refine congrArg Except.ok ?_
  rw [loadFound, List.map_map]
  refine List.map_congr_left fun f hf => ?_
  have hn := hplain f.1 (mem_filesBelow.1 hf).1
  have hname : sourceName (p.below [f.1]).path = f.1 := by
    rw [sourceName, Place.pathParts_below hpath hn.1 hn.2, List.map_singleton, fileName?_concat]
    rfl
  rw [Function.comp_apply, hname]

/-- The sources that are loaded from the modules below a folder. -/
theorem loadModules_sources (ht : t.HasPlainNames) (hdir : t.hasFolder dir)
    (hp : folderPlace? t dir = some p) (hleaf : IsPlain leaf) :
    (loadModules t dir leaf).map (·.sources) =
      .ok ((filesBelow t p.names id ((contents t p).filter (·.getLast? = some leaf))).map fun f =>
        readSource (moduleName (f.1.foldl join dir)) f.2) := by
  have hne := ne_empty_of_hasFolder hdir
  obtain ⟨hpath, -⟩ := pathParts_of_folderPlace? hne hp
  have hplain : ∀ inner ∈ (contents t p).filter (·.getLast? = some leaf),
      inner ≠ [] ∧ ∀ n ∈ inner, IsPlain n := by
    intro inner hm
    have hc := (mem_contents_iff ht).1 (List.mem_filter.1 hm).1
    exact ⟨hc.1, hc.2.1⟩
  have hsorted : sortedFiles t (((contents t p).filter (·.getLast? = some leaf)).map p.below) =
      (filesBelow t p.names id ((contents t p).filter (·.getLast? = some leaf))).map fun f =>
        (p.below f.1, f.2) := sortedFiles_below hpath hplain
  rw [loadModules, if_pos hdir, searched_modules hdir, filesAtLeaf_eq hp hleaf, hsorted]
  refine congrArg Except.ok ?_
  rw [loadFound, List.map_map]
  refine List.map_congr_left fun f hf => ?_
  have hinner := hplain f.1 (mem_filesBelow.1 hf).1
  rw [Function.comp_apply, moduleName_below hne hp hinner.1 hinner.2]

/-- Nothing is loaded from a folder whose place no search finds. -/
theorem load_of_folderPlace?_eq_none (hdir : t.hasFolder dir) (hp : folderPlace? t dir = none)
    (leaf : String) :
    (loadMigrations t dir).map (·.sources) = .ok [] ∧
      (loadModules t dir leaf).map (·.sources) = .ok [] := by
  have hmigrations : filesEndingIn t dir ".sql" = [] := by
    rw [filesEndingIn, hp, Option.toList_none, List.flatMap_nil, sortedFiles_nil]
  have hmodules : filesAtLeaf t dir leaf = [] := by
    rw [filesAtLeaf, hp, Option.toList_none, List.flatMap_nil, sortedFiles_nil, ite_self]
  constructor
  · rw [loadMigrations, if_pos hdir, searched_migrations hdir, hmigrations]
    rfl
  · rw [loadModules, if_pos hdir, searched_modules hdir, hmodules]
    rfl

/-- The loaders of a folder select exactly the right files, in the order of their names. From a path
that doubles a slash behind the dots at its start they load nothing, although it leads to the
folder. -/
theorem loaders_select (ht : t.HasPlainNames) {base : List String}
    (hbase : t.resolve? dir = some base) (hfolder : t.isFolder base) :
    (doublesFirstSlash dir = false →
      (∃ files, IsMigrations t base files ∧
        (loadMigrations t dir).map (·.sources) = .ok (files.map fun f => readSource f.1 f.2)) ∧
      ∀ leaf, IsPlain leaf →
        ∃ files, IsModules t base leaf files ∧
          (loadModules t dir leaf).map (·.sources) =
            .ok (files.map fun f => readSource (moduleName (f.1.foldl join dir)) f.2)) ∧
    (doublesFirstSlash dir = true → ∀ leaf,
      (loadMigrations t dir).map (·.sources) = .ok [] ∧
        (loadModules t dir leaf).map (·.sources) = .ok []) := by
  have hdir : t.hasFolder dir := by
    rw [FileTree.hasFolder, hbase]
    exact hfolder
  refine ⟨fun hsearch => ?_, fun hstall => ?_⟩
  · obtain ⟨p, hp⟩ := Option.isSome_iff_exists.1 ((folderPlace?_isSome_iff hdir).2 hsearch)
    obtain rfl : base = p.names :=
      Option.some.inj (hbase.symm.trans (resolve?_of_folderPlace? hdir hp))
    exact ⟨⟨_, isMigrations_filesBelow ht, loadMigrations_sources ht hdir hp⟩, fun leaf hleaf =>
      ⟨_, isModules_filesBelow ht leaf, loadModules_sources ht hdir hp hleaf⟩⟩
  · have hnone : folderPlace? t dir = none := by
      rw [← Option.not_isSome_iff_eq_none, folderPlace?_isSome_iff hdir, hstall]
      decide
    exact load_of_folderPlace?_eq_none hdir hnone

/-- A tree with a hidden folder, names with brackets, and a folder that is named like a file. -/
def bracketTree : FileTree :=
  (((({} : FileTree).addFile "s[1]/i[x].ts" [97]).addFile "s[1]/.h/i[x].ts" [98]).addFile
    "s[1]/ix.ts" [99]).addFolder "s[1]/d/i[x].ts"

/-- The tree with brackets in its names has plain names. -/
theorem hasPlainNames_bracketTree : bracketTree.HasPlainNames :=
  (((FileTree.hasPlainNames_empty.addFile _ _).addFile _ _).addFile _ _).addFolder _

/-- Brackets in the path of a folder and in a leaf stand for themselves: the file in the folder itself
and the one in the hidden folder are modules, and what the leaf would match as a pattern is none. -/
theorem bracketTree_modules :
    bracketTree.resolve? "./s[1]/" = some ["s[1]"] ∧ bracketTree.isFolder ["s[1]"] ∧
    doublesFirstSlash "./s[1]/" = false ∧ IsPlain "i[x].ts" ∧
    ∃ files : List (List String × List UInt8),
      (["i[x].ts"], [97]) ∈ files ∧ ([".h", "i[x].ts"], [98]) ∈ files ∧
      (["ix.ts"], [99]) ∉ files ∧ (∀ bytes, (["d", "i[x].ts"], bytes) ∉ files) ∧
      (files.map (·.1)).Pairwise (List.Lex Precedes) ∧
      (loadModules bracketTree "./s[1]/" "i[x].ts").map (·.sources) =
        .ok (files.map fun f => readSource (moduleName (f.1.foldl join "./s[1]/")) f.2) := by
  have hbase : bracketTree.resolve? "./s[1]/" = some ["s[1]"] := by decide +kernel
  have hfolder : bracketTree.isFolder ["s[1]"] := by decide +kernel
  have hslash : doublesFirstSlash "./s[1]/" = false := by decide +kernel
  have hleaf : IsPlain "i[x].ts" := by decide +kernel
  obtain ⟨files, hfiles, hload⟩ :=
    ((loaders_select hasPlainNames_bracketTree hbase hfolder).1 hslash).2 _ hleaf
  refine ⟨hbase, hfolder, hslash, hleaf, files, ?_, ?_, ?_, ?_, hfiles.increasing, hload⟩
  · exact (hfiles.mem_iff _ _).2 ⟨by decide +kernel, rfl, by decide +kernel⟩
  · exact (hfiles.mem_iff _ _).2 ⟨by decide +kernel, rfl, by decide +kernel⟩
  · intro hm
    exact absurd ((hfiles.mem_iff _ _).1 hm).2.1 (by decide +kernel)
  · intro bytes hm
    have hnone : bracketTree.content? ["s[1]", "d", "i[x].ts"] = none := by decide +kernel
    have hsome := ((hfiles.mem_iff _ _).1 hm).2.2
    rw [List.singleton_append, hnone] at hsome
    cases hsome

/-- A tree with one migration. -/
def migrationTree : FileTree :=
  ({} : FileTree).addFile "m/a.sql" (Text.utf8 "CREATE TABLE t (a INT);".toList)

/-- The path `.//m` leads to a folder that holds a migration, and none is loaded from it. -/
theorem doubled_slash_loads_nothing :
    migrationTree.resolve? ".//m" = some ["m"] ∧ migrationTree.hasFolder ".//m" ∧
    (migrationTree.content? ["m", "a.sql"]).isSome ∧ ".sql".toList <:+ "a.sql".toList ∧
    (loadMigrations migrationTree ".//m").map (·.sources) = .ok [] := by
  decide +kernel

end SchemaDrift.Files
