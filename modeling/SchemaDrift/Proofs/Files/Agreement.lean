import SchemaDrift.Proofs.Files.Search

/-!
# Trees that agree on a folder

`SameFolder` says that two trees agree on a folder: both have it or neither, and the same stands at
the names inside it that are asked for. The migrations are found by asking for the names directly
inside their folder (`filesEndingIn_congr`). The modules are found by asking for all names below
theirs (`filesAtLeaf_congr`), as long as the leaf does not lead out of that folder: a leaf is a
path, and `staysBelow` says that it never climbs higher than it went down before.
-/

namespace SchemaDrift.Files

variable {base inner : List String}

/-- What a search picks among the contents of a place is the same in trees that agree on it. -/
theorem filterMap_contents_congr {t t' : FileTree} {p : Place} {β : Type}
    {pick : List String → Option β}
    (h : ∀ inner, isInner inner → (pick inner).isSome →
      t.entry? (p.names ++ inner) = t'.entry? (p.names ++ inner)) :
    (contents t p).filterMap pick = (contents t' p).filterMap pick := by
  rw [contents, contents, List.filterMap_filterMap, List.filterMap_filterMap]
  refine SortedMap.filterMap_entries_congr
    (fun names => ((namesBelow? p.names names).filter isInner).bind pick) fun names hs => ?_
  obtain ⟨b, hb⟩ := Option.isSome_iff_exists.1 hs
  obtain ⟨inner, hin, hpick⟩ := Option.bind_eq_some_iff.1 hb
  obtain ⟨hbelow, hinner⟩ := Option.filter_eq_some_iff.1 hin
  obtain rfl := namesBelow?_eq_some_iff.1 hbelow
  have hentry := h inner hinner (by rw [hpick]; rfl)
  rw [t.entry?_append _ hinner, t'.entry?_append _ hinner] at hentry
  rw [SortedMap.mem_keys, SortedMap.mem_keys, hentry]

/-- The files that a search picks below a place are the same in trees that agree on what is picked
and on where it leads. -/
theorem sortedFiles_contents_congr {t t' : FileTree} {p : Place}
    {pick pick' : List String → Option Place}
    (hpick : ∀ inner, isInner inner → pick inner = pick' inner)
    (h : ∀ inner q, isInner inner → pick inner = some q →
      t.entry? (p.names ++ inner) = t'.entry? (p.names ++ inner) ∧
        t.entry? q.names = t'.entry? q.names) :
    sortedFiles t ((contents t p).filterMap pick) =
      sortedFiles t' ((contents t' p).filterMap pick') := by
  have hfound : (contents t p).filterMap pick = (contents t' p).filterMap pick' :=
    calc (contents t p).filterMap pick
        = (contents t' p).filterMap pick := filterMap_contents_congr fun inner hinner hs => by
          obtain ⟨q, hq⟩ := Option.isSome_iff_exists.1 hs
          exact (h inner q hinner hq).1
      _ = (contents t' p).filterMap pick' :=
          List.filterMap_congr fun inner hm => hpick inner (isInner_of_mem_contents hm)
  have hfiles : (((contents t p).filterMap pick).filterMap fun q =>
        (t.content? q.names).map fun bytes => (q, bytes)) =
      ((contents t p).filterMap pick).filterMap fun q =>
        (t'.content? q.names).map fun bytes => (q, bytes) := by
    refine List.filterMap_congr fun q hq => ?_
    obtain ⟨inner, hm, hq⟩ := List.mem_filterMap.1 hq
    rw [FileTree.content?, FileTree.content?, (h inner q (isInner_of_mem_contents hm) hq).2]
  rw [sortedFiles, hfiles, hfound, sortedFiles]

/-! ## Agreement on a folder -/

/-- Two trees agree on the folder at a path: both have it or neither, and the same stands at the
names inside it that are asked for. -/
structure SameFolder (t t' : FileTree) (dir : String) (asked : List String → Prop) : Prop where
  hasFolder_eq : t.hasFolder dir = t'.hasFolder dir
  entry?_eq : t.hasFolder dir → ∀ base, t.resolve? dir = some base →
    ∀ inner, isInner inner → asked inner → t.entry? (base ++ inner) = t'.entry? (base ++ inner)

namespace SameFolder

variable {t t' : FileTree} {dir : String} {asked : List String → Prop}

/-- Trees that agree on a folder find it at the same place. -/
theorem folderPlace?_eq (h : SameFolder t t' dir asked) (hdir : t.hasFolder dir) :
    folderPlace? t dir = folderPlace? t' dir :=
  folderPlace?_congr hdir (h.hasFolder_eq ▸ hdir)

/-- Trees that agree on a folder have the same entries inside it, as far as they are asked for. -/
theorem entry?_place (h : SameFolder t t' dir asked) (hdir : t.hasFolder dir) {p : Place}
    (hp : folderPlace? t dir = some p) (hinner : isInner inner) (hasked : asked inner) :
    t.entry? (p.names ++ inner) = t'.entry? (p.names ++ inner) :=
  h.entry?_eq hdir p.names (resolve?_of_folderPlace? hdir hp) inner hinner hasked

/-- The place of a folder that both trees have is a folder in both. -/
theorem entry?_here (h : SameFolder t t' dir asked) (hdir : t.hasFolder dir) {p : Place}
    (hp : folderPlace? t dir = some p) : t.entry? p.names = t'.entry? p.names := by
  have hdir' : t'.hasFolder dir := h.hasFolder_eq ▸ hdir
  have hr := resolve?_of_folderPlace? hdir hp
  have hr' := resolve?_of_folderPlace? hdir' (h.folderPlace?_eq hdir ▸ hp)
  obtain ⟨a, ha, hfolder⟩ := FileTree.exists_resolve?_of_hasFolder hdir
  obtain ⟨b, hb, hfolder'⟩ := FileTree.exists_resolve?_of_hasFolder hdir'
  obtain rfl := Option.some.inj (hr.symm.trans ha)
  obtain rfl := Option.some.inj (hr'.symm.trans hb)
  rw [of_decide_eq_true hfolder, of_decide_eq_true hfolder']

end SameFolder

/-- The name of something directly inside a place, if it ends in a given way, leads to its place. -/
theorem map_filter_namesInside (t : FileTree) (p : Place) (test : String → Bool) :
    ((namesInside t p).filter test).map (fun n => p.below [n]) =
      (contents t p).filterMap fun names =>
        ((onlyName? names).filter test).map fun n => p.below [n] := by
  rw [namesInside, List.filter_filterMap, List.map_filterMap]

/-- The files directly inside a folder are the same in trees that agree on what stands there. -/
theorem filesEndingIn_congr {t t' : FileTree} {dir ending : String}
    (h : SameFolder t t' dir (·.length = 1)) (hdir : t.hasFolder dir) :
    filesEndingIn t dir ending = filesEndingIn t' dir ending := by
  rw [filesEndingIn, filesEndingIn, ← h.folderPlace?_eq hdir]
  cases hp : folderPlace? t dir with
  | none =>
    rw [Option.toList_none, List.flatMap_nil, List.flatMap_nil, sortedFiles_nil, sortedFiles_nil]
  | some p =>
    rw [Option.toList_some, List.flatMap_singleton, List.flatMap_singleton, map_filter_namesInside,
      map_filter_namesInside]
    refine sortedFiles_contents_congr (fun _ _ => rfl) fun inner q hinner hq => ?_
    obtain ⟨n, hn, rfl⟩ := Option.map_eq_some_iff.1 hq
    obtain rfl := onlyName?_eq_some_iff.1 (Option.filter_eq_some_iff.1 hn).1
    have he := h.entry?_place hdir hp hinner rfl
    exact ⟨he, he⟩

/-! ## Leaves that stay below a folder -/

/-- How far below a folder a piece leads, from how far below it is followed. What leads out of the
folder has no level. -/
def levelAfter (level : Nat) (piece : String) : Option Nat :=
  if piece = "" ∨ piece = "." then some level
  else if piece = ".." then (if level = 0 then none else some (level - 1))
  else some (level + 1)

/-- Whether a leaf stays below a folder, wherever below it its first piece is found. -/
def staysBelow (leaf : String) : Bool :=
  ((pieces leaf).tail.foldlM levelAfter 1).isSome

/-- A piece that does not lead out of a folder leads to a place in the folder, as far below it as
its level says. -/
theorem exists_inner_destination {piece : String} {level level' : Nat}
    (hin : inner = [] ∨ isInner inner) (hlevel : level ≤ inner.length) (hpiece : piece ≠ "/")
    (hafter : levelAfter level piece = some level') :
    ∃ inner', destination (base ++ inner) piece = base ++ inner' ∧
      (inner' = [] ∨ isInner inner') ∧ level' ≤ inner'.length := by
  rw [levelAfter] at hafter
  rw [destination]
  split at hafter
  · next hstay =>
    cases hafter
    exact ⟨inner, if_pos hstay, hin, hlevel⟩
  · next hstay =>
    rw [if_neg hstay]
    split at hafter
    · next hup =>
      split at hafter
      · cases hafter
      · next hpos =>
        cases hafter
        -- There is room to climb, so the place is not the folder itself.
        have hinner := hin.resolve_left (List.ne_nil_of_length_pos (by omega))
        rw [if_pos hup, outerNames_append base hinner]
        refine ⟨inner.dropLast, rfl, isInner_dropLast hinner, ?_⟩
        rw [List.length_dropLast]
        omega
    · next hup =>
      cases hafter
      rw [if_neg hup, List.append_assoc]
      exact ⟨inner ++ [piece], rfl, .inr (isInner_concat hin ⟨hup, hpiece⟩),
        by simpa using hlevel⟩

section Walks

variable {t t' : FileTree}
  (same : ∀ inner, inner = [] ∨ isInner inner →
    t.entry? (base ++ inner) = t'.entry? (base ++ inner))
include same

/-- A step inside a folder leads to the same place in both trees. -/
theorem step_congr {piece : String} (hin : inner = [] ∨ isInner inner) (hpiece : piece ≠ "/") :
    t.step (base ++ inner) piece = t'.step (base ++ inner) piece := by
  have hfolder : t.isFolder (base ++ inner) = t'.isFolder (base ++ inner) := by
    rw [FileTree.isFolder, FileTree.isFolder, same inner hin]
  simp only [FileTree.step, ← hfolder]
  by_cases hup : piece = ".."
  · simp [hup]
  · rw [List.append_assoc, same _ (.inr (isInner_concat hin ⟨hup, hpiece⟩))]

/-- Frame for walks: pieces that do not lead out of a folder are walked to the same place in trees
that agree on the folder, and that place is in the folder. -/
theorem foldlM_walk_agree {ps : List String} {p : Place} {level : Nat}
    (hp : p.names = base ++ inner) (hin : inner = [] ∨ isInner inner)
    (hlevel : level ≤ inner.length) (hps : ∀ piece ∈ ps, piece ≠ "/")
    (hafter : (ps.foldlM levelAfter level).isSome) :
    ps.foldlM (Place.walk t) p = ps.foldlM (Place.walk t') p ∧
      ∀ q, ps.foldlM (Place.walk t) p = some q →
        ∃ inner', q.names = base ++ inner' ∧ (inner' = [] ∨ isInner inner') := by
  induction ps generalizing p inner level with
  | nil => exact ⟨rfl, fun q hq => ⟨inner, by rw [← Option.some.inj hq, hp], hin⟩⟩
  | cons piece ps ih =>
    rw [List.foldlM_cons] at hafter
    obtain ⟨last, hlast⟩ := Option.isSome_iff_exists.1 hafter
    obtain ⟨level', hl, hrest⟩ := Option.bind_eq_some_iff.1 hlast
    have hpiece := hps piece List.mem_cons_self
    rw [List.foldlM_cons, List.foldlM_cons, Place.walk, Place.walk, hp,
      ← step_congr same hin hpiece]
    split
    · refine ⟨rfl, fun q hq => ?_⟩
      cases hq
    cases hn : t.step (base ++ inner) piece with
    | none =>
      refine ⟨rfl, fun q hq => ?_⟩
      cases hq
    | some names =>
      obtain ⟨inner', hnames, hin', hlevel'⟩ := exists_inner_destination hin hlevel hpiece hl
      rw [← FileTree.eq_destination_of_step hn] at hnames
      exact ih (p := ⟨p.inside piece, names⟩) hnames hin' hlevel'
        (fun x hx => hps x (List.mem_cons_of_mem _ hx)) (by rw [hrest]; rfl)

end Walks

/-- The files that a leaf leads to are the same in trees that agree on the folder, if the leaf stays
below it. -/
theorem filesAtLeaf_congr {t t' : FileTree} {dir leaf : String}
    (h : SameFolder t t' dir fun _ => True) (hdir : t.hasFolder dir) (hleaf : staysBelow leaf) :
    filesAtLeaf t dir leaf = filesAtLeaf t' dir leaf := by
  rw [filesAtLeaf, filesAtLeaf, ← h.folderPlace?_eq hdir]
  split
  · rfl
  cases hp : folderPlace? t dir with
  | none =>
    rw [Option.toList_none, List.flatMap_nil, List.flatMap_nil, sortedFiles_nil, sortedFiles_nil]
  | some p =>
    have same : ∀ inner, inner = [] ∨ isInner inner →
        t.entry? (p.names ++ inner) = t'.entry? (p.names ++ inner) := by
      rintro inner (rfl | hinner)
      · rw [List.append_nil]
        exact h.entry?_here hdir hp
      · exact h.entry?_place hdir hp hinner trivial
    have hwalk := fun inner (hinner : isInner inner) =>
      foldlM_walk_agree same (p := p.below inner) rfl (.inr hinner)
        (List.length_pos_iff.2 (by rintro rfl; cases hinner) : 1 ≤ inner.length)
        (fun piece hm => ne_slash_of_mem_pieces (List.mem_of_mem_tail hm)) hleaf
    rw [Option.toList_some, List.flatMap_singleton, List.flatMap_singleton, placesAtLeaf,
      placesAtLeaf, List.filterMap_filter, List.filterMap_filter]
    refine sortedFiles_contents_congr (fun inner hinner => ?_) fun inner q hinner hq => ?_
    · rw [(hwalk inner hinner).1]
    · split at hq
      · obtain ⟨inner', hnames, hin'⟩ := (hwalk inner hinner).2 q hq
        rw [hnames]
        exact ⟨same inner (.inr hinner), same inner' hin'⟩
      · cases hq

end SchemaDrift.Files
