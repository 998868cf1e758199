import SchemaDrift.Proofs.Files.Agreement

/-!
# What loading an input depends on

No search is a fault, because the path of its folder and the leaf are escaped
(`searched_migrations`, `searched_modules`). So a loader fails exactly if its input is not there,
and it loads the same from two trees that agree on that input: on the names directly inside the
migrations folder, on the content of the type file, and on all names below the modules folder. The
last needs a leaf that stays below that folder (`staysBelow`).
-/

namespace SchemaDrift.Files

open Wildcard

/-- The search for migrations has a valid pattern. -/
theorem searched_migrations {t : FileTree} {dir : String} (h : t.hasFolder dir) :
    searched t (searchPattern dir "*.sql") = .ok (filesEndingIn t dir ".sql") := by
  rw [searched, search_migrations h]
  rfl

/-- The search for modules has a valid pattern. -/
theorem searched_modules {t : FileTree} {dir : String} (h : t.hasFolder dir) (leaf : String) :
    searched t (searchPattern dir ("**/" ++ escape leaf)) = .ok (filesAtLeaf t dir leaf) := by
  rw [searched, search_modules h]
  rfl

/-- Migrations are loaded from every folder. -/
theorem exists_loadMigrations {t : FileTree} {dir : String} (h : t.hasFolder dir) :
    ∃ l, loadMigrations t dir = .ok l := by
  rw [loadMigrations, if_pos h, searched_migrations h]
  exact ⟨_, rfl⟩

/-- Modules are loaded from every folder, whatever the leaf. -/
theorem exists_loadModules {t : FileTree} {dir leaf : String} (h : t.hasFolder dir) :
    ∃ l, loadModules t dir leaf = .ok l := by
  rw [loadModules, if_pos h, searched_modules h]
  exact ⟨_, rfl⟩

/-- Migrations depend only on what is directly inside their folder. -/
theorem loadMigrations_congr {t t' : FileTree} {dir : String}
    (h : SameFolder t t' dir (·.length = 1)) : loadMigrations t dir = loadMigrations t' dir := by
  rw [loadMigrations, loadMigrations, ← h.hasFolder_eq]
  split
  · next hdir =>
    rw [searched_migrations hdir, searched_migrations (h.hasFolder_eq ▸ hdir),
      filesEndingIn_congr h hdir]
  · rfl

/-- Modules depend only on what is inside their folder, if the leaf stays below it. -/
theorem loadModules_congr {t t' : FileTree} {dir leaf : String}
    (h : SameFolder t t' dir fun _ => True) (hleaf : staysBelow leaf) :
    loadModules t dir leaf = loadModules t' dir leaf := by
  rw [loadModules, loadModules, ← h.hasFolder_eq]
  split
  · next hdir =>
    rw [searched_modules hdir, searched_modules (h.hasFolder_eq ▸ hdir),
      filesAtLeaf_congr h hdir hleaf]
  · rfl

/-- The content of the file at a path. -/
def FileTree.contentAt? (t : FileTree) (path : String) : Option (List UInt8) :=
  (t.resolve? path).bind t.content?

/-- A type file that is there is loaded. -/
theorem exists_loadTypes {t : FileTree} {path : String} (h : (t.contentAt? path).isSome) :
    ∃ l, loadTypes t path = .ok l := by
  obtain ⟨bytes, hb⟩ := Option.isSome_iff_exists.1 h
  rw [FileTree.contentAt?] at hb
  rw [loadTypes, hb]
  exact ⟨_, rfl⟩

/-- The type file depends only on the content at its path. -/
theorem loadTypes_congr {t t' : FileTree} {path : String}
    (h : t.contentAt? path = t'.contentAt? path) : loadTypes t path = loadTypes t' path := by
  simp only [FileTree.contentAt?] at h
  rw [loadTypes, loadTypes, h]

end SchemaDrift.Files
