import SchemaDrift.Proofs.Files.Load
import SchemaDrift.Verify.Run

/-!
# What a run depends on

A run has a result exactly if each of its stages has one: the filter, the migrations, the type file
and the modules (`verify_eq_ok_iff`). The result is then what the loaded sources give.

`SameInputs` says that two trees agree on the inputs that a run's check needs. A run has the same
outcome on such trees, and whether it has a result is told by a list of faults, made from the
options and from which inputs are there (`Options.faults`): the run ends with the first of them
(`verify_determined_by_inputs`). Neither what the inputs hold nor what is found in them is a fault.

One guard is named, that the leaf stays below the modules folder. A leaf may climb out of that
folder, and then the run reads a file that is no input (`climbing_leaf_leaves_folder`).
-/

namespace SchemaDrift

open Files

/-! ## Stages -/

/-- A computation made of two has a result if the first has one from which the second has one. -/
theorem except_bind_eq_ok_iff {ε α β : Type} {x : Except ε α} {f : α → Except ε β} {b : β} :
    x >>= f = .ok b ↔ ∃ a, x = .ok a ∧ f a = .ok b := by
  cases x with
  | error e => exact ⟨nofun, fun ⟨_, h, _⟩ => nomatch h⟩
  | ok a => exact ⟨fun h => ⟨a, rfl, h⟩, fun ⟨_, ha, h⟩ => by cases ha; exact h⟩

/-- A run has a result exactly if every stage has one, and the result is what the loaded sources
give. -/
theorem verify_eq_ok_iff {t : Files.FileTree} {o : Options} {v : Verification} :
    verify t o = .ok v ↔ ∃ filter migrations typeFile modules,
      o.tableFilter = .ok filter ∧ o.migrations t = .ok migrations ∧
      o.typeFile t = .ok typeFile ∧ o.modules t = .ok modules ∧
      verifySources o filter migrations.sources (typeFile.map (·.1)) (modules.map (·.sources)) =
        v := by
  simp only [verify, except_bind_eq_ok_iff]
  constructor
  · rintro ⟨f, hf, m, hm, ty, hty, mo, hmo, hv⟩
    cases hv
    exact ⟨f, m, ty, mo, hf, hm, hty, hmo, rfl⟩
  · rintro ⟨f, m, ty, mo, hf, hm, hty, hmo, rfl⟩
    exact ⟨f, hf, m, hm, ty, hty, mo, hmo, rfl⟩

/-! ## The error of a computation -/

section Errors

variable {ε ε' α β : Type}

/-- The error that a computation ends with. -/
def errorOf? : Except ε α → Option ε
  | .ok _ => none
  | .error e => some e

/-- A computation ends with an error if that is its value. -/
theorem errorOf?_eq_some_iff {x : Except ε α} {e : ε} : errorOf? x = some e ↔ x = .error e := by
  cases x <;> simp [errorOf?]

/-- A computation ends with no error if it has a result. -/
theorem errorOf?_eq_none_iff {x : Except ε α} : errorOf? x = none ↔ ∃ a, x = .ok a := by
  cases x <;> simp [errorOf?]

/-- Changing the result does not change the error. -/
theorem errorOf?_map (f : α → β) (x : Except ε α) : errorOf? (x.map f) = errorOf? x := by
  cases x <;> rfl

/-- Changing the error changes it and nothing else. -/
theorem errorOf?_mapError (f : ε → ε') (x : Except ε α) :
    errorOf? (x.mapError f) = (errorOf? x).map f := by
  cases x <;> rfl

/-- A computation made of two ends with the first error of the two. -/
theorem errorOf?_bind {x : Except ε α} {f : α → Except ε β} {es es' : List ε}
    (hx : errorOf? x = es.head?) (hf : ∀ a, x = .ok a → errorOf? (f a) = es'.head?) :
    errorOf? (x >>= f) = (es ++ es').head? := by
  rw [List.head?_append, ← hx]
  cases x with
  | error e => rfl
  | ok a => exact hf a rfl

/-- A computation on every element of a list ends with the first error of an element. -/
theorem errorOf?_mapM (f : α → Except ε β) (xs : List α) :
    errorOf? (xs.mapM f) = (xs.filterMap fun x => errorOf? (f x)).head? := by
  induction xs with
  | nil => rfl
  | cons x xs ih =>
    have hsplit : (x :: xs).filterMap (fun x => errorOf? (f x)) =
        (errorOf? (f x)).toList ++ xs.filterMap fun x => errorOf? (f x) := by
      cases hx : errorOf? (f x) <;> simp [hx]
    rw [List.mapM_cons, hsplit]
    refine errorOf?_bind (by cases errorOf? (f x) <;> rfl) fun b _ => ?_
    rw [← ih]
    cases xs.mapM f <;> rfl

end Errors

/-! ## Faults and inputs -/

/-- The faults that the texts of a filter are if they are no patterns. -/
def badPatterns (texts : List String) : List Fault :=
  (texts.filterMap fun text => errorOf? (Wildcard.Pattern.ofText text)).map fun e =>
    .invalidFilter e.message

/-- The fault that an input is if it is needed and not there. -/
def missing (kind : InputKind) (path : String) (needed found : Bool) : List Fault :=
  if needed && !found then [.missingInput kind path] else []

namespace Options

/-- What keeps a run from a result, in the order in which the run meets it: every text of the filter
that is no pattern, then every input that its check needs and that is not there. -/
def faults (o : Options) (t : FileTree) : List Fault :=
  badPatterns (o.includeTables ++ o.excludeTables) ++
    (missing .migrations o.migrationsDir true (t.hasFolder o.migrationsDir) ++
    (missing .types o.typesFile o.check.needsTypes (t.contentAt? o.typesFile).isSome ++
    missing .modules o.modulesDir o.check.needsModules (t.hasFolder o.modulesDir)))

variable (o : Options) (t : FileTree)

/-- The filter fails at the first pattern that is none. -/
theorem errorOf?_tableFilter :
    errorOf? o.tableFilter = (badPatterns (o.includeTables ++ o.excludeTables)).head? := by
  rw [tableFilter, errorOf?_mapError, badPatterns, List.head?_map, List.filterMap_append]
  refine congrArg _ (errorOf?_bind (errorOf?_mapM ..) fun included _ => ?_)
  rw [← errorOf?_mapM]
  cases o.excludeTables.mapM Wildcard.Pattern.ofText <;> rfl

/-- The migrations fail if their folder is not there. -/
theorem errorOf?_migrations : errorOf? (o.migrations t) =
    (missing .migrations o.migrationsDir true (t.hasFolder o.migrationsDir)).head? := by
  rw [migrations]
  by_cases h : t.hasFolder o.migrationsDir
  · obtain ⟨l, hl⟩ := exists_loadMigrations h
    rw [hl, missing, h]
    rfl
  · rw [loadMigrations, if_neg h, missing, Bool.eq_false_iff.2 h]
    rfl

/-- The type file fails if the check needs it and it is not there. -/
theorem errorOf?_typeFile : errorOf? (o.typeFile t) =
    (missing .types o.typesFile o.check.needsTypes (t.contentAt? o.typesFile).isSome).head? := by
  rw [typeFile]
  by_cases hneed : o.check.needsTypes
  · rw [if_pos hneed, errorOf?_map, hneed]
    cases h : t.contentAt? o.typesFile with
    | some bytes =>
      obtain ⟨l, hl⟩ := exists_loadTypes (Option.isSome_iff_exists.2 ⟨bytes, h⟩)
      rw [hl]
      rfl
    | none =>
      rw [FileTree.contentAt?] at h
      rw [loadTypes, h]
      rfl
  · rw [if_neg hneed, Bool.eq_false_iff.2 hneed]
    rfl

/-- The modules fail if the check needs them and their folder is not there. -/
theorem errorOf?_modules : errorOf? (o.modules t) =
    (missing .modules o.modulesDir o.check.needsModules (t.hasFolder o.modulesDir)).head? := by
  rw [modules]
  by_cases hneed : o.check.needsModules
  · rw [if_pos hneed, errorOf?_map, hneed]
    by_cases h : t.hasFolder o.modulesDir
    · obtain ⟨l, hl⟩ := exists_loadModules h
      rw [hl, h]
      rfl
    · rw [loadModules, if_neg h, Bool.eq_false_iff.2 h]
      rfl
  · rw [if_neg hneed, Bool.eq_false_iff.2 hneed]
    rfl

end Options

/-- A run ends with the first of its faults. -/
theorem errorOf?_verify (t : FileTree) (o : Options) :
    errorOf? (verify t o) = (o.faults t).head? := by
  refine errorOf?_bind o.errorOf?_tableFilter fun filter _ => ?_
  refine errorOf?_bind (o.errorOf?_migrations t) fun migrations _ => ?_
  refine errorOf?_bind (o.errorOf?_typeFile t) fun typeFile _ => ?_
  rw [← o.errorOf?_modules]
  cases o.modules t <;> rfl

/-- Two trees agree on the inputs that a run's check needs. -/
structure SameInputs (o : Options) (t t' : FileTree) : Prop where
  migrations : SameFolder t t' o.migrationsDir (·.length = 1)
  typeFile : o.check.needsTypes → t.contentAt? o.typesFile = t'.contentAt? o.typesFile
  modules : o.check.needsModules → SameFolder t t' o.modulesDir fun _ => True

/-- A run has the same outcome on trees that agree on the inputs its check needs. -/
theorem SameInputs.verify_eq {t t' : FileTree} {o : Options} (h : SameInputs o t t')
    (hleaf : o.check.needsModules → staysBelow o.moduleFile) : verify t o = verify t' o := by
  have hmigrations : o.migrations t = o.migrations t' := loadMigrations_congr h.migrations
  have htypes : o.typeFile t = o.typeFile t' := by
    rw [Options.typeFile, Options.typeFile]
    split
    · next hneed => rw [loadTypes_congr (h.typeFile hneed)]
    · rfl
  have hmodules : o.modules t = o.modules t' := by
    rw [Options.modules, Options.modules]
    split
    · next hneed => rw [loadModules_congr (h.modules hneed) (hleaf hneed)]
    · rfl
  rw [verify, verify, hmigrations, htypes, hmodules]

/-- A run depends on the inputs that its check needs and on nothing else, if the leaf stays below
the modules folder. It ends with the first of its faults and has a result if there is none; the
pattern of a search is never a fault. -/
theorem verify_determined_by_inputs (t : FileTree) (o : Options) :
    (∀ t', (o.check.needsModules → staysBelow o.moduleFile) → SameInputs o t t' →
      verify t o = verify t' o) ∧
    (∀ f, verify t o = .error f ↔ (o.faults t).head? = some f) ∧
    ((∃ v, verify t o = .ok v) ↔ o.faults t = []) ∧
    ∀ pattern reason, verify t o ≠ .error (.invalidPattern pattern reason) := by
  refine ⟨fun t' hleaf h => h.verify_eq hleaf, fun f => ?_, ?_, ?_⟩
  · rw [← errorOf?_verify, errorOf?_eq_some_iff]
  · rw [← List.head?_eq_none_iff, ← errorOf?_verify, errorOf?_eq_none_iff]
  · intro pattern reason h
    rw [← errorOf?_eq_some_iff, errorOf?_verify] at h
    have hm := List.mem_of_mem_head? h
    simp [Options.faults, badPatterns, missing] at hm

/-! ## A file outside the modules folder -/

/-- An entry that is added changes no other one. -/
theorem entry?_insert_of_ne {t : FileTree} {names k : List String} {e : Entry} (h : names ≠ k) :
    FileTree.entry? ⟨t.entries.insert k e⟩ names = t.entry? names := by
  simp [FileTree.entry?, SortedMap.insert, SortedMap.get?_update, h]

/-- A project with a folder inside its modules folder and no file. -/
def bareProject : FileTree :=
  (({} : FileTree).addFolder "m").addFolder "s/a"

/-- The same project with a file outside its modules folder. -/
def strayProject : FileTree :=
  bareProject.addFile "x.ts" (Text.utf8 "sb.from('t');".toList)

/-- The options of a run on those projects with a given leaf. -/
def strayOptions (leaf : String) : Options :=
  { migrationsDir := "m", modulesDir := "s", moduleFile := leaf, check := .usage }

/-- The stray project is the bare one with one more file. -/
theorem strayProject_eq : strayProject =
    ⟨bareProject.entries.insert ["x.ts"] (.file (Text.utf8 "sb.from('t');".toList))⟩ := by
  decide +kernel

/-- The two projects agree on every folder that they resolve to its own name. -/
theorem sameFolder_stray (dir : String) (asked : List String → Prop)
    (hfolder : bareProject.hasFolder dir = strayProject.hasFolder dir)
    (hdir : bareProject.resolve? dir = some [dir]) (hne : dir ≠ "x.ts") :
    SameFolder bareProject strayProject dir asked := by
  refine ⟨hfolder, fun _ base hbase inner _ _ => ?_⟩
  obtain rfl := Option.some.inj (hdir.symm.trans hbase)
  rw [strayProject_eq]
  exact (entry?_insert_of_ne (by simp [hne])).symm

/-- The two projects agree on the inputs of those runs. -/
theorem sameInputs_stray (leaf : String) :
    SameInputs (strayOptions leaf) bareProject strayProject where
  migrations := sameFolder_stray "m" _ (by decide +kernel) (by decide +kernel) (by decide)
  typeFile h := nomatch h
  modules _ := sameFolder_stray "s" _ (by decide +kernel) (by decide +kernel) (by decide)

/-- A leaf that climbs no higher than it went down does not see the file outside: both runs have the
same result. -/
theorem leaf_below_ignores_stray :
    staysBelow "a/../x.ts" ∧ SameInputs (strayOptions "a/../x.ts") bareProject strayProject ∧
    verify bareProject (strayOptions "a/../x.ts") = verify strayProject (strayOptions "a/../x.ts") ∧
    ∃ v, verify strayProject (strayOptions "a/../x.ts") = .ok v := by
  have hleaf : staysBelow "a/../x.ts" := by decide +kernel
  have same := sameInputs_stray "a/../x.ts"
  refine ⟨hleaf, same, ?_, ?_⟩
  · exact (verify_determined_by_inputs _ _).1 _ (fun _ => hleaf) same
  · exact (verify_determined_by_inputs _ _).2.2.1.2 (by decide +kernel)

/-- A leaf that climbs higher leads to the file outside, so the runs differ although the projects
agree on every input. -/
theorem climbing_leaf_leaves_folder :
    SameInputs (strayOptions "a/../../x.ts") bareProject strayProject ∧
    verify bareProject (strayOptions "a/../../x.ts") ≠
      verify strayProject (strayOptions "a/../../x.ts") :=
  ⟨sameInputs_stray _, by decide +kernel⟩

end SchemaDrift
