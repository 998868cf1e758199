import SchemaDrift.Proofs.Json.RoundTrip
import SchemaDrift.Proofs.Snapshot.Columns
import SchemaDrift.Proofs.Text.Decoding
import SchemaDrift.Snapshot.Json

/-!
# What a fingerprint identifies

The JSON value of a snapshot is read back as the snapshot (`Schema.ofJson?_toJson` and the lemmas
next to it), and every number in it is a natural number, so its text is read back as the value.

A fingerprint is the digest of the text of a snapshot on one line. The text can be read back, so
snapshots with the same text are equal (`Schema.compact_injective`, `RowTypes.compact_injective`),
whatever quotes, backslashes and brackets their names hold. Snapshots with the same fingerprint are
then equal unless their texts are a collision of the digest.
-/

namespace SchemaDrift

/-! ## Snapshots read back -/

/-- A column set is read back from its JSON value. -/
theorem ColumnSet.ofJson?_toJson (s : ColumnSet) : ofJson? s.toJson = some s := by
  rw [ofJson?, toJson, Json.asMap?_object Json.asTextSet?_strings]
  rfl

/-- The JSON value of a column set is plain. -/
theorem ColumnSet.plain_toJson (s : ColumnSet) : s.toJson.Plain :=
  .object (List.forall_mem_map.2 fun e _ => Json.plain_strings e.2.toList)

/-- A foreign key is read back from its JSON value. -/
theorem ForeignKey.ofJson?_toJson (fk : ForeignKey) : ofJson? fk.toJson = some fk := by
  simp [ofJson?, toJson, Json.asRecord?, Json.member?, Json.asText?]

/-- The JSON value of a foreign key is plain. -/
theorem ForeignKey.plain_toJson (fk : ForeignKey) : fk.toJson.Plain :=
  .object <| by simp [Json.Plain.string]

/-- A schema is read back from its JSON value. -/
theorem Schema.ofJson?_toJson (s : Schema) : ofJson? s.toJson = some s := by
  simp [ofJson?, toJson, Json.asRecord?, Json.member?, ColumnSet.ofJson?_toJson,
    Json.asList?_array ForeignKey.ofJson?_toJson]

/-- The JSON value of a schema is plain. -/
theorem Schema.plain_toJson (s : Schema) : s.toJson.Plain := by
  refine .object fun m hm => ?_
  simp only [List.mem_cons, List.not_mem_nil, or_false] at hm
  rcases hm with rfl | rfl
  · exact s.columns.plain_toJson
  · exact .array (List.forall_mem_map.2 fun fk _ => fk.plain_toJson)

/-- Declared types are read back from their JSON value. -/
theorem RowTypes.ofJson?_toJson (t : RowTypes) : ofJson? t.toJson = some t := by
  simp [ofJson?, toJson, Json.asRecord?, Json.member?, ColumnSet.ofJson?_toJson]

/-- The JSON value of declared types is plain. -/
theorem RowTypes.plain_toJson (t : RowTypes) : t.toJson.Plain :=
  .object (List.forall_mem_singleton.2 t.columns.plain_toJson)

/-! ## Fingerprints -/

/-- Two byte sequences that differ and have the same digest. -/
def Sha256.Collision (x y : List UInt8) : Prop :=
  x ≠ y ∧ hex x = hex y

namespace Json

/-- A value is determined by its text on one line. -/
theorem eq_of_compact_eq {v w : Json} (hv : v.Plain) (hw : w.Plain) (h : v.compact = w.compact) :
    v = w := by
  have hread : some v = some w := by
    rw [← ofText?_write none hv, ← ofText?_write none hw]
    exact congrArg ofText? h
  exact Option.some.inj hread

/-- The bytes of which a fingerprint is the digest: those of the text on one line. -/
def hashedBytes (v : Json) : List UInt8 :=
  Text.utf8 v.compact.toList

/-- A fingerprint is the digest of the bytes of the text on one line. -/
theorem fingerprint_eq (v : Json) : v.fingerprint = Sha256.hex v.hashedBytes := by
  rw [fingerprint, hashedBytes, compact, String.toList_ofList]

/-- Values with the same fingerprint have the same text, or their texts collide. -/
theorem fingerprint_eq_iff (v w : Json) : v.fingerprint = w.fingerprint ↔
    v.compact = w.compact ∨ Sha256.Collision v.hashedBytes w.hashedBytes := by
  rw [fingerprint_eq, fingerprint_eq]
  constructor
  · intro h
    by_cases hb : v.hashedBytes = w.hashedBytes
    · exact .inl (String.toList_injective (Text.utf8_injective hb))
    · exact .inr ⟨hb, h⟩
  · rintro (h | h)
    · rw [hashedBytes, hashedBytes, h]
    · exact h.2

end Json

/-- A schema is determined by its text on one line. -/
theorem Schema.compact_injective : Function.Injective fun s : Schema => s.toJson.compact := by
  intro s s' h
  have hjson : s.toJson = s'.toJson := Json.eq_of_compact_eq s.plain_toJson s'.plain_toJson h
  have hread := congrArg Schema.ofJson? hjson
  rw [Schema.ofJson?_toJson, Schema.ofJson?_toJson] at hread
  exact Option.some.inj hread

/-- Declared types are determined by their text on one line. -/
theorem RowTypes.compact_injective : Function.Injective fun t : RowTypes => t.toJson.compact := by
  intro t t' h
  have hjson : t.toJson = t'.toJson := Json.eq_of_compact_eq t.plain_toJson t'.plain_toJson h
  have hread := congrArg RowTypes.ofJson? hjson
  rw [RowTypes.ofJson?_toJson, RowTypes.ofJson?_toJson] at hread
  exact Option.some.inj hread

/-- **Fingerprints identify snapshots up to collisions.** The text of which a fingerprint is the
digest determines the schema, with the order of its foreign keys, and the declared types. Two
schemas or two sets of declared types have the same fingerprint exactly if they are equal or their
texts collide. Column sets made by insertions give the same text exactly if the same tables were
named and the same columns inserted, in whatever order. -/
theorem fingerprint_identifies :
    Function.Injective (fun s : Schema => s.toJson.compact) ∧
    Function.Injective (fun t : RowTypes => t.toJson.compact) ∧
    (∀ s s' : Schema, s.fingerprint = s'.fingerprint ↔
      s = s' ∨ Sha256.Collision s.toJson.hashedBytes s'.toJson.hashedBytes) ∧
    (∀ t t' : RowTypes, t.fingerprint = t'.fingerprint ↔
      t = t' ∨ Sha256.Collision t.toJson.hashedBytes t'.toJson.hashedBytes) ∧
    ∀ (is js : List ColumnSet.Insertion) (keys : List ForeignKey),
      ((Schema.mk (.ofInsertions is) keys).toJson.compact =
        (Schema.mk (.ofInsertions js) keys).toJson.compact ↔ ColumnSet.SameInsertions is js) ∧
      ((RowTypes.mk (.ofInsertions is)).toJson.compact =
        (RowTypes.mk (.ofInsertions js)).toJson.compact ↔ ColumnSet.SameInsertions is js) := by
  refine ⟨Schema.compact_injective, RowTypes.compact_injective, fun s s' => ?_, fun t t' => ?_,
    fun is js keys => ⟨?_, ?_⟩⟩
  · rw [Schema.fingerprint, Schema.fingerprint, Json.fingerprint_eq_iff]
    exact or_congr_left Schema.compact_injective.eq_iff
  · rw [RowTypes.fingerprint, RowTypes.fingerprint, Json.fingerprint_eq_iff]
    exact or_congr_left RowTypes.compact_injective.eq_iff
  · rw [← ColumnSet.ofInsertions_eq_iff]
    refine Schema.compact_injective.eq_iff.trans ?_
    rw [Schema.mk.injEq, and_iff_left rfl]
  · rw [← ColumnSet.ofInsertions_eq_iff]
    refine RowTypes.compact_injective.eq_iff.trans ?_
    rw [RowTypes.mk.injEq]

end SchemaDrift
