import Shardwise.Proofs.Shards.Record

/-!
# The schema of shard documents

`ShardRecord.fields` writes a record into four fields, two of which may be missing, and
`ShardRecord.ofDocument` reads them out of any document.  The two are written apart, and a
document may hold other fields as well, or a null where nothing was written.  This module
says that they agree.

* `Document.IsShard` is what the schema asks of a document, and `Document.shardFields` what it
  keeps of one.
* `ShardRecord.ownerOf_eq_ok` to `timeOf_eq_ok` say of each field what is read of it.
* `ShardRecord.ofDocument_eq_ok_iff_fields` puts them together: a document is read as the
  record that is stored as what the schema keeps of the document.
* `ShardRecord.schema` is the result, in both directions.
-/

namespace Shardwise

/-! ## Numbers and names -/

namespace Value

/-- The three kinds of numbers. -/
inductive IsNumber : Value → Prop where
  | int (n : Int64) : IsNumber (.int n)
  | uint (n : UInt64) : IsNumber (.uint n)
  | float (x : Float) : IsNumber (.float x)

theorem isNumeric_iff {value : Value} : value.isNumeric = true ↔ value.IsNumber := by
  cases value with
  | int n => exact ⟨fun _ => .int n, fun _ => rfl⟩
  | uint n => exact ⟨fun _ => .uint n, fun _ => rfl⟩
  | float x => exact ⟨fun _ => .float x, fun _ => rfl⟩
  | _ => exact ⟨nofun, nofun⟩

/-- Null stands for no value. -/
def isNull : Value → Bool
  | .null => true
  | _ => false

theorem isNull_eq_true {value : Value} : value.isNull = true ↔ value = .null := by
  cases value <;> simp [isNull]

end Value

namespace Level

/-- What a document can call its level. -/
def names : List String := ["Total", "Year", "Month", "Day", "Hour"]

theorem ofName_eq_ok {text : String} {level : Level} :
    ofName text = .ok level ↔ level.name = text := by
  constructor
  · intro h
    unfold ofName at h
    split at h
    · rename_i found hfound
      cases h
      simpa using List.find?_some hfound
    · cases h
  · rintro rfl
    cases level <;> rfl

theorem mem_names {text : String} : text ∈ names ↔ ∃ level : Level, level.name = text := by
  constructor
  · intro h
    simp only [names, List.mem_cons, List.not_mem_nil, or_false] at h
    rcases h with rfl | rfl | rfl | rfl | rfl
    · exact ⟨.total, rfl⟩
    · exact ⟨.year, rfl⟩
    · exact ⟨.month, rfl⟩
    · exact ⟨.day, rfl⟩
    · exact ⟨.hour, rfl⟩
  · rintro ⟨level, rfl⟩
    cases level <;> decide

end Level

/-! ## What the schema asks for and what it keeps -/

namespace Document

variable {document : Document} {name : String} {value : Value}

/-- A document that a shard can be read from. -/
structure IsShard (document : Document) : Prop where
  /-- The owner is a text. -/
  owner : ∃ owner, document.get? ownerField = some (.text owner)
  /-- The value is a number. -/
  value : ∃ value, document.get? valueField = some value ∧ value.IsNumber
  /-- The level is missing or null, or it has the name of one. -/
  level : ∀ value, document.get? levelField = some value →
    value = .null ∨ ∃ name ∈ Level.names, value = .text name
  /-- The time is missing or null, or it is one. -/
  time : ∀ value, document.get? timeField = some value → value = .null ∨ ∃ t, value = .time t

/-- The value of a field that may be missing.  Null is as good as missing. -/
def given? (document : Document) (name : String) : Option Value :=
  (document.get? name).filter fun value => !value.isNull

theorem given?_eq_some :
    document.given? name = some value ↔ document.get? name = some value ∧ value ≠ .null := by
  simp [given?, Option.filter_eq_some_iff, ← Value.isNull_eq_true]

/-- A field that may be missing has one of some values if nothing else than these and null
stands there. -/
theorem exists_given?_iff {α : Type} {write : α → Value} :
    (∃ content : Option α, document.given? name = content.map write) ↔
      ∀ value, document.get? name = some value → value = .null ∨ ∃ a, value = write a := by
  constructor
  · rintro ⟨content, hcontent⟩ value hvalue
    by_cases hnull : value = .null
    · exact .inl hnull
    · have hgiven := given?_eq_some.mpr ⟨hvalue, hnull⟩
      rw [hcontent, Option.map_eq_some_iff] at hgiven
      obtain ⟨a, -, ha⟩ := hgiven
      exact .inr ⟨a, ha.symm⟩
  · intro h
    cases hgiven : document.given? name with
    | none => exact ⟨none, rfl⟩
    | some value =>
      obtain ⟨hvalue, hnull⟩ := given?_eq_some.mp hgiven
      obtain ⟨a, rfl⟩ := (h value hvalue).resolve_left hnull
      exact ⟨some a, rfl⟩

end Document

/-- The schema keeps the owner and the value as they are, and the level and the time unless
they are null. -/
def ShardRecord.keeps (name : String) (value : Value) : Bool :=
  name == ownerField || name == valueField ||
    (name == levelField || name == timeField) && !value.isNull

/-- The part of a document that the schema keeps. -/
def Document.shardFields (document : Document) : Fields :=
  document.fields.filter ShardRecord.keeps

theorem Document.getElem?_shardFields (document : Document) (name : String) :
    document.shardFields[name]? =
      if name = ownerField ∨ name = valueField then document.get? name
      else if name = levelField ∨ name = timeField then document.given? name
      else none := by
  have hkept : document.shardFields[name]? =
      (document.get? name).filter (ShardRecord.keeps name) := by
    unfold shardFields get?
    rw [Std.ExtTreeMap.getElem?_filter']
  rw [hkept]
  unfold given? ShardRecord.keeps
  cases document.get? name <;> grind

namespace ShardRecord

variable {document : Document} {record : ShardRecord}

/-! ## Reading a field -/

theorem ownerOf_eq_ok {owner : String} :
    ownerOf document = .ok owner ↔ document.get? ownerField = some (.text owner) := by
  unfold ownerOf Document.field
  cases document.get? ownerField with
  | none => simp [bind, Except.bind]
  | some value =>
    cases value with
    | text name => simp [bind, Except.bind, pure, Except.pure]
    | _ => simp [bind, Except.bind, throw, throwThe, MonadExceptOf.throw]

theorem valueOf_eq_ok {value : Value} :
    valueOf document = .ok value ↔ document.get? valueField = some value ∧ value.IsNumber := by
  unfold valueOf Document.field
  cases document.get? valueField with
  | none => simp [bind, Except.bind]
  | some stored =>
    simp only [bind, Except.bind, pure, Except.pure, Option.some.injEq]
    split
    · rename_i hnumeric
      rw [Except.ok.injEq]
      constructor
      · rintro rfl
        exact ⟨rfl, Value.isNumeric_iff.mp hnumeric⟩
      · exact And.left
    · rename_i hnumeric
      constructor
      · nofun
      · rintro ⟨rfl, hnumber⟩
        exact absurd (Value.isNumeric_iff.mpr hnumber) hnumeric

theorem levelOf_eq_ok {level : Option Level} :
    levelOf document = .ok level ↔
      document.given? levelField = level.map fun level => .text level.name := by
  unfold levelOf Document.given?
  cases document.get? levelField with
  | none => cases level <;> simp
  | some value =>
    cases value with
    | null => cases level <;> simp [Value.isNull]
    | text name =>
      have hgiven : (some (Value.text name)).filter (fun value => !value.isNull) =
          some (.text name) := rfl
      dsimp only
      rw [hgiven]
      cases level with
      | none => cases Level.ofName name <;> simp [Functor.map, Except.map]
      | some level =>
        have hread : some <$> Level.ofName name = .ok (some level) ↔
            Level.ofName name = .ok level := by
          cases Level.ofName name <;> simp [Functor.map, Except.map]
        rw [hread, Level.ofName_eq_ok]
        simp [eq_comm]
    | _ => cases level <;> simp [Value.isNull]

theorem timeOf_eq_ok {time : Option Instant} :
    timeOf document = .ok time ↔ document.given? timeField = time.map .time := by
  unfold timeOf Document.given?
  cases document.get? timeField with
  | none => cases time <;> simp
  | some value =>
    cases value with
    | time t => cases time <;> simp [Value.isNull]
    | _ => cases time <;> simp [Value.isNull]

/-! ## Reading a record -/

/-- A record is read when its four fields are. -/
theorem ofDocument_eq_ok_iff :
    ofDocument document = .ok record ↔
      ownerOf document = .ok record.owner ∧ valueOf document = .ok record.value ∧
        levelOf document = .ok record.level ∧ timeOf document = .ok record.time := by
  obtain ⟨owner, value, level, time⟩ := record
  unfold ofDocument
  cases ownerOf document <;> cases valueOf document <;> cases levelOf document <;>
    cases timeOf document <;> simp [bind, Except.bind, pure, Except.pure]

/-- The value and the time of a record are those of its document. -/
theorem ofDocument_eq_ok (h : ofDocument document = .ok record) :
    document.field valueField = .ok record.value ∧
      ∀ time, record.time = some time → document.get? timeField = some (.time time) := by
  obtain ⟨-, hvalue, -, htime⟩ := ofDocument_eq_ok_iff.mp h
  constructor
  · rw [Document.field, (valueOf_eq_ok.mp hvalue).1]
  · intro time hsome
    rw [timeOf_eq_ok, hsome, Option.map_some, Document.given?_eq_some] at htime
    exact htime.1

/-- A record is stored as what the schema keeps of a document if the four fields say the
same. -/
theorem fields_eq_shardFields_iff :
    record.fields = document.shardFields ↔
      document.get? ownerField = some (.text record.owner) ∧
        document.get? valueField = some record.value ∧
        document.given? levelField = (record.level.map fun level => .text level.name) ∧
        document.given? timeField = record.time.map .time := by
  have hfields := record.getElem?_fields
  have hkept := document.getElem?_shardFields
  constructor
  · intro h
    rw [h] at hfields
    exact ⟨(hkept ownerField).symm.trans (hfields ownerField),
      (hkept valueField).symm.trans (hfields valueField),
      (hkept levelField).symm.trans (hfields levelField),
      (hkept timeField).symm.trans (hfields timeField)⟩
  · rintro ⟨howner, hvalue, hlevel, htime⟩
    apply Std.ExtTreeMap.ext_getElem?
    intro name
    rw [hfields, hkept]
    grind

/-- Reading a document and storing a record are two sides of one relation. -/
theorem ofDocument_eq_ok_iff_fields :
    ofDocument document = .ok record ↔
      record.value.IsNumber ∧ record.fields = document.shardFields := by
  rw [ofDocument_eq_ok_iff, fields_eq_shardFields_iff, ownerOf_eq_ok, valueOf_eq_ok,
    levelOf_eq_ok, timeOf_eq_ok]
  constructor
  · rintro ⟨howner, ⟨hvalue, hnumber⟩, hlevel, htime⟩
    exact ⟨hnumber, howner, hvalue, hlevel, htime⟩
  · rintro ⟨hnumber, howner, hvalue, hlevel, htime⟩
    exact ⟨howner, ⟨hvalue, hnumber⟩, hlevel, htime⟩

/-- The schema keeps all that a record is stored as. -/
theorem shardFields_document (record : ShardRecord) :
    record.document.shardFields = record.fields := by
  symm
  rw [fields_eq_shardFields_iff]
  refine ⟨record.get?_owner, record.get?_value, ?_, ?_⟩
  · rw [Document.given?, record.get?_level]
    cases record.level <;> rfl
  · rw [Document.given?, record.get?_time]
    cases record.time <;> rfl

/-- The documents that can be read. -/
theorem exists_ofDocument_iff :
    (∃ record, ofDocument document = .ok record) ↔ document.IsShard := by
  have hlevel : (∃ level, levelOf document = .ok level) ↔
      ∀ value, document.get? levelField = some value →
        value = .null ∨ ∃ name ∈ Level.names, value = .text name := by
    simp only [levelOf_eq_ok, Document.exists_given?_iff, Level.mem_names]
    grind
  have htime : (∃ time, timeOf document = .ok time) ↔
      ∀ value, document.get? timeField = some value → value = .null ∨ ∃ t, value = .time t := by
    simp only [timeOf_eq_ok, Document.exists_given?_iff]
  constructor
  · rintro ⟨record, h⟩
    obtain ⟨howner, hvalue, hreadLevel, hreadTime⟩ := ofDocument_eq_ok_iff.mp h
    exact ⟨⟨_, ownerOf_eq_ok.mp howner⟩, ⟨_, valueOf_eq_ok.mp hvalue⟩,
      hlevel.mp ⟨_, hreadLevel⟩, htime.mp ⟨_, hreadTime⟩⟩
  · intro h
    obtain ⟨owner, howner⟩ := h.owner
    obtain ⟨value, hvalue⟩ := h.value
    obtain ⟨level, hreadLevel⟩ := hlevel.mpr h.level
    obtain ⟨time, hreadTime⟩ := htime.mpr h.time
    exact ⟨{ owner, value, level, time }, ofDocument_eq_ok_iff.mpr
      ⟨ownerOf_eq_ok.mpr howner, valueOf_eq_ok.mpr hvalue, hreadLevel, hreadTime⟩⟩

/-! ## Both directions -/

/-- A record with a number is read back from its fields.  A document can be read if it is as
the schema asks, and what is read is stored as the part of the document that the schema
keeps. -/
theorem schema (record : ShardRecord) (document : Document) :
    (record.value.IsNumber → ofDocument ⟨record.fields⟩ = .ok record) ∧
      ((∃ read, ofDocument document = .ok read) ↔ document.IsShard) ∧
      ∀ read, ofDocument document = .ok read → read.fields = document.shardFields := by
  refine ⟨?_, exists_ofDocument_iff, ?_⟩
  · intro hnumber
    exact ofDocument_eq_ok_iff_fields.mpr ⟨hnumber, record.shardFields_document.symm⟩
  · intro read hread
    exact (ofDocument_eq_ok_iff_fields.mp hread).2

/-- A shard whose value is the float that is no number. -/
def spoiled : ShardRecord :=
  { owner := "visit", value := .float (0.0 / 0.0), time := some Instant.epoch }

/-- Its document with a null for the level and with a note that is not of the schema. -/
def annotated : Document :=
  (spoiled.document.set levelField .null).set "Note" (.text "counted twice")

/-- What is not of the schema is left out, and the float comes back bit by bit. -/
theorem schema_annotated :
    spoiled.value.IsNumber ∧ ofDocument ⟨spoiled.fields⟩ = .ok spoiled ∧
      annotated.IsShard ∧ ofDocument annotated = .ok spoiled ∧
      spoiled.fields = annotated.shardFields := by
  have hnumber : spoiled.value.IsNumber := .float _
  have hread : ofDocument annotated = .ok spoiled := rfl
  obtain ⟨hback, haccepted, hkept⟩ := schema spoiled annotated
  exact ⟨hnumber, hback hnumber, haccepted.mp ⟨_, hread⟩, hread, hkept _ hread⟩

end ShardRecord

end Shardwise
