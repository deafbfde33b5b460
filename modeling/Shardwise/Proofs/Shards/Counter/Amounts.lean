import Shardwise.Proofs.Shards.Counter.Sums
import Shardwise.Proofs.Store.Sums

/-!
# What writes do to the numbers of shards

A write phase makes the document of a shard or adds to it, as its token says.  If
the token is wrong, a document is made over one that is there, and the number of
that is lost; or a number is added to nothing, and the document that comes of it
does not name the owner, so that no query finds it.  This module follows the
number that queries see through any such writes.

* `Counter.Regular` is what is so of every document that a counter wrote, and
  `Counter.Tidy` says it of a table.
* `Counter.visible` is the number that queries see, and `Counter.afterWrite` what a
  write makes of it.  `Counter.applyWrite_shard` is about one write, and
  `Counter.foldlM_shardWrites` about many.
-/

namespace Shardwise

namespace Document

/-- The whole number that a document holds as its value; 0 if it holds none. -/
def word (document : Document) : Int :=
  match document.get? valueField with
  | some (.int n) => n.toInt
  | _ => 0

theorem word_eq {document : Document} {n : Int64}
    (h : document.get? valueField = some (.int n)) : document.word = n.toInt := by
  simp [word, h]

theorem word_set (document : Document) (n : Int64) :
    (document.set valueField (.int n)).word = n.toInt :=
  word_eq (by rw [get?_set, if_pos rfl])

/-- Adding to a whole number that stays within a word. -/
theorem applyWrite_increment {document : Document} {n value : Int64}
    (hn : document.get? valueField = some (.int n))
    (hlow : -0x8000000000000000 ≤ n.toInt + value.toInt)
    (hfits : n.toInt + value.toInt < 0x8000000000000000) :
    Database.applyWrite (some document) (.increment valueField (.int value)) =
      .ok (some (document.set valueField (.int (Int64.ofInt (n.toInt + value.toInt))))) := by
  simp only [Database.applyWrite, Option.getD_some, hn, Value.isNumeric, if_true,
    ShardRecord.add_int valueField hlow hfits]
  rfl

end Document

namespace Counter

/-! ## Documents that a counter wrote -/

/-- The document is one that write phases left under the key of a level and a
period: it holds a positive number, and if it names the owner, then also the level
and a time in the period. -/
structure Regular (owner : String) (level : Level) (t : Instant) (document : Document) : Prop where
  value : ∃ n, document.get? valueField = some (.int n) ∧ 0 < n.toInt
  named : document.names owner = true →
    document.get? levelField = some (.text level.name) ∧
      ∃ u, document.get? timeField = some (.time u) ∧ level.SamePeriod u t

theorem Regular.word_pos {owner : String} {level : Level} {t : Instant} {document : Document}
    (h : Regular owner level t document) : 0 < document.word := by
  obtain ⟨n, hn, hpos⟩ := h.value
  rwa [Document.word_eq hn]

/-- All documents under the keys of the counter are such. -/
def Tidy (counter : Counter) (table : Table) : Prop :=
  ∀ level t index document, table.document? (counter.levelKey level t index) = some document →
    Regular counter.group.owner level t document

/-- The number that queries see of a shard: it is that of a document that names the
owner. -/
def visible (owner : String) (document : Option Document) : Option Int :=
  (document.filter fun document => document.names owner).map Document.word

@[simp] theorem visible_none (owner : String) : visible owner none = none := rfl

@[simp] theorem visible_some (owner : String) (document : Document) :
    visible owner (some document) = if document.names owner then some document.word else none := by
  cases h : document.names owner <;> simp [visible, Option.filter, h]

/-- The number of a shard, whether queries see it or not. -/
def held (document : Option Document) : Int := (document.map Document.word).getD 0

/-! ## Writes on a shard -/

/-- What a write makes of the number that queries see, where `present` tells whether
its token takes the document to exist. -/
def afterWrite (number : Option Int) (write : Bool × Int) : Option Int :=
  if write.1 then number.map (· + write.2) else some write.2

variable {owner : String} {level : Level} {t u : Instant}

/-- The record of an increment. -/
def made (owner : String) (level : Level) (u : Instant) (value : Int64) : ShardRecord where
  owner := owner
  value := .int value
  level := some level
  time := some u

theorem regular_made {value : Int64} (hvalue : 0 < value.toInt) (hperiod : level.SamePeriod u t) :
    Regular owner level t (made owner level u value).document :=
  ⟨⟨value, ShardRecord.get?_value _, hvalue⟩,
    fun _ => ⟨ShardRecord.get?_level _, u, ShardRecord.get?_time _, hperiod⟩⟩

/-- One write: the number that it makes is seen, and what it adds is seen if the
document was. -/
theorem applyWrite_shard (present : Bool) {current : Option Document} {value : Int64}
    (hregular : ∀ document, current = some document → Regular owner level t document)
    (hvalue : 0 < value.toInt) (hperiod : level.SamePeriod u t)
    (hfits : held current + value.toInt < 2 ^ 63) :
    ∃ document, Database.applyWrite current
        (ShardGroup.shardWrite present (made owner level u value)) = .ok (some document) ∧
      Regular owner level t document ∧
      visible owner (some document) = afterWrite (visible owner current) (present, value.toInt) ∧
      document.word ≤ held current + value.toInt := by
  have hmade : (made owner level u value).document.word = value.toInt :=
    Document.word_eq (ShardRecord.get?_value _)
  cases present with
  | false =>
    refine ⟨_, ShardRecord.applyWrite_make _ _, regular_made hvalue hperiod, ?_, ?_⟩
    · have hnames : (made owner level u value).document.names owner = true :=
        ShardRecord.names_document _
      simp [afterWrite, hmade, hnames]
    · rw [hmade]
      cases current with
      | none => simp [held]
      | some document =>
        have hpos := (hregular document rfl).word_pos
        simp only [held, Option.map_some, Option.getD_some]
        omega
  | true =>
    cases current with
    | none =>
      -- Adding to nothing makes a document that holds nothing but the number.
      refine ⟨({} : Document).set valueField (.int value), rfl, ⟨?_, ?_⟩, ?_, ?_⟩
      · exact ⟨value, by rw [Document.get?_set, if_pos rfl], hvalue⟩
      · intro hnames
        rw [Document.names_set] at hnames
        cases hnames
      · have hnames : (({} : Document).set valueField (.int value)).names owner = false := by
          rw [Document.names_set]
          rfl
        simp [afterWrite, hnames]
      · rw [Document.word_set]
        simp [held]
    | some document =>
      obtain ⟨⟨n, hn, hpos⟩, hnamed⟩ := hregular document rfl
      have hword : document.word = n.toInt := Document.word_eq hn
      simp only [held, Option.map_some, Option.getD_some, hword] at hfits ⊢
      have hsum : (Int64.ofInt (n.toInt + value.toInt)).toInt = n.toInt + value.toInt :=
        Int64.toInt_ofInt_of_le (by omega) hfits
      refine ⟨document.set valueField (.int (Int64.ofInt (n.toInt + value.toInt))), ?_,
        ⟨?_, ?_⟩, ?_, ?_⟩
      · exact Document.applyWrite_increment hn (by omega) hfits
      · exact ⟨_, by rw [Document.get?_set, if_pos rfl], by omega⟩
      · intro hnames
        rw [Document.names_set] at hnames
        rw [Document.get?_set_value _ _ (by decide), Document.get?_set_value _ _ (by decide)]
        exact hnamed hnames
      · rw [visible_some, visible_some, Document.names_set, Document.word_set, hsum, hword]
        cases document.names owner <;> simp [afterWrite]
      · rw [Document.word_set, hsum]

/-- A write phase's part in one shard: what its token takes the document for, the
time of its read phase, and what it adds. -/
structure Part where
  present : Bool
  time : Instant
  value : Int64

namespace Part

/-- What some parts add. -/
def total (parts : List Part) : Int := (parts.map (·.value.toInt)).sum

@[simp] theorem total_nil : total [] = 0 := rfl

@[simp] theorem total_cons (part : Part) (parts : List Part) :
    total (part :: parts) = part.value.toInt + total parts := by
  simp [total]

theorem total_nonneg {parts : List Part} (h : ∀ part ∈ parts, 0 < part.value.toInt) :
    0 ≤ total parts := by
  induction parts with
  | nil => simp
  | cons part parts ih =>
    rw [List.forall_mem_cons] at h
    have hmore := ih h.2
    rw [total_cons]
    omega

/-- The write of a part. -/
def write (owner : String) (level : Level) (part : Part) : Write :=
  ShardGroup.shardWrite part.present (made owner level part.time part.value)

/-- What some parts make of the number that queries see. -/
def after (number : Option Int) (parts : List Part) : Option Int :=
  (parts.map fun part => (part.present, part.value.toInt)).foldl afterWrite number

end Part

/-- The writes of several write phases on one shard.  The induction is on the write
phases; the number so far stays below what it and the phases to come add up to. -/
theorem foldlM_shardWrites {parts : List Part} {current : Option Document}
    (hregular : ∀ document, current = some document → Regular owner level t document)
    (hvalue : ∀ part ∈ parts, 0 < part.value.toInt ∧ level.SamePeriod part.time t)
    (hfits : held current + Part.total parts < 2 ^ 63) :
    ∃ left, (parts.map (Part.write owner level)).foldlM Database.applyWrite current = .ok left ∧
      (∀ document, left = some document → Regular owner level t document) ∧
      visible owner left = Part.after (visible owner current) parts ∧
      held left ≤ held current + Part.total parts := by
  induction parts generalizing current with
  | nil => exact ⟨current, rfl, hregular, rfl, by simp⟩
  | cons part parts ih =>
    rw [List.forall_mem_cons] at hvalue
    have hrest : 0 ≤ Part.total parts :=
      Part.total_nonneg fun other hother => (hvalue.2 other hother).1
    rw [Part.total_cons] at hfits
    obtain ⟨document, hwrite, hdocument, hvisible, hword⟩ := applyWrite_shard part.present
      hregular hvalue.1.1 hvalue.1.2 (show held current + part.value.toInt < 2 ^ 63 by omega)
    have hheld : held (some document) = document.word := rfl
    have hnext : ∀ other, some document = some other → Regular owner level t other := by
      rintro _ ⟨⟩
      exact hdocument
    obtain ⟨left, hfold, hleft, hlast, hbound⟩ := ih hnext hvalue.2 (by rw [hheld]; omega)
    refine ⟨left, ?_, hleft, ?_, ?_⟩
    · rw [List.map_cons, List.foldlM_cons, Part.write, hwrite]
      exact hfold
    · rw [hlast, hvisible]
      rfl
    · rw [Part.total_cons]
      rw [hheld] at hbound
      omega

end Counter

end Shardwise
