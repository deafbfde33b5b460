import Mathlib.Data.List.Dedup
import Mathlib.Data.List.Perm.Basic
import Shardwise.Proofs.Shards.Counter.Naming

/-!
# What a counter adds up to

The value of a document is the exact sum of the committed increments that count
for it, whatever attempts came in between, and the totals together hold the sum of
all of them.

* `Counter.Course.document_eq` says what a document holds.
* `Counter.Course.sum_amountAt` adds up the documents of one level.
* `Counter.Course.totals_values` adds up the documents that a sum over all
  increments is made of, where only shards name the owner.
* `Counter.totals_exact` is the result, for each shard and for all of them.
-/

namespace Shardwise

theorem Level.name_inj {level other : Level} (h : level.name = other.name) : level = other := by
  cases level <;> cases other <;> first | rfl | exact absurd h (by decide)

namespace Counter

open Session (fresh live)

/-! ## What documents hold -/

/-- The whole number that is stored under a key, 0 if there is none. -/
def amountAt (table : Table) (key : DocKey) : Int :=
  match (table.document? key).bind (·.get? valueField) with
  | some (.int n) => n.toInt
  | _ => 0

theorem total_posted (counter : Counter) (level : Level) (t : Instant) (index : Nat)
    (increments : List Increment) :
    Posting.total (counter.posted (counter.levelKey level t index) increments) =
      Increment.total (increments.filter (·.Covers level t index)) := by
  rw [posted_levelKey, Posting.total, List.map_map]
  rfl

/-- A document holds the sum of the committed increments that count for it, and
the time of the first one. -/
theorem Course.document_eq {counter : Counter} {s : Session PendingIncrement Increment}
    (h : counter.Course s) {level : Level} {t : Instant} {index : Nat} {document : Document}
    (hdocument : s.table.document? (counter.levelKey level t index) = some document) :
    ∃ n first, n.toInt = Increment.total (s.committed.filter (·.Covers level t index)) ∧
      first ∈ s.committed ∧ first.Covers level t index ∧
      document = { owner := counter.group.owner, value := .int n,
                   level := some level, time := some first.time : ShardRecord }.document := by
  rw [h.stored _ ⟨level, t, index, rfl⟩] at hdocument
  obtain ⟨posting, hposting, rfl⟩ := Posting.tally_eq_some hdocument
  rw [posted_levelKey] at hposting
  obtain ⟨first, hfirst, rfl⟩ := List.mem_map.mp hposting
  rw [List.mem_filter, decide_eq_true_eq] at hfirst
  have hfits : Posting.total (counter.posted (counter.levelKey level t index) s.committed) <
      2 ^ 63 := h.fits _
  have hnonneg : 0 ≤ Posting.total (counter.posted (counter.levelKey level t index) s.committed) :=
    Posting.total_nonneg (posted_pos h.positive)
  rw [total_posted] at hfits hnonneg ⊢
  exact ⟨_, first, Int64.toInt_ofInt_of_le (by omega) hfits, hfirst.1, hfirst.2, rfl⟩

/-- The amount under the key of a shard is the sum of the committed increments that
count for it. -/
theorem Course.amountAt_eq {counter : Counter} {s : Session PendingIncrement Increment}
    (h : counter.Course s) (level : Level) (t : Instant) (index : Nat) :
    amountAt s.table (counter.levelKey level t index) =
      Increment.total (s.committed.filter (·.Covers level t index)) := by
  cases hdocument : s.table.document? (counter.levelKey level t index) with
  | none =>
    have hnone : s.committed.filter (·.Covers level t index) = [] := by
      rw [List.filter_eq_nil_iff]
      intro increment hincrement
      rw [decide_eq_true_eq]
      intro hcovers
      have hsome := (h.isSome_iff level t index).mpr ⟨increment, hincrement, hcovers⟩
      rw [hdocument] at hsome
      cases hsome
    rw [hnone, amountAt, hdocument]
    rfl
  | some document =>
    obtain ⟨n, first, hn, -, -, rfl⟩ := h.document_eq hdocument
    rw [amountAt, hdocument, Option.bind_some, ShardRecord.get?_value]
    exact hn

/-! ## Sums over the documents of a level -/

/-- The keys of some increments at a level. -/
def keysAt (counter : Counter) (level : Level) (increments : List Increment) : List DocKey :=
  (increments.map fun increment =>
    counter.levelKey level increment.time increment.index).dedup

theorem mem_keysAt {counter : Counter} {level : Level} {increments : List Increment}
    {key : DocKey} :
    key ∈ counter.keysAt level increments ↔ ∃ increment ∈ increments,
      key = counter.levelKey level increment.time increment.index := by
  simp [keysAt, eq_comm]

/-- The documents of one level add up to the increments that count for them.  The
increments are some of the committed ones, and none that counts for the same
document as one of them is left out. -/
theorem Course.sum_amountAt {counter : Counter} {s : Session PendingIncrement Increment}
    (h : counter.Course s) {level : Level} {chosen : Increment → Bool}
    (hlevel : ∀ increment ∈ s.committed, chosen increment = true →
      increment.dated = true ∨ level = .total)
    (hclosed : ∀ increment ∈ s.committed, ∀ other ∈ s.committed, chosen increment = true →
      other.Covers level increment.time increment.index → chosen other = true) :
    ((counter.keysAt level (s.committed.filter chosen)).map (amountAt s.table)).sum =
      Increment.total (s.committed.filter chosen) := by
  let keyOf : Increment → DocKey := fun increment =>
    counter.levelKey level increment.time increment.index
  have hall : ∀ increment ∈ s.committed.filter chosen,
      keyOf increment ∈ counter.keysAt level (s.committed.filter chosen) :=
    fun increment hincrement => mem_keysAt.mpr ⟨increment, hincrement, rfl⟩
  have hpartition := sum_partition (List.nodup_dedup _) keyOf (·.value.toInt) hall
  rw [Increment.total, ← hpartition]
  congr 1
  refine List.map_congr_left fun key hkey => ?_
  obtain ⟨increment, hincrement, rfl⟩ := mem_keysAt.mp hkey
  rw [List.mem_filter] at hincrement
  rw [h.amountAt_eq, List.filter_filter, Increment.total]
  congr 2
  refine List.filter_congr fun other hother => ?_
  rw [Bool.eq_iff_iff, Bool.and_eq_true, decide_eq_true_eq, decide_eq_true_eq, levelKey_eq_iff]
  constructor
  · intro hcovers
    exact ⟨⟨rfl, hcovers.2.2, hcovers.1⟩,
      hclosed increment hincrement.1 other hother hincrement.2 hcovers⟩
  · rintro ⟨⟨-, hperiod, hindex⟩, hchosen⟩
    exact ⟨hindex, hlevel other hother hchosen, hperiod⟩

/-! ## The documents that a sum is made of -/

/-- The documents of a level that name the owner, ordered by key. -/
def selected (counter : Counter) (table : Table) (level : Level) : List (DocKey × Document) :=
  (table.scan counter.group.collection ownerField (.text counter.group.owner)).filter
    fun entry => entry.2.get? levelField == some (.text level.name)

theorem mem_selected {counter : Counter} {table : Table} {level : Level} {key : DocKey}
    {document : Document} :
    (key, document) ∈ counter.selected table level ↔
      table.document? key = some document ∧ key.collection = counter.group.collection ∧
        document.get? ownerField = some (.text counter.group.owner) ∧
        document.get? levelField = some (.text level.name) := by
  simp only [selected, List.mem_filter, Table.mem_scan, Value.beq_text, and_assoc]

theorem Same.selected_eq {counter handle : Counter} (h : counter.Same handle) (table : Table)
    (level : Level) : handle.selected table level = counter.selected table level := by
  simp only [selected, h.1, h.2]

theorem nodup_selected (counter : Counter) (table : Table) (level : Level) :
    (counter.selected table level).Nodup :=
  (table.nodup_scan _ _ _).of_map.filter _

/-- With an open store and a context that is not done the documents of a level are
found. -/
theorem runIn_levelDocuments {υ : Type} (counter : Counter) {ctx : Context} {env : Env υ}
    (hopen : env.store.isOpen = true) (hlive : ctx.check env.flags env.elapsed = .ok ())
    (level : Level) (operation : String) :
    (counter.levelDocuments ctx level operation).runIn env =
      (.ok ((counter.selected env.store.table level).map Prod.snd), env) := by
  rw [levelDocuments, Op.runIn_bind, counter.group.runIn_owned hopen hlive operation]
  simp [selected, List.filter_map, Function.comp_def]

/-- The sum over all increments is made of the documents of the totals. -/
theorem runIn_countAll {υ : Type} (counter : Counter) {ctx : Context} {env : Env υ}
    (hproblem : counter.group.problem? = none) (hopen : env.store.isOpen = true)
    (hlive : ctx.check env.flags env.elapsed = .ok ()) :
    (counter.countAll ctx).runIn env =
      (sumValues ((counter.selected env.store.table .total).map Prod.snd), env) := by
  simp only [countAll, ShardGroup.check, hproblem, Op.runIn_bind, Op.runIn_check, hlive,
    counter.runIn_levelDocuments hopen hlive, Op.runIn_ofExcept]

/-- The increments that have a document at a level. -/
def counts (level : Level) (increment : Increment) : Bool :=
  increment.dated || level == .total

/-- Under the keys of a level are documents, with words for values. -/
theorem Course.stored_at {counter : Counter} {s : Session PendingIncrement Increment}
    (h : counter.Course s) {level : Level} {key : DocKey}
    (hkey : key ∈ counter.keysAt level (s.committed.filter (counts level))) :
    ∃ document n, s.table.document? key = some document ∧
      document.get? valueField = some (.int n) ∧ n.toInt = amountAt s.table key := by
  obtain ⟨increment, hincrement, rfl⟩ := mem_keysAt.mp hkey
  rw [List.mem_filter] at hincrement
  have hsome := (h.isSome_iff level increment.time increment.index).mpr
    ⟨increment, hincrement.1, rfl, by simpa [counts] using hincrement.2, rfl⟩
  obtain ⟨document, hdocument⟩ := Option.isSome_iff_exists.mp hsome
  obtain ⟨n, first, hn, -, -, rfl⟩ := h.document_eq hdocument
  exact ⟨_, n, hdocument, ShardRecord.get?_value _, hn.trans (h.amountAt_eq _ _ _).symm⟩

/-- The documents of the counter itself among those of a level. -/
theorem Course.mem_selected {counter : Counter} {s : Session PendingIncrement Increment}
    (h : counter.Course s) {level : Level} {key : DocKey} {document : Document} :
    (key, document) ∈ counter.selected s.table level ∧ counter.Owns key ↔
      key ∈ counter.keysAt level (s.committed.filter (counts level)) ∧
        s.table.document? key = some document := by
  rw [Counter.mem_selected, mem_keysAt]
  constructor
  · rintro ⟨⟨hdocument, -, -, hname⟩, other, t, index, rfl⟩
    obtain ⟨n, first, -, hfirst, hcovers, rfl⟩ := h.document_eq hdocument
    rw [ShardRecord.get?_level] at hname
    simp only [Option.map_some, Option.some.injEq, Value.text.injEq] at hname
    obtain rfl := Level.name_inj hname
    refine ⟨⟨first, List.mem_filter.mpr ⟨hfirst, ?_⟩, ?_⟩, hdocument⟩
    · simpa [counts] using hcovers.2.1
    · exact levelKey_eq_iff.mpr ⟨rfl, hcovers.2.2.symm, hcovers.1.symm⟩
  · rintro ⟨⟨increment, -, rfl⟩, hdocument⟩
    refine ⟨⟨hdocument, ?_, ?_⟩, level, increment.time, increment.index, rfl⟩
    · rw [levelKey, counterShardKey_eq]
    · obtain ⟨n, first, -, -, -, rfl⟩ := h.document_eq hdocument
      exact ⟨ShardRecord.get?_owner _, ShardRecord.get?_level _⟩

/-- Where queries by owner find shards only, the documents of a level are those of
the counter. -/
theorem Course.selected_perm {counter : Counter} {s : Session PendingIncrement Increment}
    (h : counter.Course s) (hundisputed : counter.Undisputed s.table) (level : Level) :
    ((counter.selected s.table level).map Prod.snd).Perm
      ((counter.keysAt level (s.committed.filter (counts level))).map
        fun key => (s.table.document? key).getD {}) := by
  let shards := (counter.keysAt level (s.committed.filter (counts level))).map
    fun key => (key, (s.table.document? key).getD {})
  have hshards : (counter.selected s.table level).Perm shards := by
    have hnodup : shards.Nodup :=
      (List.nodup_dedup _).map fun _ _ heq => congrArg Prod.fst heq
    rw [List.perm_ext_iff_of_nodup (counter.nodup_selected s.table level) hnodup]
    rintro ⟨key, document⟩
    rw [List.mem_map]
    constructor
    · intro hselected
      obtain ⟨hstored, hcollection, howner, -⟩ := Counter.mem_selected.mp hselected
      have howns := hundisputed key
        ⟨hcollection, document, hstored, Document.names_eq_true.mpr howner⟩
      obtain ⟨hkey, hdocument⟩ := h.mem_selected.mp ⟨hselected, howns⟩
      exact ⟨key, hkey, by rw [hdocument]; rfl⟩
    · rintro ⟨other, hother, heq⟩
      cases heq
      obtain ⟨document, -, hdocument, -⟩ := h.stored_at hother
      exact (h.mem_selected.mpr ⟨hother, by rw [hdocument]; rfl⟩).1
  have hdocuments := hshards.map Prod.snd
  rwa [List.map_map] at hdocuments

/-! ## Sums of a run -/

theorem counts_total (increments : List Increment) :
    increments.filter (counts .total) = increments := by
  rw [List.filter_eq_self]
  intro increment _
  simp [counts]

/-- The total of a shard takes in every increment there. -/
theorem covers_total {increment : Increment} {t : Instant} {index : Nat} :
    increment.Covers .total t index ↔ increment.index = index := by
  constructor
  · rintro ⟨hindex, -⟩
    exact hindex
  · intro hindex
    exact ⟨hindex, .inr rfl, rfl⟩

/-- The total of a shard has one key at all times. -/
theorem plainKey_eq (counter : Counter) (t : Instant) (index : Nat) :
    counter.group.plainKey index = counter.levelKey .total t index := rfl

/-- Where queries by owner find shards only, the values of the totals are words that
add up to all committed increments. -/
theorem Course.totals_values {counter : Counter} {s : Session PendingIncrement Increment}
    (h : counter.Course s) (hundisputed : counter.Undisputed s.table) :
    ∃ values : List Int64, ((counter.selected s.table .total).map Prod.snd).map
        (·.get? valueField) = values.map (fun n => some (.int n)) ∧
      (values.map Int64.toInt).sum = Increment.total s.committed := by
  have hperm := h.selected_perm hundisputed .total
  have hsum : ((counter.keysAt .total (s.committed.filter (counts .total))).map
      (amountAt s.table)).sum = Increment.total (s.committed.filter (counts .total)) :=
    h.sum_amountAt (fun _ _ _ => .inr rfl) (fun _ _ other _ _ _ => by simp [counts])
  rw [counts_total] at hperm hsum
  let wordAt : DocKey → Int64 := fun key => Int64.ofInt (amountAt s.table key)
  have hword : ∀ key ∈ counter.keysAt .total s.committed,
      ((s.table.document? key).getD {}).get? valueField = some (.int (wordAt key)) ∧
        (wordAt key).toInt = amountAt s.table key := by
    intro key hkey
    rw [← counts_total s.committed] at hkey
    obtain ⟨document, n, hdocument, hn, hamount⟩ := h.stored_at hkey
    have hsame : wordAt key = n := (congrArg Int64.ofInt hamount).symm.trans (Int64.ofInt_toInt n)
    rw [hdocument, hsame]
    exact ⟨hn, hamount⟩
  have hvalues : (((counter.selected s.table .total).map Prod.snd).map (·.get? valueField)).Perm
      (((counter.keysAt .total s.committed).map wordAt).map fun n => some (.int n)) := by
    refine (hperm.map (·.get? valueField)).trans (.of_eq ?_)
    rw [List.map_map, List.map_map]
    exact List.map_congr_left fun key hkey => (hword key hkey).1
  -- The values stand in the order of the documents, and the words in that of the ledger.
  obtain ⟨values, hmap, hsame⟩ :=
    (congrFun₂ (List.eq_map_comp_perm fun n : Int64 => some (Value.int n)) _ _).mpr hvalues
  refine ⟨values, hmap, ?_⟩
  rw [(hsame.map Int64.toInt).sum_eq, List.map_map, ← hsum]
  exact congrArg List.sum (List.map_congr_left fun key hkey => (hword key hkey).2)

/-- In every state of a run the total of a shard exists exactly if an increment
there was committed, and it holds the sum of the committed increments there.  As
long as nobody else has stored the owner's name, the documents that a sum over all
increments is made of hold words, and these add up to all committed increments. -/
theorem totals_exact {counter : Counter} {start s : Session PendingIncrement Increment}
    (hstart : counter.protocol.Starts start) (h : counter.protocol.Reaches start s) :
    (∀ index, ((s.table.document? (counter.group.plainKey index)).isSome = true ↔
          ∃ increment ∈ s.committed, increment.index = index) ∧
        ∀ document, s.table.document? (counter.group.plainKey index) = some document →
          ∃ n, document.get? valueField = some (.int n) ∧
            n.toInt = Increment.total (s.committed.filter (·.index = index))) ∧
      (counter.Undisputed start.table → counter.protocol.ReachesBy counter.Spares start s →
        ∀ handle ctx, counter.Same handle → s.env.store.isOpen = true →
          ctx.check s.env.flags s.env.elapsed = .ok () →
          ∃ documents : List Document, ∃ values : List Int64,
            (handle.levelDocuments ctx .total "count_all").runIn s.env = (.ok documents, s.env) ∧
            (handle.group.problem? = none →
              (handle.countAll ctx).runIn s.env = (sumValues documents, s.env)) ∧
            documents.map (·.get? valueField) = values.map (fun n => some (.int n)) ∧
            (values.map Int64.toInt).sum = Increment.total s.committed) := by
  have hcourse := course_of_reaches hstart h
  refine ⟨fun index => ⟨?_, fun document hdocument => ?_⟩, ?_⟩
  · rw [counter.plainKey_eq default index, hcourse.isSome_iff]
    simp only [covers_total]
  · rw [counter.plainKey_eq default index] at hdocument
    obtain ⟨n, first, hn, -, -, rfl⟩ := hcourse.document_eq hdocument
    simp only [covers_total] at hn
    exact ⟨n, ShardRecord.get?_value _, hn⟩
  · intro hundisputed hspared handle ctx hsame hopen hlive
    obtain ⟨values, hvalues, hsum⟩ :=
      hcourse.totals_values (undisputed_of_reachesBy hstart hundisputed hspared)
    rw [← hsame.selected_eq] at hvalues
    exact ⟨_, values, handle.runIn_levelDocuments hopen hlive .total "count_all",
      fun hproblem => handle.runIn_countAll hproblem hopen hlive, hvalues, hsum⟩

/-! ## A run -/

/-- Only keys with postings have to be looked at. -/
theorem fits_iff {counter : Counter} {log : List (Commitment Increment)} :
    counter.protocol.Fits log ↔
      ∀ posting ∈ (log.flatMap Commitment.entries).flatMap
          (Increment.postings counter.group.collection counter.group.owner),
        Posting.total (counter.posted posting.key (log.flatMap Commitment.entries)) < 2 ^ 63 := by
  constructor
  · intro h posting _
    exact h posting.key
  · intro h key
    cases hposted : counter.posted key (log.flatMap Commitment.entries) with
    | nil =>
      show (0 : Int) < 2 ^ 63
      decide
    | cons posting more =>
      have hmem : posting ∈ counter.posted key (log.flatMap Commitment.entries) := by
        rw [hposted]
        exact List.mem_cons_self
      obtain ⟨hposting, hkey⟩ := List.mem_filter.mp hmem
      rw [← hposted, ← of_decide_eq_true hkey]
      exact h posting hposting

instance (counter : Counter) : DecidablePred counter.protocol.Fits :=
  fun _ => decidable_of_iff _ fits_iff.symm

deriving instance DecidableEq for PendingIncrement

/-- A counter of visits, with the date hierarchy. -/
def visits : Counter :=
  { group := ⟨"counters", "visit", 2⟩, dateHierarchy := true, clock := .manual }

/-- An hour after the epoch. -/
def secondHour : Instant := ⟨3600, 0, by decide⟩

/-- The token of a read phase that found the documents of some levels. -/
def token (id : UInt64) (time : Instant) (found : List Level) : PendingIncrement :=
  ⟨⟨id, "counters", "visit"⟩, 0, time, (Increment.levelsOf true).map fun level =>
    ⟨level, visits.levelKey level time 0, decide (level ∈ found)⟩⟩

/-- The read phase of an increment inside an attempt. -/
def reading (id : UInt64) : Action PendingIncrement Increment :=
  .read id (visits.incrementRead live)

/-- The write phase for a token inside its attempt. -/
def adding (pending : PendingIncrement) (value : Int64) : Action PendingIncrement Increment :=
  .write pending.stamp.attempt
    ((fun _ => pending.increment value) <$> visits.incrementWrite live pending value)

theorem allows_reading (s : Session PendingIncrement Increment) (id : UInt64) :
    visits.protocol.Allows s (reading id) :=
  .read id ⟨visits, live, ⟨rfl, rfl⟩, rfl⟩

theorem allows_adding {s : Session PendingIncrement Increment} {pending : PendingIncrement}
    {value : Int64} (h : s.tokens.contains pending = true)
    (single : ((s.step (adding pending value)).drafts pending.stamp.attempt).length ≤ 1) :
    visits.protocol.Allows s (adding pending value) :=
  .write _ ⟨visits, live, ⟨rfl, rfl⟩, pending, List.contains_iff_mem.mp h, value, rfl⟩ single

/-- Three visits in the first hour, and four in the second one, whose read phase
does not look beyond the day. -/
def twoHours : List (Action PendingIncrement Increment) :=
  [.begin, reading 1, adding (token 1 .epoch []) 3, .commit 1,
    .request (Op.surround fun env => { env with manualClock := secondHour }),
    .begin, reading 2, adding (token 2 secondHour [.day, .month, .year, .total]) 4, .commit 2]

theorem permits_twoHours : visits.protocol.Permits fresh twoHours :=
  ⟨.begin, allows_reading _ _, allows_adding (by decide +kernel) (by decide +kernel), .commit _,
    .surround _ fun _ => rfl,
    .begin, allows_reading _ _, allows_adding (by decide +kernel) (by decide +kernel), .commit _,
    trivial⟩

theorem reaches_twoHours : visits.protocol.Reaches fresh (fresh.run twoHours) :=
  .run .start permits_twoHours (by decide +kernel)

theorem committed_twoHours : (fresh.run twoHours).committed =
    [⟨0, .epoch, true, 3⟩, ⟨0, secondHour, true, 4⟩] := by
  decide +kernel

/-- Nobody but the counter stores a name in these steps. -/
theorem spares_twoHours : ∀ action ∈ twoHours, visits.Spares action := by
  simp only [twoHours, List.forall_mem_cons]
  exact ⟨nofun, nofun, nofun, nofun, visits.spares_surround fun _ => rfl,
    nofun, nofun, nofun, nofun, nofun⟩

theorem undisputed_fresh : visits.Undisputed (fresh : Session PendingIncrement Increment).table :=
  fun _ hfinds => absurd rfl hfinds.get?

theorem totals_twoHours :
    (fresh.run twoHours).committed = [⟨0, .epoch, true, 3⟩, ⟨0, secondHour, true, 4⟩] ∧
      (∃ document n, (fresh.run twoHours).table.document? (visits.group.plainKey 0) =
          some document ∧ document.get? valueField = some (.int n) ∧ n.toInt = 7) ∧
      ∃ documents : List Document, ∃ values : List Int64,
        (visits.levelDocuments live .total "count_all").runIn (fresh.run twoHours).env =
          (.ok documents, (fresh.run twoHours).env) ∧
        (visits.countAll live).runIn (fresh.run twoHours).env =
          (sumValues documents, (fresh.run twoHours).env) ∧
        documents.map (·.get? valueField) = values.map (fun n => some (.int n)) ∧
        (values.map Int64.toInt).sum = 7 := by
  have hfresh : visits.protocol.Starts fresh := .of_empty _ rfl
  obtain ⟨htotals, hcount⟩ := totals_exact hfresh reaches_twoHours
  obtain ⟨hiff, hvalue⟩ := htotals 0
  have hsome := hiff.mpr ⟨⟨0, .epoch, true, 3⟩, by rw [committed_twoHours]; simp, rfl⟩
  obtain ⟨document, hdocument⟩ := Option.isSome_iff_exists.mp hsome
  obtain ⟨n, hn, hsum⟩ := hvalue document hdocument
  have hspared : visits.protocol.ReachesBy visits.Spares fresh (fresh.run twoHours) :=
    ⟨twoHours, rfl, permits_twoHours, by decide +kernel, spares_twoHours⟩
  obtain ⟨documents, values, hdocuments, hcounted, hvalues, htotal⟩ :=
    hcount undisputed_fresh hspared visits live ⟨rfl, rfl⟩ (by decide +kernel) (by decide +kernel)
  have hseven : Increment.total (fresh.run twoHours).committed = 7 := by
    rw [committed_twoHours]
    rfl
  refine ⟨committed_twoHours, ⟨document, n, hdocument, hn, ?_⟩, documents, values, hdocuments,
    hcounted rfl, hvalues, htotal.trans hseven⟩
  rw [hsum, committed_twoHours]
  rfl

/-! ## A run with a document of others -/

/-- A record that others keep in the same collection, under the same owner. -/
def importedRecord : ShardRecord := { owner := "visit", value := .int 5, level := some .total }

/-- Three visits in the first hour, and then a document of others under a key that is
no shard's. -/
def imported : List (Action PendingIncrement Increment) :=
  [.begin, reading 1, adding (token 1 .epoch []) 3, .commit 1,
    .request (Op.insert ⟨"counters", "imported"⟩ importedRecord.document)]

theorem not_owns_imported : ¬ visits.Owns ⟨"counters", "imported"⟩ := by
  rintro ⟨level, t, index, hkey⟩
  rw [levelKey, counterShardKey_eq] at hkey
  have hfirst := congrArg (fun key => key.name.toList.head?) hkey
  simp [visits] at hfirst

theorem permits_imported : visits.protocol.Permits fresh imported :=
  ⟨.begin, allows_reading _ _, allows_adding (by decide +kernel) (by decide +kernel), .commit _,
    .insert _ not_owns_imported, trivial⟩

/-- The words that documents hold are the numbers that are read from them. -/
theorem words_of_wholes {documents : List Document} {values : List Int64} {numbers : List Int}
    (hvalues : documents.map (·.get? valueField) = values.map (fun n => some (.int n)))
    (hread : documents.map (fun document => (document.get? valueField).bind Value.whole?) =
      numbers.map some) : values.map Int64.toInt = numbers := by
  have hwhole := congrArg (List.map fun value => value.bind Value.whole?) hvalues
  rw [List.map_map, List.map_map] at hwhole
  refine List.map_injective_iff.mpr (fun _ _ => Option.some.inj) ?_
  rw [List.map_map]
  exact hwhole.symm.trans hread

/-- What others store under the owner's name is added up with the shards: three visits
were committed, and the values come to eight. -/
theorem not_totals_imported :
    visits.protocol.Starts fresh ∧ visits.protocol.Reaches fresh (fresh.run imported) ∧
      (fresh.run imported).committed = [⟨0, .epoch, true, 3⟩] ∧
      ∃ documents : List Document,
        (visits.levelDocuments live .total "count_all").runIn (fresh.run imported).env =
          (.ok documents, (fresh.run imported).env) ∧
        documents.map (fun document => (document.get? valueField).bind Value.whole?) =
          [some 5, some 3] ∧
        ¬ ∃ values : List Int64,
          documents.map (·.get? valueField) = values.map (fun n => some (.int n)) ∧
            (values.map Int64.toInt).sum = Increment.total (fresh.run imported).committed := by
  have hcommitted : (fresh.run imported).committed = [⟨0, .epoch, true, 3⟩] := by
    decide +kernel
  have hread : ((visits.selected (fresh.run imported).table .total).map Prod.snd).map
      (fun document => (document.get? valueField).bind Value.whole?) = [some 5, some 3] := by
    decide +kernel
  refine ⟨.of_empty _ rfl, .run .start permits_imported (by decide +kernel), hcommitted, _,
    visits.runIn_levelDocuments (by decide +kernel) (by decide +kernel) .total "count_all",
    hread, ?_⟩
  rintro ⟨values, hvalues, hsum⟩
  have hwords : values.map Int64.toInt = [5, 3] := words_of_wholes hvalues hread
  rw [hwords, hcommitted] at hsum
  exact absurd hsum (by decide)

end Counter

end Shardwise
