import Shardwise.Proofs.Shards.Batch
import Shardwise.Proofs.Shards.Counter.Amounts
import Shardwise.Proofs.Shards.Counter.Tokens

/-!
# Several increments in one attempt

An attempt may run several read phases of a counter, and then their write phases.
The read phases all see the same table, so two tokens may say of one shard that it is
absent, and then both write phases make its document.

* `Counter.Increments` is such an attempt, and `Addition` one of its write phases.
* `Counter.Increments.shard` follows the number that queries see in a shard
  through all write phases, and `Counter.Increments.tidy` says that the documents stay
  those of a counter.
* `Counter.sumOf` adds up documents that name the owner, and
  `Counter.Increments.sumOf_eq` says by how much it changes.
-/

namespace Shardwise

/-- A write phase of an increment: its token, and what it adds. -/
structure Addition where
  token : PendingIncrement
  value : Int64

namespace Addition

/-- What the write phase counts for. -/
def increment (addition : Addition) : Increment := addition.token.increment addition.value

/-- The part of the write phase in the shard of a level. -/
def part (level : Level) (addition : Addition) : Counter.Part :=
  ⟨addition.token.finds level, addition.token.time, addition.value⟩

end Addition

namespace Counter

/-- An attempt runs read phases of a counter, then their write phases, and
commits. -/
def Increments (counter : Counter) (table : Table) (handles : List Counter)
    (tokens : List PendingIncrement) (additions : List Addition) (left : Table) : Prop :=
  ∃ results : List Unit, Batch
    (fun handle (phase : TxOp Unit _) =>
      counter.Same handle ∧ ∃ ctx, phase = handle.incrementRead ctx)
    (fun addition phase => ∃ handle ctx, counter.Same handle ∧
      phase = handle.incrementWrite ctx addition.token addition.value)
    Addition.token table handles tokens additions results left

/-- The parts of some write phases in the shard of a level, a period and an index. -/
def partsOf (additions : List Addition) (level : Level) (t : Instant) (index : Nat) :
    List Part :=
  (additions.filter (·.increment.Covers level t index)).map (Addition.part level)

/-- No shard comes to more than its word holds. -/
def HasSpace (counter : Counter) (table : Table) (additions : List Addition) : Prop :=
  ∀ level t index, held (table.document? (counter.levelKey level t index)) +
    Part.total (partsOf additions level t index) < 2 ^ 63

namespace Increments

variable {counter : Counter} {table left : Table} {handles : List Counter}
  {tokens : List PendingIncrement} {additions : List Addition}

theorem observed (h : counter.Increments table handles tokens additions left) :
    ∀ token ∈ tokens, counter.Observed table token := by
  obtain ⟨results, h⟩ := h
  have hseen : ∀ token ∈ tokens, ∃ handle ∈ handles, counter.Observed table token := by
    refine h.seen (fun table _ token => counter.Observed table token) ?_
    rintro handle phase attempt env token later left ⟨hsame, ctx, rfl⟩ hrun
    exact .of_read hsame hrun
  intro token htoken
  obtain ⟨handle, -, hobserved⟩ := hseen token htoken
  exact hobserved

/-- A write phase has a token that was read of the table, and adds a positive
number. -/
theorem addition (h : counter.Increments table handles tokens additions left) :
    ∀ addition ∈ additions,
      counter.Observed table addition.token ∧ 0 < addition.value.toInt := by
  have hobserved := h.observed
  obtain ⟨results, h⟩ := h
  have hpositive : ∀ addition ∈ additions, 0 < addition.value.toInt := by
    refine h.used _ ?_
    rintro addition phase attempt env value later left ⟨handle, ctx, hsame, rfl⟩ hrun
    rcases handle.incrementWrite_cases ctx addition.token addition.value attempt env with
      ⟨error, hcase⟩ | ⟨-, -, hvalue⟩
    · rw [hcase] at hrun
      cases hrun
    · exact hvalue
  intro addition haddition
  refine ⟨hobserved _ (h.matching.subset ?_), hpositive addition haddition⟩
  exact List.mem_map_of_mem haddition

/-- What the commit makes of every document. -/
theorem applied (h : counter.Increments table handles tokens additions left) (key : DocKey) :
    (writesOn key (additions.flatMap fun addition =>
        counter.incrementWrites addition.token addition.value)).foldlM Database.applyWrite
      (table.document? key) = .ok (left.document? key) := by
  obtain ⟨results, h⟩ := h
  refine (h.applied _ (fun _ => ()) ?_ ?_).2 key
  · rintro handle phase ⟨-, ctx, rfl⟩
    exact handle.readsOnly_incrementRead ctx
  · rintro addition phase attempt env value later left ⟨handle, ctx, hsame, rfl⟩ hrun
    rcases handle.incrementWrite_cases ctx addition.token addition.value attempt env with
      ⟨error, hcase⟩ | ⟨hcase, -⟩
    · rw [hcase] at hrun
      cases hrun
    · rw [hcase, hsame.incrementWrites_eq] at hrun
      cases hrun
      exact ⟨rfl, rfl⟩

/-- The writes on a shard are the parts of the write phases in it. -/
theorem writesOn_eq (h : counter.Increments table handles tokens additions left) (level : Level)
    (t : Instant) (index : Nat) :
    writesOn (counter.levelKey level t index) (additions.flatMap fun addition =>
        counter.incrementWrites addition.token addition.value) =
      (partsOf additions level t index).map (Part.write counter.group.owner level) := by
  have hplaced : ∀ addition ∈ additions, counter.Placed addition.token :=
    fun addition haddition => (h.addition addition haddition).1.placed
  clear h
  induction additions with
  | nil => rfl
  | cons addition additions ih =>
    rw [List.forall_mem_cons] at hplaced
    rw [List.flatMap_cons, writesOn_append, hplaced.1.writesOn, ih hplaced.2, partsOf, partsOf,
      List.filter_cons]
    by_cases hcovers : addition.increment.Covers level t index
    · have hcounts : (addition.token.increment addition.value).Covers level t index := hcovers
      simp only [hcovers, hcounts, if_true, decide_true, List.map_cons, List.singleton_append]
      rfl
    · have hcounts : ¬ (addition.token.increment addition.value).Covers level t index := hcovers
      simp only [hcovers, hcounts, if_false, decide_false, Bool.false_eq_true, List.nil_append]

/-- Only the documents of the counter change. -/
theorem kept (h : counter.Increments table handles tokens additions left) {key : DocKey}
    (hkey : ¬ counter.Owns key) : left.document? key = table.document? key := by
  have hnone : writesOn key (additions.flatMap fun addition =>
      counter.incrementWrites addition.token addition.value) = [] := by
    rw [writesOn, List.map_eq_nil_iff, List.filter_eq_nil_iff]
    intro write hwrite
    obtain ⟨addition, haddition, hmem⟩ := List.mem_flatMap.mp hwrite
    obtain ⟨shard, hshard, rfl⟩ := List.mem_map.mp hmem
    have hplace := of_places (h.addition addition haddition).1.placed hshard
    rw [decide_eq_true_eq]
    rintro rfl
    exact hkey ⟨_, _, _, hplace.2⟩
  have happlied := h.applied key
  rw [hnone] at happlied
  exact (Except.ok.inj happlied).symm

/-- What the commit makes of a shard: its document stays one of the counter, and the
write phases change the number that queries see one after the other. -/
theorem shard (h : counter.Increments table handles tokens additions left)
    (htidy : counter.Tidy table) (hspace : counter.HasSpace table additions) (level : Level)
    (t : Instant) (index : Nat) :
    (∀ document, left.document? (counter.levelKey level t index) = some document →
        Regular counter.group.owner level t document) ∧
      visible counter.group.owner (left.document? (counter.levelKey level t index)) =
        Part.after (visible counter.group.owner
          (table.document? (counter.levelKey level t index)))
        (partsOf additions level t index) := by
  have happlied := h.applied (counter.levelKey level t index)
  rw [h.writesOn_eq] at happlied
  have hparts : ∀ part ∈ partsOf additions level t index,
      0 < part.value.toInt ∧ level.SamePeriod part.time t := by
    intro part hpart
    obtain ⟨addition, haddition, rfl⟩ := List.mem_map.mp hpart
    rw [List.mem_filter, decide_eq_true_eq] at haddition
    exact ⟨(h.addition addition haddition.1).2, haddition.2.2.2⟩
  obtain ⟨last, hlast, hregular, hvisible, -⟩ := foldlM_shardWrites
    (fun document => htidy level t index document) hparts (hspace level t index)
  rw [happlied] at hlast
  cases hlast
  exact ⟨hregular, hvisible⟩

theorem tidy (h : counter.Increments table handles tokens additions left)
    (htidy : counter.Tidy table) (hspace : counter.HasSpace table additions) :
    counter.Tidy left :=
  fun level t index => (h.shard htidy hspace level t index).1

end Increments

/-! ## Sums of documents -/

/-- The document is of the level. -/
def ofLevel (level : Level) (document : Document) : Bool :=
  document.get? levelField == some (.text level.name)

/-- The document holds a time in the period that the level has at `t`. -/
def inPeriod (level : Level) (t : Instant) (document : Document) : Bool :=
  match document.get? timeField with
  | some (.time u) => decide (level.SamePeriod u t)
  | _ => false

/-- What some of the documents that name the owner hold together. -/
def sumOf (counter : Counter) (table : Table) (chosen : Document → Bool) : Int :=
  (((table.scan counter.group.collection ownerField (.text counter.group.owner)).filter
    fun entry => chosen entry.2).map fun entry => entry.2.word).sum

/-- What the documents hold that a sum over all increments is made of. -/
def totals (counter : Counter) (table : Table) : Int :=
  ((counter.selected table .total).map fun entry => entry.2.word).sum

/-- What the documents of a level hold that are of the period of the level at `t`. -/
def bucket (counter : Counter) (table : Table) (level : Level) (t : Instant) : Int :=
  (((counter.selected table level).filter fun entry => inPeriod level t entry.2).map
    fun entry => entry.2.word).sum

theorem totals_eq (counter : Counter) (table : Table) :
    counter.totals table = counter.sumOf table (ofLevel .total) := rfl

theorem bucket_eq (counter : Counter) (table : Table) (level : Level) (t : Instant) :
    counter.bucket table level t =
      counter.sumOf table fun document => ofLevel level document && inPeriod level t document := by
  simp only [bucket, selected, sumOf, List.filter_filter, ofLevel, Bool.and_comm]

/-- What a document counts for in a sum. -/
def weight (counter : Counter) (chosen : Document → Bool) (key : DocKey) (document : Document) :
    Int :=
  if key.collection == counter.group.collection && document.names counter.group.owner &&
    chosen document then document.word else 0

theorem sumOf_eq_weigh (counter : Counter) (table : Table) (chosen : Document → Bool) :
    counter.sumOf table chosen = table.weigh (counter.weight chosen) :=
  table.sum_scan _ _ _ chosen Document.word

/-- The sum takes in the documents of some levels and periods, as far as queries see
them. -/
def Takes (chosen : Document → Bool) (owner : String) (places : Level → Instant → Bool) : Prop :=
  ∀ level t document, Regular owner level t document → document.names owner = true →
    chosen document = places level t

theorem takes_total (owner : String) :
    Takes (ofLevel .total) owner fun level _ => level == .total := by
  intro level t document hregular hnames
  rw [Bool.eq_iff_iff, ofLevel, Value.beq_text, (hregular.named hnames).1, Option.some.injEq,
    Value.text.injEq, beq_iff_eq]
  exact ⟨Level.name_inj, congrArg Level.name⟩

theorem takes_period (owner : String) (level : Level) (t : Instant) :
    Takes (fun document => ofLevel level document && inPeriod level t document) owner
      fun other u => other == level && decide (level.SamePeriod u t) := by
  intro other u document hregular hnames
  obtain ⟨hlevel, v, htime, hperiod⟩ := hregular.named hnames
  rw [Bool.eq_iff_iff, Bool.and_eq_true, ofLevel, Value.beq_text, hlevel, Option.some.injEq,
    Value.text.injEq, inPeriod, htime, Bool.and_eq_true, beq_iff_eq]
  simp only [decide_eq_true_eq]
  constructor
  · rintro ⟨hname, hsame⟩
    obtain rfl := Level.name_inj hname
    exact ⟨rfl, hperiod.symm.trans hsame⟩
  · rintro ⟨rfl, hsame⟩
    exact ⟨rfl, hperiod.trans hsame⟩

/-- A shard counts with the number that queries see of it, or not at all. -/
theorem weightAt_levelKey {counter : Counter} {table : Table} {chosen : Document → Bool}
    {places : Level → Instant → Bool} (htakes : Takes chosen counter.group.owner places)
    {level : Level} {t : Instant} {index : Nat}
    (hregular : ∀ document, table.document? (counter.levelKey level t index) = some document →
      Regular counter.group.owner level t document) :
    table.weightAt (counter.weight chosen) (counter.levelKey level t index) =
      if places level t then
        (visible counter.group.owner (table.document? (counter.levelKey level t index))).getD 0
      else 0 := by
  have hcollection : (counter.levelKey level t index).collection = counter.group.collection := by
    rw [levelKey, counterShardKey_eq]
  rw [Table.weightAt]
  cases hdocument : table.document? (counter.levelKey level t index) with
  | none => simp
  | some document =>
    have hchosen := htakes level t document (hregular document hdocument)
    cases hnames : document.names counter.group.owner with
    | false => simp [weight, hnames]
    | true => simp [weight, hnames, hcollection, hchosen hnames]

/-- A sum changes by what the shards change that write phases count for. -/
theorem Increments.sumOf_eq {counter : Counter} {table left : Table} {handles : List Counter}
    {tokens : List PendingIncrement} {additions : List Addition}
    (h : counter.Increments table handles tokens additions left) (htidy : counter.Tidy table)
    (hspace : counter.HasSpace table additions) {chosen : Document → Bool}
    {places : Level → Instant → Bool} (htakes : Takes chosen counter.group.owner places)
    (changed : Finset DocKey)
    (hchanged : ∀ level t index, places level t = true → partsOf additions level t index ≠ [] →
      counter.levelKey level t index ∈ changed) :
    counter.sumOf left chosen = counter.sumOf table chosen + ∑ key ∈ changed,
      (left.weightAt (counter.weight chosen) key - table.weightAt (counter.weight chosen) key) := by
  rw [sumOf_eq_weigh, sumOf_eq_weigh]
  refine Table.weigh_change fun key hkey => ?_
  by_cases howns : counter.Owns key
  · obtain ⟨level, t, index, rfl⟩ := howns
    obtain ⟨hregular, hvisible⟩ := h.shard htidy hspace level t index
    rw [weightAt_levelKey htakes hregular, weightAt_levelKey htakes fun document =>
      htidy level t index document]
    cases hplaces : places level t with
    | false => rfl
    | true =>
      have hnone : partsOf additions level t index = [] := by
        by_contra hparts
        exact hkey (hchanged level t index hplaces hparts)
      rw [hvisible, hnone]
      rfl
  · rw [Table.weightAt, Table.weightAt, h.kept howns]

end Counter

end Shardwise
