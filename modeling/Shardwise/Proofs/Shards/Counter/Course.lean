import Shardwise.Proofs.Session.Invariant
import Shardwise.Proofs.Shards.Counter.Phases

/-!
# The runs of a counter

A commit of a run adds a number to all documents of an increment.  Those that its
read phase did not look at, because it had found a finer one, are not in the read
set of the attempt, and no commit compares them; an increment is all the same
never lost.

* `Counter.protocol` is what callers do with a counter, and `Counter.law` what has
  to be known of the phases.
* `Counter.Course` is the invariant of runs: every document is what the ledger of
  the committed increments says, and the documents that a token takes to exist
  are in the ledger.
* `Counter.Course.expected` is why the short look is enough: a token is right
  about each of its documents when its attempt commits.
-/

namespace Shardwise

namespace Counter

/-! ## What callers do with a counter -/

/-- A handle with the same names.  The number of shards, the clock and the date
hierarchy may differ. -/
def Same (counter handle : Counter) : Prop :=
  handle.group.collection = counter.group.collection ∧ handle.group.owner = counter.group.owner

/-- The key is that of a shard of the counter. -/
def Owns (counter : Counter) (key : DocKey) : Prop :=
  ∃ level t index, key = counter.levelKey level t index

/-- The postings of some increments under a key. -/
def posted (counter : Counter) (key : DocKey) (increments : List Increment) : List Posting :=
  Increment.posted counter.group.collection counter.group.owner key increments

/-- What callers do with a counter: they increment it through any handles with the
same names.  No shard comes to more than its word holds. -/
def protocol (counter : Counter) : Protocol PendingIncrement Increment where
  Owns := counter.Owns
  Reads phase := ∃ handle ctx, counter.Same handle ∧ phase = handle.incrementRead ctx
  Writes tokens phase := ∃ handle ctx, counter.Same handle ∧ ∃ token ∈ tokens, ∃ value,
    phase = (fun _ => token.increment value) <$> handle.incrementWrite ctx token value
  Fits log := ∀ key,
    Posting.total (counter.posted key (log.flatMap Commitment.entries)) < 2 ^ 63

theorem Same.levelKey_eq {counter handle : Counter} (h : counter.Same handle) (level : Level)
    (t : Instant) (index : Nat) :
    handle.levelKey level t index = counter.levelKey level t index := by
  obtain ⟨hcollection, howner⟩ := h
  simp only [levelKey, hcollection, howner]

theorem Same.incrementWrites_eq {counter handle : Counter} (h : counter.Same handle)
    (token : PendingIncrement) (value : Int64) :
    handle.incrementWrites token value = counter.incrementWrites token value := by
  simp only [incrementWrites, h.2]

/-- The documents of a token are those of its levels. -/
def Placed (counter : Counter) (token : PendingIncrement) : Prop :=
  token.shards.map (fun shard => (shard.level, shard.key)) =
    (Increment.levelsOf token.dated).map fun level =>
      (level, counter.levelKey level token.time token.index)

/-- What the token takes to exist is there, or something finer is. -/
def Vouched (counter : Counter) (table : Table) (token : PendingIncrement) : Prop :=
  ∀ shard ∈ token.shards, shard.present = true → ∃ level, shard.level.depth ≤ level.depth ∧
    (table.document? (counter.levelKey level token.time token.index)).isSome = true

/-- The documents that a token takes to be absent. -/
def missing (token : PendingIncrement) : List (DocKey × Option Document) :=
  (token.shards.filter fun shard => !shard.present).map fun shard => (shard.key, none)

/-- What has to be known of the phases of a counter. -/
def law (counter : Counter) : counter.protocol.Law where
  stamp token := token.stamp.attempt
  Seen table token := counter.Placed token ∧ counter.Vouched table token
  Remembers token memory := counter.Placed token ∧ memory = missing token
  Backed tokens id increment writes := ∃ token ∈ tokens, ∃ value, token.stamp.attempt = id ∧
    0 < value.toInt ∧ increment = token.increment value ∧
      writes = counter.incrementWrites token value
  read := by
    rintro _ attempt env outcome later left ⟨handle, ctx, hsame, rfl⟩ hrun
    have hreads : (handle.incrementRead ctx : TxOp Unit PendingIncrement).ReadsOnly :=
      handle.readsOnly_incrementRead ctx
    refine ⟨hreads.store_eq hrun, hreads.reads hrun, ?_⟩
    rintro token rfl
    obtain ⟨hstamp, hplaces, hpresent, habsent⟩ := incrementRead_eq_ok hrun
    simp only [hsame.levelKey_eq] at hplaces hpresent
    refine ⟨?_, ⟨hplaces, fun shard hshard htrue => ?_⟩, missing token, ⟨hplaces, rfl⟩, ?_⟩
    · rw [hstamp]
      exact (hreads.reads hrun).id
    · exact (hpresent shard hshard htrue).resolve_left Bool.false_ne_true
    · intro entry hentry
      obtain ⟨shard, hshard, rfl⟩ := List.mem_map.mp hentry
      rw [List.mem_filter, Bool.not_eq_true'] at hshard
      exact habsent shard hshard.1 hshard.2
  write := by
    rintro tokens _ attempt env outcome later left
      ⟨handle, ctx, hsame, token, htoken, value, rfl⟩ hrun
    rw [TxOp.runIn_map] at hrun
    rcases handle.incrementWrite_cases ctx token value attempt env with
      ⟨error, hcase⟩ | ⟨hcase, hstamp, hvalue⟩
    · rw [hcase] at hrun
      cases hrun
      exact ⟨rfl, .inl ⟨⟨error, rfl⟩, rfl⟩⟩
    · rw [hcase] at hrun
      cases hrun
      refine ⟨rfl, .inr ⟨_, _, rfl, rfl, token, htoken, value, ?_, hvalue, rfl, ?_⟩⟩
      · exact congrArg Stamp.attempt hstamp
      · exact hsame.incrementWrites_eq token value
  backed_append := by
    rintro tokens id increment writes more ⟨token, htoken, hbacked⟩
    exact ⟨token, List.mem_append_left more htoken, hbacked⟩

/-! ## The ledger of a run -/

theorem posted_append (counter : Counter) (key : DocKey) (first second : List Increment) :
    counter.posted key (first ++ second) = counter.posted key first ++ counter.posted key second :=
  Increment.posted_append _ _ key first second

/-- Under the key of a shard are the postings of the increments that count for it. -/
theorem posted_levelKey (counter : Counter) (level : Level) (t : Instant) (index : Nat)
    (increments : List Increment) :
    counter.posted (counter.levelKey level t index) increments =
      (increments.filter (·.Covers level t index)).map
        (·.posting counter.group.collection counter.group.owner level) :=
  Increment.posted_levelKey _ _ level t index increments

theorem levelKey_eq_iff {counter : Counter} {level other : Level} {t u : Instant}
    {index i : Nat} :
    counter.levelKey level t index = counter.levelKey other u i ↔
      level = other ∧ level.SamePeriod t u ∧ index = i :=
  counterShardKey_eq_iff

/-- The postings of one increment under the key of a shard, of which there is at
most one. -/
theorem posted_singleton (counter : Counter) (increment : Increment) (level : Level) (t : Instant)
    (index : Nat) :
    counter.posted (counter.levelKey level t index) [increment] =
      if increment.Covers level t index then
        [increment.posting counter.group.collection counter.group.owner level]
      else [] := by
  rw [posted_levelKey, List.filter_singleton]
  by_cases h : increment.Covers level t index <;> simp [h]

/-- Something is posted for a shard when a committed increment counts for it. -/
theorem posted_ne_nil (counter : Counter) {level : Level} {t : Instant} {index : Nat}
    {increments : List Increment} :
    counter.posted (counter.levelKey level t index) increments ≠ [] ↔
      ∃ increment ∈ increments, increment.Covers level t index := by
  rw [posted_levelKey, ne_eq, List.map_eq_nil_iff, List.filter_eq_nil_iff]
  simp

/-- Postings are positive where increments are. -/
theorem posted_pos {counter : Counter} {key : DocKey} {increments : List Increment}
    (h : ∀ increment ∈ increments, 0 < increment.value.toInt) :
    ∀ posting ∈ counter.posted key increments, 0 < posting.amount.toInt := by
  intro posting hposting
  obtain ⟨increment, hincrement, hmade⟩ := List.mem_flatMap.mp (List.mem_filter.mp hposting).1
  obtain ⟨level, -, rfl⟩ := List.mem_map.mp hmade
  exact h increment hincrement

theorem writesOn_map {α : Type} (place : α → DocKey) (write : α → Write) (items : List α)
    (key : DocKey) :
    writesOn key (items.map fun item => (place item, write item)) =
      (items.filter (place · = key)).map write := by
  simp [writesOn, List.filter_map, Function.comp_def]

/-- The writes of a token that is right about its documents are one for each
posting. -/
theorem incrementWrites_eq {counter : Counter} {token : PendingIncrement}
    (hplaced : counter.Placed token) {present : DocKey → Bool}
    (hright : ∀ shard ∈ token.shards, shard.present = present shard.key) (value : Int64) :
    counter.incrementWrites token value =
      ((token.increment value).postings counter.group.collection counter.group.owner).map
        fun posting => (posting.key,
          ShardGroup.shardWrite (present posting.key) (posting.record counter.group.owner)) := by
  -- What is written depends on the level and on the key only.
  let entry : Level × DocKey → DocKey × Write := fun place => (place.2,
    ShardGroup.shardWrite (present place.2)
      { owner := counter.group.owner, value := .int value,
        level := some place.1, time := some token.time })
  have hentry : counter.incrementWrites token value =
      (token.shards.map fun shard => (shard.level, shard.key)).map entry := by
    rw [incrementWrites, List.map_map]
    refine List.map_congr_left fun shard hshard => ?_
    rw [hright shard hshard]
    rfl
  rw [hentry, hplaced, Increment.postings, List.map_map, List.map_map]
  rfl

/-! ## The course of a run -/

/-- What the runs of a counter keep. -/
structure Course (counter : Counter) (s : Session PendingIncrement Increment) : Prop where
  /-- Every document is what the ledger says. -/
  stored : ∀ key, counter.Owns key →
    s.table.document? key = Posting.tally counter.group.owner (counter.posted key s.committed)
  /-- What a token takes to exist is in the ledger. -/
  found : ∀ token ∈ s.tokens, ∀ shard ∈ token.shards, shard.present = true →
    counter.posted shard.key s.committed ≠ []
  positive : ∀ increment ∈ s.committed, 0 < increment.value.toInt
  fits : counter.protocol.Fits s.log

theorem Course.of_starts {counter : Counter} {s : Session PendingIncrement Increment}
    (h : counter.protocol.Starts s) : counter.Course s := by
  have hnone : s.committed = [] := by simp [Session.committed, h.log]
  refine ⟨fun key hkey => ?_, by simp [h.tokens], by simp [hnone], fun key => ?_⟩
  · rw [Table.document?_eq_none.mpr (h.absent key hkey), hnone]
    rfl
  · have hzero : Posting.total (counter.posted key []) < 2 ^ 63 := by
      show (0 : Int) < 2 ^ 63
      decide
    rwa [h.log]

/-- A document exists exactly if something is posted under its key. -/
theorem Course.isSome_iff {counter : Counter} {s : Session PendingIncrement Increment}
    (h : counter.Course s) (level : Level) (t : Instant) (index : Nat) :
    (s.table.document? (counter.levelKey level t index)).isSome = true ↔
      ∃ increment ∈ s.committed, increment.Covers level t index := by
  rw [h.stored _ ⟨level, t, index, rfl⟩, Posting.tally_isSome, ← counter.posted_ne_nil]
  simp

/-- A token is in the ledger with what a read phase vouched for: a finer document
exists only together with this one. -/
theorem Course.vouched {counter : Counter} {s : Session PendingIncrement Increment}
    (h : counter.Course s) {token : PendingIncrement} (hplaced : counter.Placed token)
    (hvouched : counter.Vouched s.table token) :
    ∀ shard ∈ token.shards, shard.present = true → counter.posted shard.key s.committed ≠ [] := by
  intro shard hshard hpresent
  obtain ⟨level, hdepth, hsome⟩ := hvouched shard hshard hpresent
  obtain ⟨increment, hincrement, hcovers⟩ := (h.isSome_iff _ _ _).mp hsome
  rw [(of_places hplaced hshard).2, posted_ne_nil]
  exact ⟨increment, hincrement, hcovers.coarser hdepth⟩

/-- A step without a commit of an increment. -/
theorem Course.quiet {counter : Counter} {s left : Session PendingIncrement Increment}
    (h : counter.Course s) (hfits : counter.protocol.Fits left.log)
    (hsame : left.committed = s.committed)
    (hkept : ∀ key, counter.Owns key → left.table.document? key = s.table.document? key)
    (htokens : ∀ token ∈ left.tokens, token ∈ s.tokens ∨
      counter.Placed token ∧ counter.Vouched s.table token) : counter.Course left := by
  refine ⟨fun key hkey => ?_, fun token htoken => ?_, hsame ▸ h.positive, hfits⟩
  · rw [hkept key hkey, hsame]
    exact h.stored key hkey
  · rw [hsame]
    rcases htokens token htoken with hold | ⟨hplaced, hvouched⟩
    · exact h.found token hold
    · exact h.vouched hplaced hvouched

/-- When its attempt commits, a token is right about each of its documents: those
that it takes to exist are never removed, and the others were compared. -/
theorem Course.expected {counter : Counter} {s : Session PendingIncrement Increment}
    (h : counter.Course s) {token : PendingIncrement} (htoken : token ∈ s.tokens)
    (hplaced : counter.Placed token)
    (habsent : ∀ shard ∈ token.shards, shard.present = false →
      s.table.document? shard.key = none) :
    ∀ shard ∈ token.shards, shard.present = !(counter.posted shard.key s.committed).isEmpty := by
  intro shard hshard
  cases hpresent : shard.present with
  | true =>
    have hposted := h.found token htoken shard hshard hpresent
    rw [List.isEmpty_eq_false_iff.mpr hposted]
    rfl
  | false =>
    have hnone := habsent shard hshard hpresent
    rw [h.stored _ ⟨_, _, _, (of_places hplaced hshard).2⟩, Posting.tally_eq_none] at hnone
    rw [hnone]
    rfl

/-- A commit of an increment. -/
theorem Course.add {counter : Counter} {s left : Session PendingIncrement Increment}
    (h : counter.Course s) (hfits : counter.protocol.Fits left.log) {token : PendingIncrement}
    (htoken : token ∈ s.tokens) {value : Int64} (hvalue : 0 < value.toInt)
    (hcommitted : left.committed = s.committed ++ [token.increment value])
    (htokens : left.tokens = s.tokens) (hplaced : counter.Placed token)
    (habsent : ∀ shard ∈ token.shards, shard.present = false →
      s.table.document? shard.key = none)
    (happlied : ∀ key, counter.Owns key →
      (writesOn key (counter.incrementWrites token value)).foldlM Database.applyWrite
        (s.table.document? key) = .ok (left.table.document? key)) : counter.Course left := by
  have hpositive : ∀ increment ∈ left.committed, 0 < increment.value.toInt := by
    intro increment hmem
    rw [hcommitted] at hmem
    rcases List.mem_append.mp hmem with hold | hlast
    · exact h.positive increment hold
    · rw [List.mem_singleton.mp hlast]
      exact hvalue
  let present : DocKey → Bool := fun key => !(counter.posted key s.committed).isEmpty
  have hright : ∀ shard ∈ token.shards, shard.present = present shard.key :=
    h.expected htoken hplaced habsent
  refine ⟨?_, fun other hother shard hshard hpresent => ?_, hpositive, hfits⟩
  · rintro _ ⟨level, t, index, rfl⟩
    have happlied := happlied _ ⟨level, t, index, rfl⟩
    have hroom : Posting.total (counter.posted (counter.levelKey level t index)
      left.committed) < 2 ^ 63 := hfits _
    have hpos : ∀ posting ∈ counter.posted (counter.levelKey level t index) left.committed,
        0 < posting.amount.toInt := posted_pos hpositive
    rw [incrementWrites_eq hplaced hright, writesOn_map, levelKey,
      Increment.filter_postings, ← levelKey, h.stored _ ⟨level, t, index, rfl⟩] at happlied
    rw [hcommitted, posted_append, posted_singleton] at hroom hpos ⊢
    by_cases hcovers : (token.increment value).Covers level t index
    · have hkey : ((token.increment value).posting counter.group.collection counter.group.owner
          level).key = counter.levelKey level t index :=
        levelKey_eq_iff.mpr ⟨rfl, hcovers.2.2, hcovers.1⟩
      rw [if_pos hcovers] at happlied hroom hpos ⊢
      rw [List.map_singleton, hkey, List.foldlM_cons, Posting.applyWrite_tally hpos hroom]
        at happlied
      exact (Except.ok.inj happlied).symm
    · rw [if_neg hcovers] at happlied ⊢
      rw [List.append_nil]
      exact (Except.ok.inj happlied).symm
  · rw [htokens] at hother
    rw [hcommitted, posted_append]
    exact List.append_ne_nil_of_left_ne_nil (h.found other hother shard hshard hpresent) _

/-- Every turn of a run keeps the course. -/
theorem Course.turn {counter : Counter} {s left : Session PendingIncrement Increment}
    (h : counter.Course s) (hturn : Session.Turn counter.law s left)
    (hfits : counter.protocol.Fits left.log) : counter.Course left := by
  cases hturn with
  | quiet hlog hkept htokens =>
    exact h.quiet hfits (by rw [Session.committed, hlog, Session.committed]) hkept htokens
  | bare hlog hkept htokens =>
    refine h.quiet hfits (by simp [Session.committed, hlog]) hkept fun token htoken => ?_
    exact .inl (htokens ▸ htoken)
  | commit id increment writes hlog htokens hbacked hrecalled happlied =>
    obtain ⟨token, htoken, value, hstamp, hvalue, rfl, rfl⟩ := hbacked
    obtain ⟨memory, ⟨hplaced, rfl⟩, hread⟩ := hrecalled token htoken hstamp
    have hcommitted : left.committed = s.committed ++ [token.increment value] := by
      simp [Session.committed, hlog]
    refine h.add hfits htoken hvalue hcommitted htokens hplaced (fun shard hshard hfalse => ?_)
      happlied
    have hentry : (shard.key, none) ∈ missing token := by
      refine List.mem_map.mpr ⟨shard, List.mem_filter.mpr ⟨hshard, ?_⟩, rfl⟩
      rw [hfalse]
      rfl
    rcases hread _ hentry with hgone | hgone <;> exact hgone

theorem course_of_reaches {counter : Counter} {start s : Session PendingIncrement Increment}
    (hstart : counter.protocol.Starts start) (h : counter.protocol.Reaches start s) :
    counter.Course s :=
  h.rec_turns counter.law hstart (.of_starts hstart) fun hturn hfits hcourse =>
    hcourse.turn hturn hfits

end Counter

end Shardwise
