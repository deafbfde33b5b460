import Shardwise.Proofs.Shards.Counter.Details

/-!
# Queries for a range of periods

`Counter.detailPeriod` reads all documents of a level, whatever range it is asked for: one
that is no shard, or holds no time, ends every query.  The number that a document holds is
read only if its period begins in the range.

* `Counter.exists_addToPeriod_iff` says when a query gets over one document.
* `Counter.exists_foldlM_iff` says when a query gets over all documents, and
  `Counter.getElem?_foldlM` of which of them the sums are made that it returns.
* `Counter.detailPeriod_splits` puts a query together from those for both parts of its
  range.
-/

namespace Shardwise

namespace Instant

/-- A range is its front and its back. -/
theorem inRange_split {since mid before : Instant} (hfront : since < mid) (hback : mid < before)
    (t : Instant) : InRange since before t ↔ InRange since mid t ∨ InRange mid before t := by
  simp only [InRange, le_iff, lt_iff] at *
  omega

end Instant

namespace ShardGroup

variable {υ : Type} {group : ShardGroup} {ctx : Context} {env left : Env υ}

theorem check_eq_ok (h : (group.check ctx).runIn env = (.ok (), left)) :
    group.problem? = none ∧ ctx.check env.flags env.elapsed = .ok () ∧ left = env := by
  unfold check at h
  cases hproblem : group.problem? with
  | some problem =>
    rw [hproblem] at h
    cases h
  | none =>
    rw [hproblem] at h
    exact ⟨rfl, congrArg Prod.fst h, (congrArg Prod.snd h).symm⟩

/-- Only an open store answers. -/
theorem isOpen_of_owned {operation : String} {found : List (DocKey × Document)}
    (h : (group.owned ctx operation).runIn env = (.ok found, left)) :
    env.store.isOpen = true := by
  cases hopen : env.store.isOpen with
  | true => rfl
  | false =>
    cases hlive : ctx.check env.flags env.elapsed with
    | error error | ok _ =>
      simp only [owned, Op.query, Op.runIn_withContext, Op.runIn_bind, Op.runIn_check, hlive,
        Op.runIn_ask, Store.query, Store.ensureOpen, hopen] at h
      cases h

end ShardGroup

namespace Counter

open Instant (InRange)

variable {level : Level} {since before begun : Instant} {document : Document}
  {documents : List Document} {sums : PeriodSums}

/-! ## One document -/

/-- The document has a period, and a number if that begins in the range. -/
def Countable (level : Level) (since before : Instant) (document : Document) : Prop :=
  ∃ begun, Begins level document begun ∧
    (InRange since before begun → ∃ x, amount document = .ok x)

/-- Whether a query gets over a document does not depend on the sums so far. -/
theorem exists_addToPeriod_iff (sums : PeriodSums) :
    (∃ next, addToPeriod level since before sums document = .ok next) ↔
      Countable level since before document := by
  simp only [addToPeriod_eq_ok_iff]
  constructor
  · rintro ⟨next, begun, hbegun, ⟨-, x, hx, -⟩ | ⟨hout, -⟩⟩
    · exact ⟨begun, hbegun, fun _ => ⟨x, hx⟩⟩
    · exact ⟨begun, hbegun, fun hin => absurd hin hout⟩
  · rintro ⟨begun, hbegun, hreads⟩
    by_cases hin : InRange since before begun
    · obtain ⟨x, hx⟩ := hreads hin
      exact ⟨_, begun, hbegun, .inl ⟨hin, x, hx, rfl⟩⟩
    · exact ⟨sums, begun, hbegun, .inr ⟨hin, rfl⟩⟩

/-- A query for a range gets over the documents that queries for both of its parts get over. -/
theorem countable_split {mid : Instant} (hfront : since < mid) (hback : mid < before)
    (document : Document) : Countable level since before document ↔
      Countable level since mid document ∧ Countable level mid before document := by
  have hsplit := Instant.inRange_split hfront hback
  constructor
  · rintro ⟨begun, hbegun, hreads⟩
    exact ⟨⟨begun, hbegun, fun hin => hreads ((hsplit begun).mpr (.inl hin))⟩,
      ⟨begun, hbegun, fun hin => hreads ((hsplit begun).mpr (.inr hin))⟩⟩
  · rintro ⟨⟨begun, hbegun, hreads⟩, ⟨other, hother, hreads'⟩⟩
    obtain rfl := (hother.beginsAt_iff begun).mp hbegun.beginsAt_self
    exact ⟨begun, hbegun, fun hin => ((hsplit begun).mp hin).elim hreads hreads'⟩

/-! ## All documents -/

/-- A query succeeds when it gets over all documents. -/
theorem exists_foldlM_iff (sums : PeriodSums) :
    (∃ last, documents.foldlM (addToPeriod level since before) sums = .ok last) ↔
      ∀ document ∈ documents, Countable level since before document := by
  induction documents generalizing sums with
  | nil => exact ⟨fun _ _ h => (List.not_mem_nil h).elim, fun _ => ⟨sums, rfl⟩⟩
  | cons document documents ih =>
    rw [List.forall_mem_cons, ← exists_addToPeriod_iff sums, List.foldlM_cons]
    cases hnext : addToPeriod level since before sums document with
    | error error => simp [bind, Except.bind]
    | ok next => simpa [bind, Except.bind] using ih next

/-- The periods that have a sum are those of the documents. -/
theorem mem_foldlM {last : PeriodSums}
    (h : documents.foldlM (addToPeriod level since before) sums = .ok last) (begun : Instant) :
    begun ∈ last ↔ begun ∈ sums ∨
      InRange since before begun ∧
        ∃ document ∈ documents, beginsAt level begun document = true := by
  induction documents generalizing sums with
  | nil =>
    cases h
    simp
  | cons document documents ih =>
    rw [List.foldlM_cons] at h
    cases hnext : addToPeriod level since before sums document with
    | error error =>
      rw [hnext] at h
      cases h
    | ok next =>
      rw [hnext] at h
      have hone : begun ∈ next ↔ begun ∈ sums ∨
          InRange since before begun ∧ beginsAt level begun document = true := by
        obtain ⟨other, hother, ⟨hin, x, -, rfl⟩ | ⟨hout, rfl⟩⟩ := addToPeriod_eq_ok_iff.mp hnext
        · rw [hother.beginsAt_iff, Std.ExtTreeMap.mem_insert, Std.LawfulEqCmp.compare_eq_iff_eq,
            eq_comm]
          constructor
          · rintro (rfl | hold)
            · exact .inr ⟨hin, rfl⟩
            · exact .inl hold
          · rintro (hold | ⟨-, heq⟩)
            · exact .inr hold
            · exact .inl heq
        · rw [hother.beginsAt_iff]
          refine ⟨.inl, ?_⟩
          rintro (hold | ⟨hin, rfl⟩)
          · exact hold
          · exact absurd hin hout
      rw [ih h, hone, or_assoc, ← and_or_left]
      simp

/-- A sum is made of the documents that hold a time of its period. -/
theorem getElem?_foldlM
    (h : documents.foldlM (addToPeriod level since before) ∅ = .ok sums) (begun : Instant)
    (x : Float) :
    sums[begun]? = some x ↔ InRange since before begun ∧
      documents.filter (beginsAt level begun) ≠ [] ∧
        sumValues (documents.filter (beginsAt level begun)) = .ok x := by
  have hsome := mem_foldlM h begun
  simp only [Std.ExtTreeMap.not_mem_empty, false_or] at hsome
  have hnil : documents.filter (beginsAt level begun) ≠ [] ↔
      ∃ document ∈ documents, beginsAt level begun document = true := by
    simp [List.filter_eq_nil_iff]
  have hsum : begun ∈ sums →
      sumValues (documents.filter (beginsAt level begun)) = .ok (sums[begun]?.getD 0.0) := by
    intro hmem
    have hfold := foldlM_addToPeriod (hsome.mp hmem).1 h
    rwa [Std.ExtTreeMap.getElem?_empty, Option.getD_none, ← sumValues_eq] at hfold
  rw [hnil, ← and_assoc, ← hsome]
  constructor
  · intro hx
    have hmem : begun ∈ sums := Std.ExtTreeMap.mem_iff_isSome_getElem?.mpr (by rw [hx]; rfl)
    refine ⟨hmem, ?_⟩
    rw [hsum hmem, hx]
    rfl
  · rintro ⟨hmem, hx⟩
    obtain ⟨y, hy⟩ := Option.isSome_iff_exists.mp (Std.ExtTreeMap.mem_iff_isSome_getElem?.mp hmem)
    rw [hsum hmem, hy] at hx
    rw [hy, ← Except.ok.inj hx]
    rfl

/-! ## A query -/

/-- What a query for periods needs besides its range and its documents. -/
structure Answers (counter : Counter) (ctx : Context) (level : Level) {υ : Type} (env : Env υ) :
    Prop where
  problem : counter.group.problem? = none
  live : ctx.check env.flags env.elapsed = .ok ()
  dated : level.isDated = true
  isOpen : env.store.isOpen = true

/-- The documents of a level that hold a time of the period that begins at `begun`, ordered by
key. -/
def contributors (counter : Counter) (table : Table) (level : Level) (begun : Instant) :
    List (DocKey × Document) :=
  (counter.selected table level).filter fun entry => beginsAt level begun entry.2

variable {υ : Type} {counter : Counter} {ctx : Context} {env left : Env υ}

/-- A query goes through the documents of the level, and changes nothing. -/
theorem Answers.runIn_detailPeriod (h : counter.Answers ctx level env) (hrange : since < before) :
    (counter.detailPeriod ctx level since before).runIn env =
      (((counter.selected env.store.table level).map Prod.snd).foldlM
        (addToPeriod level since before) ∅, env) := by
  have hlt : (compare since before).isLT = true := Ordering.isLT_iff_eq_lt.mpr hrange
  simp only [detailPeriod, ShardGroup.check, h.problem, h.dated, hlt, if_true, Op.runIn_bind,
    Op.runIn_check, h.live, counter.runIn_levelDocuments h.isOpen h.live,
    Op.runIn_ofExcept]

/-- A query that succeeds had all that it needs. -/
theorem answers_of_detailPeriod
    (h : (counter.detailPeriod ctx level since before).runIn env = (.ok sums, left)) :
    counter.Answers ctx level env ∧ since < before := by
  unfold detailPeriod at h
  obtain ⟨_, checked, hcheck, hrest⟩ := Op.runIn_bind_eq_ok.mp h
  obtain ⟨hproblem, hlive, rfl⟩ := ShardGroup.check_eq_ok hcheck
  dsimp only at hrest
  split at hrest
  · rename_i hdated
    split at hrest
    · rename_i hrange
      obtain ⟨documents, midway, hfound, -⟩ := Op.runIn_bind_eq_ok.mp hrest
      obtain ⟨found, asked, howned, -⟩ := Op.runIn_bind_eq_ok.mp hfound
      exact ⟨⟨hproblem, hlive, hdated, ShardGroup.isOpen_of_owned howned⟩,
        Ordering.isLT_iff_eq_lt.mp hrange⟩
    · cases hrest
  · cases hrest

/-- A query succeeds when it has all that it needs and gets over all documents. -/
theorem exists_detailPeriod_iff (hrange : since < before) :
    (∃ sums left, (counter.detailPeriod ctx level since before).runIn env = (.ok sums, left)) ↔
      counter.Answers ctx level env ∧
        ∀ document ∈ (counter.selected env.store.table level).map Prod.snd,
          Countable level since before document := by
  rw [← exists_foldlM_iff ∅]
  constructor
  · rintro ⟨sums, left, hrun⟩
    have hanswers := (answers_of_detailPeriod hrun).1
    rw [hanswers.runIn_detailPeriod hrange] at hrun
    exact ⟨hanswers, sums, congrArg Prod.fst hrun⟩
  · rintro ⟨hanswers, sums, hsums⟩
    exact ⟨sums, env, by rw [hanswers.runIn_detailPeriod hrange, hsums]⟩

/-- A query that succeeds changes nothing, and returns sums of contributors. -/
theorem getElem?_detailPeriod
    (h : (counter.detailPeriod ctx level since before).runIn env = (.ok sums, left)) :
    left = env ∧ ∀ begun x, sums[begun]? = some x ↔ InRange since before begun ∧
      counter.contributors env.store.table level begun ≠ [] ∧
        sumValues ((counter.contributors env.store.table level begun).map Prod.snd) = .ok x := by
  obtain ⟨hanswers, hrange⟩ := answers_of_detailPeriod h
  rw [hanswers.runIn_detailPeriod hrange] at h
  refine ⟨(congrArg Prod.snd h).symm, fun begun x => ?_⟩
  have hpart := getElem?_foldlM (congrArg Prod.fst h) begun x
  rw [List.filter_map] at hpart
  simpa [contributors, Function.comp_def] using hpart

/-- A query for a range succeeds exactly if those for its front and its back do. -/
theorem exists_detailPeriod_split_iff {mid : Instant} (hfront : since < mid)
    (hback : mid < before) :
    (∃ sums left,
        (counter.detailPeriod ctx level since before).runIn env = (.ok sums, left)) ↔
      (∃ front left, (counter.detailPeriod ctx level since mid).runIn env = (.ok front, left)) ∧
        ∃ back left, (counter.detailPeriod ctx level mid before).runIn env = (.ok back, left) := by
  have hwhole : since < before := Std.TransCmp.lt_trans hfront hback
  rw [exists_detailPeriod_iff hwhole, exists_detailPeriod_iff hfront,
    exists_detailPeriod_iff hback, and_and_and_comm, and_self]
  refine and_congr_right fun _ => ?_
  simp only [countable_split hfront hback, forall_and]

/-- No period begins in two ranges of which one ends where the other starts. -/
theorem getElem?_ne_some_of_detailPeriod {mid : Instant} {front back : PeriodSums}
    {left' : Env υ}
    (hrunFront : (counter.detailPeriod ctx level since mid).runIn env = (.ok front, left))
    (hrunBack : (counter.detailPeriod ctx level mid before).runIn env = (.ok back, left'))
    {begun : Instant} {x : Float} (hx : front[begun]? = some x) (y : Float) :
    back[begun]? ≠ some y := by
  intro hy
  have hearlier := (((getElem?_detailPeriod hrunFront).2 begun x).mp hx).1.2
  have hlater := (((getElem?_detailPeriod hrunBack).2 begun y).mp hy).1.1
  exact Instant.le_iff.mp hlater hearlier

/-- The documents of the level all have a period, and count for its sum if that begins in the
range. -/
theorem mem_contributors
    (h : (counter.detailPeriod ctx level since before).runIn env = (.ok sums, left))
    {entry : DocKey × Document} (hentry : entry ∈ counter.selected env.store.table level) :
    ∃ t begun, entry.2.get? timeField = some (.time t) ∧ level.start t = .ok begun ∧
      (InRange since before begun → begun ∈ sums) ∧
      ∀ other, entry ∈ counter.contributors env.store.table level other ↔ other = begun := by
  obtain ⟨hanswers, hrange⟩ := answers_of_detailPeriod h
  have hcountable := ((exists_detailPeriod_iff hrange).mp ⟨sums, left, h⟩).2
  obtain ⟨begun, hbegun, -⟩ := hcountable entry.2 (List.mem_map_of_mem hentry)
  obtain ⟨t, htime, hstart⟩ := beginsAt_eq_true.mp hbegun.beginsAt_self
  refine ⟨t, begun, htime, hstart, fun hin => ?_, fun other => ?_⟩
  · rw [hanswers.runIn_detailPeriod hrange] at h
    exact (mem_foldlM (congrArg Prod.fst h) begun).mpr
      (.inr ⟨hin, entry.2, List.mem_map_of_mem hentry, hbegun.beginsAt_self⟩)
  · rw [contributors, List.mem_filter, hbegun.beginsAt_iff]
    exact and_iff_right hentry

/-- A query for a range succeeds exactly if those for its front and its back do, and then it
returns what they return.  The sums of a query are those of the periods that begin in its
range and that some document of the level lies in, and every document counts for one of
them only. -/
theorem detailPeriod_splits (counter : Counter) (ctx : Context) (level : Level)
    {since mid before : Instant} (hfront : since < mid) (hback : mid < before) (env : Env υ) :
    ((∃ sums left,
        (counter.detailPeriod ctx level since before).runIn env = (.ok sums, left)) ↔
      (∃ front left, (counter.detailPeriod ctx level since mid).runIn env = (.ok front, left)) ∧
        ∃ back left, (counter.detailPeriod ctx level mid before).runIn env = (.ok back, left)) ∧
    (∀ sums left, (counter.detailPeriod ctx level since before).runIn env = (.ok sums, left) →
      ∃ front back, (counter.detailPeriod ctx level since mid).runIn env = (.ok front, env) ∧
        (counter.detailPeriod ctx level mid before).runIn env = (.ok back, env) ∧
        (∀ begun ∈ front, begun ∉ back) ∧
        ∀ begun : Instant, sums[begun]? = front[begun]?.or back[begun]?) ∧
    ∀ low high sums left,
      (counter.detailPeriod ctx level low high).runIn env = (.ok sums, left) →
        left = env ∧
        (∀ (begun : Instant) (x : Float), sums[begun]? = some x → InRange low high begun ∧
          (∃ entry ∈ counter.selected env.store.table level, ∃ t,
            entry.2.get? timeField = some (.time t) ∧ level.start t = .ok begun) ∧
          sumValues ((counter.contributors env.store.table level begun).map Prod.snd) = .ok x) ∧
        ∀ entry ∈ counter.selected env.store.table level, ∃ t begun,
          entry.2.get? timeField = some (.time t) ∧ level.start t = .ok begun ∧
            (InRange low high begun → begun ∈ sums) ∧
            ∀ other, entry ∈ counter.contributors env.store.table level other ↔ other = begun := by
  refine ⟨exists_detailPeriod_split_iff hfront hback, fun sums left hrun => ?_,
    fun low high sums left hrun => ?_⟩
  · obtain ⟨⟨front, _, hrunFront⟩, back, _, hrunBack⟩ :=
      (exists_detailPeriod_split_iff hfront hback).mp ⟨sums, left, hrun⟩
    obtain ⟨-, hsums⟩ := getElem?_detailPeriod hrun
    obtain ⟨rfl, hfronts⟩ := getElem?_detailPeriod hrunFront
    obtain ⟨rfl, hbacks⟩ := getElem?_detailPeriod hrunBack
    refine ⟨front, back, hrunFront, hrunBack, fun begun hmem hmem' => ?_, fun begun => ?_⟩
    · obtain ⟨x, hx⟩ := Option.isSome_iff_exists.mp (Std.ExtTreeMap.mem_iff_isSome_getElem?.mp hmem)
      obtain ⟨y, hy⟩ := Option.isSome_iff_exists.mp
        (Std.ExtTreeMap.mem_iff_isSome_getElem?.mp hmem')
      exact getElem?_ne_some_of_detailPeriod hrunFront hrunBack hx y hy
    · ext x
      rw [hsums, Instant.inRange_split hfront hback, or_and_right, ← hfronts, ← hbacks,
        Option.or_eq_some_iff]
      refine or_congr_right ⟨fun hx => ⟨?_, hx⟩, And.right⟩
      exact Option.eq_none_iff_forall_ne_some.mpr fun y hy =>
        getElem?_ne_some_of_detailPeriod hrunFront hrunBack hy x hx
  · obtain ⟨rfl, hsums⟩ := getElem?_detailPeriod hrun
    refine ⟨rfl, fun begun x hx => ?_, fun entry hentry => mem_contributors hrun hentry⟩
    obtain ⟨hin, hsome, hsum⟩ := (hsums begun x).mp hx
    obtain ⟨entry, hentry⟩ := List.exists_mem_of_ne_nil _ hsome
    obtain ⟨hselected, hbegins⟩ := List.mem_filter.mp hentry
    exact ⟨hin, ⟨entry, hselected, beginsAt_eq_true.mp hbegins⟩, hsum⟩

/-- A counter of rides with one shard. -/
def rides : Counter where
  group := ⟨"counters", "ride", 1⟩
  dateHierarchy := true

/-- Two hours after the epoch. -/
def thirdHour : Instant := ⟨7200, 0, by decide⟩

/-- Two rides in the first hour, and one in a leap second at the end of the second. -/
def ridden : Env Unit where
  store.database.table :=
    let shard (time : Instant) (value : Int64) : Document :=
      ⟨ShardRecord.fields
        { owner := "ride", value := .int value, level := some .hour, time := some time }⟩
    ({} : Table)
      |>.put (rides.levelKey .hour .epoch 0) (shard .epoch 2) 1
      |>.put (rides.levelKey .hour secondHour 0) (shard ⟨7199, 1999999999, by decide⟩ 1) 2
  user := ()

theorem detailPeriod_splits_ridden : ∃ sums front back,
    (rides.detailPeriod Session.live .hour .epoch thirdHour).runIn ridden = (.ok sums, ridden) ∧
      (rides.detailPeriod Session.live .hour .epoch secondHour).runIn ridden = (.ok front, ridden) ∧
      (rides.detailPeriod Session.live .hour secondHour thirdHour).runIn ridden =
        (.ok back, ridden) ∧
      (∀ begun ∈ front, begun ∉ back) ∧
      ∀ begun : Instant, sums[begun]? = front[begun]?.or back[begun]? := by
  have hok : ((rides.detailPeriod Session.live .hour .epoch thirdHour).runIn ridden).1.isOk =
      true := by
    decide +kernel
  obtain ⟨-, hunion, hfacts⟩ := detailPeriod_splits rides Session.live .hour
    (show Instant.epoch < secondHour by decide) (show secondHour < thirdHour by decide) ridden
  rcases hrun : (rides.detailPeriod Session.live .hour .epoch thirdHour).runIn ridden with
    ⟨error | sums, left⟩
  · rw [hrun] at hok
    cases hok
  · obtain rfl := (hfacts _ _ _ _ hrun).1
    obtain ⟨front, back, hparts⟩ := hunion _ _ hrun
    exact ⟨sums, front, back, rfl, hparts⟩

end Counter

end Shardwise
