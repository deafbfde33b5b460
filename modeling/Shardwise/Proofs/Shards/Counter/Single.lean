import Shardwise.Proofs.Session.Alone
import Shardwise.Proofs.Shards.Counter.Additions

/-!
# An increment in a transaction of its own

`Counter.increment` runs its read phase and its write phase in one attempt.  While
nobody else uses the store, it fails and changes no document, or it adds its number
to the documents of the shard that was chosen.

* `Counter.increment_cases` says which documents and what they come to.
* `Counter.Loses` are the documents that an increment misses.  It takes all coarser
  documents to exist when it finds one, and adds to what is not there.
* `Counter.Adds.sumOf_eq` says by how much sums of documents change.
-/

namespace Shardwise

namespace Counter

/-! ## What an increment runs -/

/-- The shard that the next increment chooses. -/
def pick (counter : Counter) (env : Env Unit) : Nat :=
  env.picks.headD 0 % counter.group.numShards

theorem steady_incrementWrite (counter : Counter) (ctx : Context) (token : PendingIncrement)
    (value : Int64) : (counter.incrementWrite ctx token value : TxOp Unit Unit).Steady := by
  refine .of_reads fun attempt env => ?_
  rcases counter.incrementWrite_cases ctx token value attempt env with ⟨error, hrun⟩ | ⟨hrun, -⟩ <;>
    rw [hrun] <;> exact ⟨rfl, rfl⟩

/-- An increment read a table and committed what it adds. -/
structure Adds (counter handle : Counter) (env : Env Unit) (value : Int64)
    (token : PendingIncrement) (left : Table) : Prop where
  same : counter.Same handle
  increments : counter.Increments env.store.table [handle] [token] [⟨token, value⟩] left
  index : token.index = handle.pick env
  time : token.time = handle.clockTime env
  dated : token.dated = handle.dateHierarchy

/-- An increment fails and leaves the documents as they are, or it is committed. -/
theorem increment_cases {counter handle : Counter} (hsame : counter.Same handle) (ctx : Context)
    (value : Int64) (env : Env Unit) :
    (∃ error left, (handle.increment ctx value).runIn env = (.error error, left) ∧
        left.store.table = env.store.table) ∨
      ∃ token left, (handle.increment ctx value).runIn env = (.ok (), left) ∧
        counter.Adds handle env value token left.store.table := by
  have hsteady : (do
      let pending ← handle.incrementRead ctx
      handle.incrementWrite ctx pending value : TxOp Unit Unit).Steady :=
    (handle.readsOnly_incrementRead ctx).steady.bind fun token =>
      handle.steady_incrementWrite ctx token value
  unfold increment
  rcases Op.transact_cases hsteady ctx env with hfailed | ⟨_, left, hrun, hdone⟩
  · exact .inl hfailed
  · refine .inr ?_
    obtain ⟨begun, store, later, between, version, committed, after, hbegin, hbody, hcommit,
      rfl⟩ := hdone
    obtain ⟨rfl, htable⟩ := Op.begin_eq_ok hbegin
    obtain ⟨token, midway, env₁, hread, hwrite⟩ := TxOp.runIn_bind_eq_ok.mp hbody
    have hstore : env₁.store = store := (handle.readsOnly_incrementRead ctx).store_eq hread
    have hlast : between.store = env₁.store := by
      have hkept := (handle.steady_incrementWrite ctx token value midway env₁).1
      rwa [hwrite] at hkept
    obtain ⟨hindex, htime, hshards⟩ := incrementRead_eq hread
    refine ⟨token, _, hrun, hsame,
      ⟨[()], .refl _, { id := env.store.database.nextId }, midway, later, rfl, ?_, ?_, ?_⟩,
      hindex, htime, dated_of_observe hshards⟩
    · exact .cons { env with store } ⟨hsame, ctx, rfl⟩ htable hread (.nil midway)
    · refine .cons env₁ ⟨handle, ctx, hsame, rfl⟩ ?_ hwrite (.nil later)
      rw [hstore]
      exact htable
    · refine ⟨between.store, version, committed, after, ?_, hcommit, rfl⟩
      rw [hlast, hstore]
      exact htable

/-! ## What it does to the shards -/

/-- The documents that an increment writes have room for what it adds. -/
def HasRoom (counter : Counter) (env : Env Unit) (value : Int64) : Prop :=
  ∀ level ∈ Increment.levelsOf counter.dateHierarchy,
    held (env.store.table.document?
      (counter.levelKey level (counter.clockTime env) (counter.pick env))) + value.toInt < 2 ^ 63

/-- An increment does not count in the document of a level: it finds this document
or a finer one, and so adds to this document; but that is not there, or it does not
name the owner. -/
def Loses (counter : Counter) (table : Table) (level : Level) (t : Instant) (index : Nat) :
    Prop :=
  (∃ fine, level.depth ≤ fine.depth ∧
      (table.document? (counter.levelKey fine t index)).isSome = true) ∧
    visible counter.group.owner (table.document? (counter.levelKey level t index)) = none

theorem held_lt (document : Option Document) : held document < 2 ^ 63 := by
  have hpos : (0 : Int) < 2 ^ 63 := by decide
  cases document with
  | none => exact hpos
  | some document =>
    simp only [held, Option.map_some, Option.getD_some, Document.word]
    split
    · rename_i n _
      exact n.toInt_lt
    · exact hpos

namespace Adds

variable {counter handle : Counter} {env : Env Unit} {value : Int64} {token : PendingIncrement}
  {left : Table}

theorem observed (h : counter.Adds handle env value token left) :
    counter.Observed env.store.table token :=
  (h.increments.addition ⟨token, value⟩ (by simp)).1

theorem positive (h : counter.Adds handle env value token left) : 0 < value.toInt :=
  (h.increments.addition ⟨token, value⟩ (by simp)).2

/-- The shards that are written are those of the handle's levels, at the time of its
clock and of the index that it chose. -/
theorem covers_iff (h : counter.Adds handle env value token left) {level : Level} {t : Instant}
    {index : Nat} :
    (token.increment value).Covers level t index ↔
      level ∈ Increment.levelsOf handle.dateHierarchy ∧
        counter.levelKey level t index =
          counter.levelKey level (handle.clockTime env) (handle.pick env) := by
  have hlevel : level ∈ Increment.levelsOf handle.dateHierarchy ↔
      token.dated = true ∨ level = .total := by
    rw [h.dated]
    cases handle.dateHierarchy <;> cases level <;> decide
  rw [levelKey_eq_iff, hlevel, ← h.index, ← h.time]
  constructor
  · rintro ⟨rfl, hdated, hperiod⟩
    exact ⟨hdated, rfl, hperiod.symm, rfl⟩
  · rintro ⟨hdated, -, hperiod, rfl⟩
    exact ⟨rfl, hdated, hperiod.symm⟩

theorem partsOf_eq (level : Level) (t : Instant) (index : Nat) :
    partsOf [⟨token, value⟩] level t index =
      if (token.increment value).Covers level t index then
        [⟨token.finds level, token.time, value⟩]
      else [] := by
  have hcounts : (Addition.increment ⟨token, value⟩).Covers level t index ↔
      (token.increment value).Covers level t index := Iff.rfl
  rw [partsOf, List.filter_singleton]
  by_cases hcovers : (token.increment value).Covers level t index
  · simp only [hcounts, hcovers, decide_true, cond_true, if_true, List.map_cons, List.map_nil]
    rfl
  · simp only [hcounts, hcovers, decide_false, cond_false, if_false, List.map_nil]

theorem hasSpace (h : counter.Adds handle env value token left)
    (hroom : handle.HasRoom env value) : counter.HasSpace env.store.table [⟨token, value⟩] := by
  intro level t index
  rw [partsOf_eq]
  by_cases hcovers : (token.increment value).Covers level t index
  · obtain ⟨hlevel, hkey⟩ := h.covers_iff.mp hcovers
    have hfits := hroom level hlevel
    rw [h.same.levelKey_eq] at hfits
    rw [if_pos hcovers, hkey, Part.total_cons, Part.total_nil, Int.add_zero]
    exact hfits
  · rw [if_neg hcovers, Part.total_nil, Int.add_zero]
    exact held_lt _

/-- A shard that is not written stays as it is. -/
theorem kept (h : counter.Adds handle env value token left) {level : Level} {t : Instant}
    {index : Nat} (hcovers : ¬ (token.increment value).Covers level t index) :
    left.document? (counter.levelKey level t index) =
      env.store.table.document? (counter.levelKey level t index) := by
  have happlied := h.increments.applied (counter.levelKey level t index)
  rw [h.increments.writesOn_eq, partsOf_eq, if_neg hcovers] at happlied
  exact (Except.ok.inj happlied).symm

/-- A shard that is written has a document.  This names the owner unless the write
adds to one that does not, or to none. -/
theorem written (h : counter.Adds handle env value token left)
    (htidy : counter.Tidy env.store.table) (hroom : handle.HasRoom env value) {level : Level}
    {t : Instant} {index : Nat} (hcovers : (token.increment value).Covers level t index) :
    ∃ document, left.document? (counter.levelKey level t index) = some document ∧
      (document.names counter.group.owner = true ↔ (token.finds level = true →
        (visible counter.group.owner (env.store.table.document?
          (counter.levelKey level t index))).isSome = true)) := by
  have hspace := h.hasSpace hroom level t index
  have happlied := h.increments.applied (counter.levelKey level t index)
  rw [partsOf_eq, if_pos hcovers, Part.total_cons, Part.total_nil, Int.add_zero] at hspace
  rw [h.increments.writesOn_eq, partsOf_eq, if_pos hcovers, List.map_singleton, List.foldlM_cons]
    at happlied
  obtain ⟨document, hwrite, -, hvisible, -⟩ := applyWrite_shard (token.finds level)
    (fun document => htidy level t index document) h.positive hcovers.2.2 hspace
  have hstep : Database.applyWrite (env.store.table.document? (counter.levelKey level t index))
      (Part.write counter.group.owner level ⟨token.finds level, token.time, value⟩) =
        .ok (some document) := hwrite
  rw [hstep] at happlied
  refine ⟨document, (Except.ok.inj happlied).symm, ?_⟩
  have hsome : document.names counter.group.owner = true ↔
      (visible counter.group.owner (some document)).isSome = true := by
    rw [visible_some]
    cases document.names counter.group.owner <;> simp
  rw [hsome, hvisible, afterWrite]
  cases token.finds level <;> simp

/-- What the token takes to be absent is absent. -/
theorem absent (h : counter.Adds handle env value token left) {level : Level}
    (hlevel : level ∈ Increment.levelsOf handle.dateHierarchy)
    (hfinds : token.finds level = false) :
    env.store.table.document?
      (counter.levelKey level (handle.clockTime env) (handle.pick env)) = none := by
  rw [← h.index, ← h.time]
  cases hdocument : env.store.table.document? (counter.levelKey level token.time token.index) with
  | none => rfl
  | some document =>
    have hsome : (env.store.table.document?
        (counter.levelKey level token.time token.index)).isSome = true := by
      rw [hdocument]
      rfl
    have hfound : token.finds level = true := by
      by_cases htotal : level = .total
      · subst htotal
        exact h.observed.finds_total.mpr (.inr hsome)
      · have hdated : token.dated = true := by
          rw [h.dated]
          cases hhierarchy : handle.dateHierarchy with
          | true => rfl
          | false =>
            rw [hhierarchy] at hlevel
            exact absurd (List.mem_singleton.mp hlevel) htotal
        exact (h.observed.finds_dated hdated htotal).mpr ⟨level, Nat.le_refl _, hsome⟩
    rw [hfinds] at hfound
    cases hfound

/-- Documents of the dated levels are lost where `Loses` says so. -/
theorem loses_iff (h : counter.Adds handle env value token left)
    (hdated : handle.dateHierarchy = true) {level : Level} (hlevel : level ≠ .total) :
    counter.Loses env.store.table level (handle.clockTime env) (handle.pick env) ↔
      token.finds level = true ∧ visible counter.group.owner (env.store.table.document?
        (counter.levelKey level (handle.clockTime env) (handle.pick env))) = none := by
  rw [Loses, ← h.index, ← h.time, h.observed.finds_dated (h.dated.trans hdated) hlevel]

/-! ## Sums -/

/-- A sum over documents of one level and one period changes by what the increment
adds, unless it adds to a document that queries do not find. -/
theorem sumOf_eq (h : counter.Adds handle env value token left)
    (htidy : counter.Tidy env.store.table) (hroom : handle.HasRoom env value)
    {chosen : Document → Bool} {places : Level → Instant → Bool}
    (htakes : Takes chosen counter.group.owner places) {level : Level}
    (hlevel : level ∈ Increment.levelsOf handle.dateHierarchy)
    (hplace : places level (handle.clockTime env) = true)
    (honly : ∀ other t, places other t = true → other = level) :
    counter.sumOf left chosen = counter.sumOf env.store.table chosen +
      if token.finds level = true ∧ visible counter.group.owner (env.store.table.document?
          (counter.levelKey level (handle.clockTime env) (handle.pick env))) = none then 0
      else value.toInt := by
  let key := counter.levelKey level (handle.clockTime env) (handle.pick env)
  have hcovers : (token.increment value).Covers level (handle.clockTime env) (handle.pick env) :=
    h.covers_iff.mpr ⟨hlevel, rfl⟩
  have hchanged : ∀ other t index, places other t = true →
      partsOf [⟨token, value⟩] other t index ≠ [] →
        counter.levelKey other t index ∈ ({key} : Finset DocKey) := by
    intro other t index hother hparts
    obtain rfl := honly other t hother
    rw [partsOf_eq] at hparts
    rw [Finset.mem_singleton]
    by_cases hcounts : (token.increment value).Covers other t index
    · exact (h.covers_iff.mp hcounts).2
    · rw [if_neg hcounts] at hparts
      exact absurd rfl hparts
  obtain ⟨hregular, hvisible⟩ := h.increments.shard htidy (h.hasSpace hroom) level
    (handle.clockTime env) (handle.pick env)
  rw [h.increments.sumOf_eq htidy (h.hasSpace hroom) htakes {key} hchanged, Finset.sum_singleton,
    weightAt_levelKey htakes hregular,
    weightAt_levelKey htakes fun document => htidy level _ _ document, hplace, hvisible,
    partsOf_eq, if_pos hcovers]
  congr 1
  have habsent := h.absent hlevel
  cases hfinds : token.finds level with
  | false =>
    rw [habsent hfinds]
    simp [Part.after, afterWrite]
  | true =>
    cases visible counter.group.owner (env.store.table.document?
        (counter.levelKey level (handle.clockTime env) (handle.pick env))) with
    | none => simp [Part.after, afterWrite]
    | some number =>
      simp only [Part.after, List.map_singleton, List.foldl_cons, List.foldl_nil, afterWrite]
      simp

end Adds

end Counter

end Shardwise
