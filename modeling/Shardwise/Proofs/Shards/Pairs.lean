import Shardwise.Proofs.Shards.Coder
import Shardwise.Proofs.Shards.Counter.Collisions
import Shardwise.Proofs.Shards.Serial

/-!
# Several pairs of phases in one attempt

An attempt may run several read phases of one primitive and then their write phases.
All read phases see the same table, so those that look at the same document return
the same: two numbers of one coder shard are equal, and so are all numbers of a
serial.  The write phases then meet in that document.  They all count where it
exists, but a document that does not exist yet is made again by each of them.

* `Coder.Reservations` and `Serial.Numbers` are such attempts of a coder and of a
  serial; those of a counter are `Counter.Increments`.
* `pairs_count_iff` says of all three what becomes of the pairs.
-/

namespace Shardwise

/-! ## Coders -/

namespace Coder

/-- A handle with the same names.  The number of shards may differ. -/
def SameNames (coder handle : Coder) : Prop :=
  handle.group.collection = coder.group.collection ∧ handle.group.owner = coder.group.owner

/-- An attempt runs read phases of a coder, then their write phases, and commits. -/
def Reservations (coder : Coder) (table : Table) (handles : List Coder) (tokens uses : List Token)
    (reservations : List Reservation) (left : Table) : Prop :=
  Batch (fun handle phase => coder.SameNames handle ∧ handle.protocol.Reads phase)
    (fun token phase => ∃ handle, coder.SameNames handle ∧ handle.protocol.Writes [token] phase)
    id table handles tokens uses reservations left

variable {coder : Coder} {table left : Table} {handles : List Coder} {tokens uses : List Token}
  {reservations : List Reservation}

theorem SameNames.plainKey_eq {handle : Coder} (h : coder.SameNames handle) (index : Nat) :
    handle.group.plainKey index = coder.group.plainKey index := by
  simp only [ShardGroup.plainKey, h.1, h.2]

/-- What is reserved are the numbers of the tokens, and every document becomes what their
writes make of it. -/
theorem Reservations.applied
    (h : coder.Reservations table handles tokens uses reservations left) :
    reservations = uses.map Token.reservation ∧
      ∀ key, (writesOn key (uses.flatMap fun token => coder.numberWrites token.number)).foldlM
        Database.applyWrite (table.document? key) = .ok (left.document? key) := by
  refine Batch.applied h (fun token => coder.numberWrites token.number) Token.reservation ?_ ?_
  · rintro handle phase ⟨-, hreads⟩
    exact readsOnly_of_reads hreads
  · rintro token phase attempt env reservation later left ⟨handle, hsame, hwrites⟩ hrun
    rcases (handle.law.write hwrites hrun).2 with ⟨⟨error, herror⟩, -⟩ |
      ⟨entry, writes, heq, rfl, other, hother, -, rfl, rfl⟩
    · cases herror
    · cases heq
      rw [List.mem_singleton.mp hother]
      refine ⟨?_, rfl⟩
      simp only [numberWrites, hsame.2]

/-- Every token follows the document of its shard, which all read phases see as it was
before the attempt. -/
theorem Reservations.tokens_follow
    (h : coder.Reservations table handles tokens uses reservations left) :
    ∀ token ∈ uses, ∃ handle ∈ handles, coder.SameNames handle ∧
      handle.Follows (table.document? (coder.group.plainKey token.number.index)) token.number := by
  have hseen := h.seen (fun table handle token => coder.SameNames handle ∧ handle.Follows
    (table.document? (handle.group.plainKey token.number.index)) token.number) (by
      rintro handle phase attempt env token later left ⟨hsame, hreads⟩ hrun
      exact ⟨hsame, (read_eq_ok hreads hrun).2.1.1⟩)
  intro token htoken
  obtain ⟨handle, hhandle, hsame, hfollows⟩ :=
    hseen token (h.matching.subset (by simpa using htoken))
  rw [hsame.plainKey_eq] at hfollows
  exact ⟨handle, hhandle, hsame, hfollows⟩

/-- So does its number. -/
theorem Reservations.follows
    (h : coder.Reservations table handles tokens uses reservations left) :
    ∀ reservation ∈ reservations, ∃ handle ∈ handles,
      reservation.index < handle.group.numShards ∧
        ∃ count, ShardGroup.nextCount
            (table.document? (coder.group.plainKey reservation.index)) = .ok count ∧
          reservation.number.toNat =
            count.toNat * handle.group.numShards + reservation.index := by
  intro reservation hreservation
  rw [h.applied.1] at hreservation
  obtain ⟨token, htoken, rfl⟩ := List.mem_map.mp hreservation
  obtain ⟨handle, hhandle, -, hindex, -, -, count, hcount, hpack⟩ := h.tokens_follow token htoken
  rw [Token.index_reservation, Token.number_reservation]
  exact ⟨handle, hhandle, hindex, count, hcount, pack_eq_ok hpack⟩

/-- With one number of shards, numbers differ exactly if their shards do. -/
theorem Reservations.nodup_iff
    (h : coder.Reservations table handles tokens uses reservations left) {numShards : Nat}
    (hshards : ∀ handle ∈ handles, handle.group.numShards = numShards) :
    (reservations.map Reservation.number).Nodup ↔
      (reservations.map Reservation.index).Nodup := by
  rw [List.Nodup, List.Nodup, List.pairwise_map, List.pairwise_map]
  refine List.Pairwise.iff_of_mem fun {a b} ha hb => not_congr ?_
  obtain ⟨handle, hhandle, hindex, count, hcount, hnumber⟩ := h.follows a ha
  obtain ⟨other, hother, hindex', more, hmore, hnumber'⟩ := h.follows b hb
  rw [hshards handle hhandle] at hindex hnumber
  rw [hshards other hother] at hindex' hnumber'
  constructor
  · intro heq
    rw [heq, hnumber'] at hnumber
    have hmod := congrArg (· % numShards) hnumber
    simp only [Nat.mul_add_mod_self_right, Nat.mod_eq_of_lt hindex,
      Nat.mod_eq_of_lt hindex'] at hmod
    exact hmod.symm
  · intro heq
    rw [heq, hmore] at hcount
    cases hcount
    apply UInt64.toNat_inj.mp
    rw [hnumber, hnumber', heq]

end Coder

/-! ## Serials -/

namespace Serial

/-- An attempt runs read phases of a serial, then their write phases, and commits. -/
def Numbers (serial : Serial) (table : Table) (handles : List Serial)
    (tokens uses : List PendingSerial) (numbers : List UInt64) (left : Table) : Prop :=
  Batch (fun handle (phase : TxOp Unit PendingSerial) =>
      serial.Same handle ∧ ∃ ctx, phase = handle.numberRead ctx)
    (fun token phase => ∃ handle ctx, serial.Same handle ∧ phase = handle.numberWrite ctx token)
    id table handles tokens uses numbers left

variable {serial : Serial} {table left : Table} {handles : List Serial}
  {tokens uses : List PendingSerial} {numbers : List UInt64}

/-- The document of the serial, if there is one, holds a number that has room for
`count` more. -/
def HasSpace (serial : Serial) (table : Table) (count : Nat) : Prop :=
  ∀ document, table.document? serial.key = some document → ∃ n,
    document.get? valueField = some (.int n) ∧ 0 ≤ n.toInt ∧ n.toInt + count < 2 ^ 63

theorem Numbers.follows (h : serial.Numbers table handles tokens uses numbers left) :
    ∀ token ∈ uses, Follows (table.document? serial.key) token := by
  have hseen := h.seen (fun table _ token => Follows (table.document? serial.key) token) (by
    rintro handle phase attempt env token later left ⟨hsame, ctx, rfl⟩ hrun
    have hfollows := (numberRead_eq_ok hrun).2.1
    rwa [hsame.key_eq] at hfollows)
  intro token htoken
  obtain ⟨handle, -, hfollows⟩ := hseen token (h.matching.subset (by simpa using htoken))
  exact hfollows

/-- The write phases of a serial all write its document. -/
theorem writesOn_numberWrites (serial : Serial) (uses : List PendingSerial) :
    writesOn serial.key (uses.flatMap serial.numberWrites) = uses.map fun token =>
      ShardGroup.shardWrite token.present { owner := serial.owner, value := .int 1 } := by
  induction uses with
  | nil => rfl
  | cons token uses ih =>
    rw [List.flatMap_cons, writesOn_append, ih, numberWrites, writesOn_cons, if_pos rfl]
    rfl

theorem Numbers.applied (h : serial.Numbers table handles tokens uses numbers left) :
    numbers = uses.map PendingSerial.number ∧
      (uses.map fun token => ShardGroup.shardWrite token.present
        { owner := serial.owner, value := .int 1 }).foldlM Database.applyWrite
          (table.document? serial.key) = .ok (left.document? serial.key) := by
  obtain ⟨hnumbers, happlied⟩ := Batch.applied h serial.numberWrites PendingSerial.number
    (by
      rintro handle phase ⟨-, ctx, rfl⟩
      exact handle.readsOnly_numberRead ctx)
    (by
      rintro token phase attempt env number later left ⟨handle, ctx, hsame, rfl⟩ hrun
      rcases handle.numberWrite_cases ctx token attempt env with ⟨error, hcase⟩ | ⟨hcase, -⟩
      · rw [hcase] at hrun
        cases hrun
      · rw [hcase] at hrun
        cases hrun
        refine ⟨?_, rfl⟩
        rw [numberWrites, hsame.key_eq, hsame.2])
  have hkey := happlied serial.key
  rw [writesOn_numberWrites] at hkey
  exact ⟨hnumbers, hkey⟩

/-- The next number of a document that holds a whole number. -/
theorem nextCount_eq {document : Document} {n : Int64}
    (hn : document.get? valueField = some (.int n)) (hnonneg : 0 ≤ n.toInt) :
    ∃ number, ShardGroup.nextCount (some document) = .ok number ∧
      (number.toNat : Int) = n.toInt + 1 := by
  obtain ⟨count, hcount⟩ := Int.eq_ofNat_of_zero_le hnonneg
  have hlt : n.toInt < 2 ^ 63 := Int64.toInt_lt n
  have hword : n = Int64.ofNat count := by
    apply Int64.toInt_inj.mp
    rw [ShardGroup.toInt_ofNat (by omega), hcount]
  refine ⟨UInt64.ofNat (count + 1), ?_, ?_⟩
  · simp only [ShardGroup.nextCount, Document.field, hn, bind, Except.bind]
    rw [hword, ShardGroup.toUInt64_ofNat (by omega)]
    simp only [pure, Except.pure]
    rw [ShardGroup.countAfter_ofNat (by omega)]
  · rw [UInt64.toNat_ofNat', Nat.mod_eq_of_lt (by omega), hcount]
    omega

/-- All read phases return the same number. -/
theorem Numbers.number_eq (h : serial.Numbers table handles tokens uses numbers left)
    (hspace : serial.HasSpace table uses.length) :
    ∀ number ∈ numbers,
      (number.toNat : Int) = Counter.held (table.document? serial.key) + 1 := by
  intro number hnumber
  rw [h.applied.1] at hnumber
  obtain ⟨token, htoken, rfl⟩ := List.mem_map.mp hnumber
  obtain ⟨-, hnext⟩ := h.follows token htoken
  cases hdocument : table.document? serial.key with
  | none =>
    rw [hdocument] at hnext
    rw [← Except.ok.inj hnext]
    rfl
  | some document =>
    rw [hdocument] at hnext
    obtain ⟨n, hn, hnonneg, -⟩ := hspace document hdocument
    obtain ⟨number, hnumber, hvalue⟩ := nextCount_eq hn hnonneg
    rw [hnumber] at hnext
    cases hnext
    rw [hvalue, Counter.held, Option.map_some, Option.getD_some, Document.word_eq hn]

/-- So they differ only if there is one. -/
theorem Numbers.nodup_iff (h : serial.Numbers table handles tokens uses numbers left)
    (hspace : serial.HasSpace table uses.length) : numbers.Nodup ↔ numbers.length ≤ 1 := by
  have hequal := h.number_eq hspace
  cases hnumbers : numbers with
  | nil => simp
  | cons first more =>
    have hsame : numbers = List.replicate numbers.length first := by
      rw [List.eq_replicate_iff]
      refine ⟨rfl, fun number hnumber => UInt64.toNat_inj.mp ?_⟩
      have hfirst := hequal first (by rw [hnumbers]; exact List.mem_cons_self)
      have hnumber := hequal number hnumber
      omega
    rw [← hnumbers, hsame, List.nodup_replicate, List.length_replicate]

/-- Adding one several times. -/
theorem foldlM_increments (count : Nat) {document : Document} {n : Int64}
    (hn : document.get? valueField = some (.int n)) (hnonneg : 0 ≤ n.toInt)
    (hspace : n.toInt + count < 2 ^ 63) :
    ∃ last m, (List.replicate count (Write.increment valueField (.int 1))).foldlM
        Database.applyWrite (some document) = .ok (some last) ∧
      last.get? valueField = some (.int m) ∧ m.toInt = n.toInt + count := by
  induction count generalizing document n with
  | zero => exact ⟨document, n, rfl, hn, by omega⟩
  | succ count ih =>
    have hone : (1 : Int64).toInt = 1 := by decide
    have hsum : (Int64.ofInt (n.toInt + (1 : Int64).toInt)).toInt = n.toInt + 1 := by
      rw [Int64.toInt_ofInt_of_le (by omega) (by omega), hone]
    have hset : (document.set valueField (.int (Int64.ofInt (n.toInt + (1 : Int64).toInt)))).get?
        valueField = some (.int (Int64.ofInt (n.toInt + (1 : Int64).toInt))) := by
      rw [Document.get?_set, if_pos rfl]
    obtain ⟨last, m, hfold, hlast, hm⟩ := ih hset (by omega) (by omega)
    refine ⟨last, m, ?_, hlast, by omega⟩
    rw [List.replicate_succ, List.foldlM_cons,
      Document.applyWrite_increment hn (by omega) (by omega)]
    exact hfold

/-- Making a document several times makes it once. -/
theorem foldlM_makes (count : Nat) (record : ShardRecord) (current : Option Document) :
    (List.replicate (count + 1) (Write.set record.fields false)).foldlM Database.applyWrite
      current = .ok (some record.document) := by
  induction count generalizing current with
  | zero =>
    rw [List.replicate_succ, List.foldlM_cons, ShardRecord.applyWrite_make]
    rfl
  | succ count ih =>
    rw [List.replicate_succ, List.foldlM_cons, ShardRecord.applyWrite_make]
    exact ih (some record.document)

/-- A document that exists counts all write phases, and one that does not is made
again by each. -/
theorem Numbers.held_eq (h : serial.Numbers table handles tokens uses numbers left)
    (hspace : serial.HasSpace table uses.length) (hsome : uses ≠ []) :
    ∃ document n, left.document? serial.key = some document ∧
      document.get? valueField = some (.int n) ∧
      n.toInt = Counter.held (table.document? serial.key) +
        if (table.document? serial.key).isSome then (uses.length : Int) else 1 := by
  have happlied := h.applied.2
  have hpresent : ∀ token ∈ uses, token.present = (table.document? serial.key).isSome :=
    fun token htoken => (h.follows token htoken).1
  have hwrites : (uses.map fun token => ShardGroup.shardWrite token.present
        { owner := serial.owner, value := .int 1 }) =
      List.replicate uses.length (ShardGroup.shardWrite (table.document? serial.key).isSome
        { owner := serial.owner, value := .int 1 }) := by
    rw [List.eq_replicate_iff]
    refine ⟨List.length_map _, fun write hwrite => ?_⟩
    obtain ⟨token, htoken, rfl⟩ := List.mem_map.mp hwrite
    rw [hpresent token htoken]
  rw [hwrites] at happlied
  cases hdocument : table.document? serial.key with
  | none =>
    obtain ⟨count, hcount⟩ := Nat.exists_eq_succ_of_ne_zero (List.length_pos_iff.mpr hsome).ne'
    rw [hdocument, hcount] at happlied
    have hmade := foldlM_makes count { owner := serial.owner, value := .int 1 } none
    refine ⟨_, 1, Except.ok.inj (happlied.symm.trans hmade), ShardRecord.get?_value _, rfl⟩
  | some document =>
    obtain ⟨n, hn, hnonneg, hroom⟩ := hspace document hdocument
    rw [hdocument] at happlied
    obtain ⟨last, m, hfold, hlast, hm⟩ := foldlM_increments uses.length hn hnonneg hroom
    refine ⟨last, m, Except.ok.inj (happlied.symm.trans hfold), hlast, ?_⟩
    rw [hm, Counter.held, Option.map_some, Option.getD_some, Document.word_eq hn]
    rfl

/-- In an attempt that takes reads a number is found, if the document has a next
one. -/
theorem runIn_numberRead {υ : Type} {serial : Serial} (hproblem : serial.group.problem? = none)
    {ctx : Context} {env : Env υ} (hlive : ctx.check env.flags env.elapsed = .ok ())
    {attempt : Attempt} (hactive : attempt.status = .active) (hwrites : attempt.writes = [])
    {number : UInt64}
    (hnext : ShardGroup.nextCount (env.store.table.document? serial.key) = .ok number) :
    ∃ token later, (serial.numberRead ctx).runIn attempt env = (.ok token, later, env) ∧
      token.number = number := by
  let read := env.store.table.document? serial.key
  let later : Attempt := { attempt with
    reads := attempt.reads.insertIfNew serial.key (env.store.table.versionOf serial.key) }
  have hget : attempt.get env.store.table serial.key = .ok (read, later) := by
    have hempty : attempt.writes.isEmpty = true := by rw [hwrites]; rfl
    simp only [Attempt.get, Attempt.ensureActive_eq_ok.mpr hactive, hempty, if_true]
    rfl
  refine ⟨⟨serial.group.stamp later, read.isSome, number⟩, later, ?_, rfl⟩
  simp only [numberRead, TxOp.runIn_bind, ShardGroup.runIn_checkRead hproblem hlive hactive,
    TxOp.runIn_withContext, TxOp.runIn_get, hget, withStoreContext_ok, TxOp.runIn_ofExcept, read,
    hnext, TxOp.runIn_attempt, TxOp.runIn_pure]

end Serial

/-! ## What becomes of the pairs -/

/-- An attempt runs several pairs of phases of one primitive.

The totals of a counter grow by what the shards gain: by all increments exactly if in
every shard the total exists and names the owner, or the first write phase makes it
and the others add to it.  Where nothing is out of order this is so exactly if no two
of them meet in a shard without a total.

The numbers of a coder are those that follow the documents before the attempt.  With
one number of shards they differ exactly if their shards do.

The numbers of a serial are all the same, so they differ only if there is one.  The
next one afterwards is later by the number of pairs, or by one if there was no
document. -/
theorem pairs_count_iff (counter : Counter) (coder : Coder) (serial : Serial) (table : Table) :
    (∀ (left : Table) handles tokens additions,
      counter.Increments table handles tokens additions left → counter.Tidy table →
      counter.HasSpace table additions →
      counter.totals left = counter.totals table +
          ∑ index ∈ Counter.indices additions, counter.gain table additions index ∧
        (counter.totals left =
            counter.totals table + Increment.total (additions.map Addition.increment) ↔
          ∀ index ∈ Counter.indices additions, counter.Lands table additions index) ∧
        ((∀ t index, (table.document? (counter.levelKey .hour t index)).isSome = true →
            (table.document? (counter.group.plainKey index)).isSome = true) →
          (∀ index document, table.document? (counter.group.plainKey index) = some document →
            document.names counter.group.owner = true) →
          (counter.totals left =
              counter.totals table + Increment.total (additions.map Addition.increment) ↔
            ∀ index, table.document? (counter.group.plainKey index) = none →
              (additions.map (·.token.index)).count index ≤ 1))) ∧
    (∀ (left : Table) handles tokens uses reservations,
      coder.Reservations table handles tokens uses reservations left →
      (∀ reservation ∈ reservations, ∃ handle ∈ handles,
        reservation.index < handle.group.numShards ∧
          ∃ count, ShardGroup.nextCount
              (table.document? (coder.group.plainKey reservation.index)) = .ok count ∧
            reservation.number.toNat =
              count.toNat * handle.group.numShards + reservation.index) ∧
        ∀ numShards, (∀ handle ∈ handles, handle.group.numShards = numShards) →
          ((reservations.map Reservation.number).Nodup ↔
            (reservations.map Reservation.index).Nodup)) ∧
    ∀ (left : Table) handles tokens uses numbers,
      serial.Numbers table handles tokens uses numbers left →
      serial.HasSpace table uses.length → uses ≠ [] →
      (∀ number ∈ numbers,
          (number.toNat : Int) = Counter.held (table.document? serial.key) + 1) ∧
        numbers.length = uses.length ∧ (numbers.Nodup ↔ uses.length = 1) ∧
        ∀ (handle : Serial) ctx attempt (env : Env Unit), serial.Same handle →
          handle.group.problem? = none → env.store.table = left →
          ctx.check env.flags env.elapsed = .ok () → attempt.status = .active →
          attempt.writes = [] →
          ∃ token later, (handle.numberRead ctx).runIn attempt env = (.ok token, later, env) ∧
            (token.number.toNat : Int) = Counter.held (table.document? serial.key) + 1 +
              if (table.document? serial.key).isSome then (uses.length : Int) else 1 := by
  refine ⟨?_, ?_, ?_⟩
  · intro left handles tokens additions h htidy hspace
    refine ⟨h.totals_eq htidy hspace, h.totals_iff htidy hspace, fun hhours hnamed => ?_⟩
    rw [h.totals_iff htidy hspace]
    exact Counter.lands_iff (fun addition haddition => (h.addition addition haddition).1) hhours
      hnamed
  · intro left handles tokens uses reservations h
    exact ⟨h.follows, fun numShards hshards => h.nodup_iff hshards⟩
  · intro left handles tokens uses numbers h hspace hsome
    have hlength : numbers.length = uses.length := by rw [h.applied.1, List.length_map]
    have hpos := List.length_pos_iff.mpr hsome
    refine ⟨h.number_eq hspace, hlength, ?_, ?_⟩
    · rw [h.nodup_iff hspace, hlength]
      omega
    · intro handle ctx attempt env hsame hproblem htable hlive hactive hwrites
      obtain ⟨document, n, hdocument, hn, hvalue⟩ := h.held_eq hspace hsome
      have hnonneg : 0 ≤ n.toInt := by
        have hheld : 0 ≤ Counter.held (table.document? serial.key) := by
          cases hbefore : table.document? serial.key with
          | none => exact Int.le_refl 0
          | some before =>
            obtain ⟨m, hm, hnonneg, -⟩ := hspace before hbefore
            rwa [Counter.held, Option.map_some, Option.getD_some, Document.word_eq hm]
        rw [hvalue]
        split <;> omega
      obtain ⟨number, hnext, hnumber⟩ := Serial.nextCount_eq hn hnonneg
      rw [← hdocument, ← htable, ← hsame.key_eq] at hnext
      obtain ⟨token, later, hrun, rfl⟩ :=
        Serial.runIn_numberRead hproblem hlive hactive hwrites hnext
      exact ⟨token, later, hrun, by omega⟩

namespace Pairs

open Session

/-! ## Pairs that meet, and pairs that do not -/

/-- What surrounds an empty store, where some shard is chosen next. -/
def choosing (index : Nat) : Env Unit := { picks := [index], user := () }

/-- An attempt that found no document under some keys. -/
def looked (keys : List DocKey) (writes : List (DocKey × Write)) : Attempt :=
  { id := 1, reads := keys.foldl (fun reads key => reads.insertIfNew key 0) ∅, writes }

/-- A counter of visits with two shards. -/
def visits : Counter := { group := ⟨"counters", "visit", 2⟩ }

/-- The token of a visit in a shard without a document. -/
def visit (index : Nat) : PendingIncrement :=
  ⟨⟨1, "counters", "visit"⟩, index, .epoch,
    [⟨.total, visits.levelKey .total .epoch index, false⟩]⟩

/-- Three visits in the first shard, and five in another one or in the same. -/
def additions (other : Nat) : List Addition := [⟨visit 0, 3⟩, ⟨visit other, 5⟩]

/-- The attempt of the visits, before and after its write phases. -/
def visited (other : Nat) (written : Bool) : Attempt :=
  looked ([0, other].map visits.group.plainKey) <| if written then
    (additions other).flatMap fun addition =>
      visits.incrementWrites addition.token addition.value
  else []

theorem increments_visits (other : Fin 2) :
    ∃ left,
      visits.Increments {} [visits, visits] [visit 0, visit other] (additions other) left := by
  have hsame : visits.Same visits := ⟨rfl, rfl⟩
  match other with
  | 0 | 1 =>
    exact ⟨_, [(), ()], .refl _, { id := 1 }, visited _ false, visited _ true, rfl,
      .cons (choosing 0) ⟨hsame, live, rfl⟩ rfl rfl
        (.cons (choosing _) ⟨hsame, live, rfl⟩ rfl rfl (.nil _)),
      .cons (choosing 0) ⟨visits, live, hsame, rfl⟩ rfl rfl
        (.cons (choosing 0) ⟨visits, live, hsame, rfl⟩ rfl rfl (.nil _)),
      {}, _, _, _, rfl, rfl, rfl⟩

/-- A coder of coupons with two shards. -/
def coupons : Coder := { group := ⟨"codes", "coupon", 2⟩ }

/-- The token of a coupon of a shard without a document. -/
def coupon (index : Nat) : Coder.Token :=
  .inl ⟨⟨1, "codes", "coupon"⟩, index, coupons.group.plainKey index, false, .ofNat (2 + index)⟩

/-- The attempt of two coupons, before and after its write phases. -/
def issued (other : Nat) (written : Bool) : Attempt :=
  looked ([0, other].map coupons.group.plainKey) <| if written then
    [0, other].flatMap fun index => coupons.numberWrites (coupon index).number
  else []

theorem reservations_coupons (other : Fin 2) :
    ∃ left, coupons.Reservations {} [coupons, coupons] [coupon 0, coupon other]
      [coupon 0, coupon other] [⟨0, 2, none⟩, ⟨other, .ofNat (2 + other), none⟩] left := by
  have hread : coupons.SameNames coupons ∧
      coupons.protocol.Reads (Sum.inl <$> coupons.numberRead live) :=
    ⟨⟨rfl, rfl⟩, coupons, live, rfl, .inl rfl⟩
  have hwrite (index : Nat) : ∃ handle, coupons.SameNames handle ∧ handle.protocol.Writes
      [coupon index] ((Reservation.mk (coupon index).number.index · none) <$>
        coupons.numberWrite live (coupon index).number) :=
    ⟨coupons, ⟨rfl, rfl⟩, coupons, live, rfl, .inl ⟨_, .head _, rfl⟩⟩
  match other with
  | 0 =>
    exact ⟨_, .refl _, { id := 1 }, issued 0 false, issued 0 true, rfl,
      .cons (choosing 0) hread rfl rfl (.cons (choosing 0) hread rfl rfl (.nil _)),
      .cons (choosing 0) (hwrite 0) rfl rfl (.cons (choosing 0) (hwrite 0) rfl rfl (.nil _)),
      {}, _, _, _, rfl, rfl, rfl⟩
  | 1 =>
    exact ⟨_, .refl _, { id := 1 }, issued 1 false, issued 1 true, rfl,
      .cons (choosing 0) hread rfl rfl (.cons (choosing 1) hread rfl rfl (.nil _)),
      .cons (choosing 0) (hwrite 0) rfl rfl (.cons (choosing 0) (hwrite 1) rfl rfl (.nil _)),
      {}, _, _, _, rfl, rfl, rfl⟩

/-- A serial of tickets. -/
def tickets : Serial := { collection := "serials", owner := "ticket" }

/-- The token of a ticket where there is no document. -/
def ticket : PendingSerial := ⟨⟨1, "serials", "ticket"⟩, false, 1⟩

/-- The attempt of some tickets, before and after its write phases. -/
def drawn (count : Nat) (written : Bool) : Attempt :=
  looked (List.replicate count tickets.key) <| if written then
    (List.replicate count ticket).flatMap tickets.numberWrites
  else []

theorem numbers_ticket : ∃ left, tickets.Numbers {} [tickets] [ticket] [ticket] [1] left := by
  have hsame : tickets.Same tickets := ⟨rfl, rfl⟩
  exact ⟨_, .refl _, { id := 1 }, drawn 1 false, drawn 1 true, rfl,
    .cons (choosing 0) ⟨hsame, live, rfl⟩ rfl rfl (.nil _),
    .cons (choosing 0) ⟨tickets, live, hsame, rfl⟩ rfl rfl (.nil _),
    {}, _, _, _, rfl, rfl, rfl⟩

theorem numbers_tickets : ∃ left,
    tickets.Numbers {} [tickets, tickets] [ticket, ticket] [ticket, ticket] [1, 1] left := by
  have hsame : tickets.Same tickets := ⟨rfl, rfl⟩
  exact ⟨_, .refl _, { id := 1 }, drawn 2 false, drawn 2 true, rfl,
    .cons (choosing 0) ⟨hsame, live, rfl⟩ rfl rfl
      (.cons (choosing 0) ⟨hsame, live, rfl⟩ rfl rfl (.nil _)),
    .cons (choosing 0) ⟨tickets, live, hsame, rfl⟩ rfl rfl
      (.cons (choosing 0) ⟨tickets, live, hsame, rfl⟩ rfl rfl (.nil _)),
    {}, _, _, _, rfl, rfl, rfl⟩

theorem tidy_visits : visits.Tidy {} := by
  intro level t index document hdocument
  cases hdocument

theorem hasSpace_visits (other : Nat) : visits.HasSpace {} (additions other) := by
  intro level t index
  have hheld : Counter.held (({} : Table).document? (visits.levelKey level t index)) = 0 := rfl
  rw [hheld, Int.zero_add, Counter.partsOf, additions, List.filter_cons, List.filter_cons,
    List.filter_nil]
  split <;> split <;>
    simp only [List.map_cons, List.map_nil, Counter.Part.total_cons, Counter.Part.total_nil,
      Addition.part] <;> decide

/-- Visits and coupons in two shards, and a single ticket. -/
theorem pairs_count_apart :
    (∃ left, visits.Increments {} [visits, visits] [visit 0, visit 1] (additions 1) left ∧
      visits.totals left = 8) ∧
    (∃ left, coupons.Reservations {} [coupons, coupons] [coupon 0, coupon 1]
        [coupon 0, coupon 1] [⟨0, 2, none⟩, ⟨1, 3, none⟩] left ∧
      (List.map Reservation.number [⟨0, 2, none⟩, ⟨1, 3, none⟩]).Nodup) ∧
    ∃ left, tickets.Numbers {} [tickets] [ticket] [ticket] [1] left ∧
      ∃ token later, (tickets.numberRead live).runIn { id := 2 }
          ({ store := { database := { table := left } }, user := () } : Env Unit) =
            (.ok token, later, { store := { database := { table := left } }, user := () }) ∧
        (token.number.toNat : Int) = 2 := by
  obtain ⟨visited, hvisits⟩ := increments_visits 1
  obtain ⟨issued, hcoupons⟩ := reservations_coupons 1
  obtain ⟨drawn, htickets⟩ := numbers_ticket
  obtain ⟨hcounter, hcoder, hserial⟩ := pairs_count_iff visits coupons tickets {}
  refine ⟨⟨visited, hvisits, ?_⟩, ⟨issued, hcoupons, ?_⟩, drawn, htickets, ?_⟩
  · obtain ⟨-, -, hall⟩ := hcounter _ _ _ _ hvisits tidy_visits (hasSpace_visits 1)
    have hcount : ∀ index : Nat, [0, 1].count index ≤ 1 :=
      List.nodup_iff_count_le_one.mp (by decide)
    refine ((hall ?_ ?_).mpr fun index _ => hcount index).trans (by decide +kernel)
    · intro t index hsome
      cases hsome
    · intro index document hdocument
      cases hdocument
  · obtain ⟨-, hnodup⟩ := hcoder _ _ _ _ _ hcoupons
    exact (hnodup 2 (by simp [coupons])).mpr (by decide)
  · have hspace : tickets.HasSpace {} 1 := by
      intro document hdocument
      cases hdocument
    obtain ⟨-, -, -, hnext⟩ := hserial _ _ _ _ _ htickets hspace (by simp)
    exact hnext tickets live _ _ ⟨rfl, rfl⟩ rfl rfl rfl rfl rfl

/-- Visits and coupons in one shard, and two tickets. -/
theorem not_pairs_count_meeting :
    (∃ left, visits.Increments {} [visits, visits] [visit 0, visit 0] (additions 0) left ∧
      visits.totals left = 5 ∧ visits.totals {} = 0) ∧
    (∃ left, coupons.Reservations {} [coupons, coupons] [coupon 0, coupon 0]
      [coupon 0, coupon 0] [⟨0, 2, none⟩, ⟨0, 2, none⟩] left) ∧
    ∃ left,
      tickets.Numbers {} [tickets, tickets] [ticket, ticket] [ticket, ticket] [1, 1] left := by
  obtain ⟨left, hvisits⟩ := increments_visits 0
  refine ⟨⟨left, hvisits, ?_, rfl⟩, reservations_coupons 0, numbers_tickets⟩
  rw [hvisits.totals_eq tidy_visits (hasSpace_visits 0)]
  decide +kernel

end Pairs

end Shardwise
