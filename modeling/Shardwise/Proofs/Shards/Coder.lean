import Shardwise.Proofs.Code.RoundTrip
import Shardwise.Proofs.Session.Invariant
import Shardwise.Proofs.Shards.Keys
import Shardwise.Proofs.Shards.Phases
import Shardwise.Shards.Coder

/-!
# What a coder hands out

A commit of a run reserves a number of one shard, with or without a code.  Shard
`i` of `n` counts on its own, and its `k`-th reservation is the number
`k * n + i`; no two numbers are the same then, on whatever shards they are, and
neither are two codes of one width.

* `Coder.numberRead_eq_ok`, `Coder.codeRead_eq_ok`, `Coder.numberWrite_cases` and
  `Coder.codeWrite_cases` describe the phases.
* `Coder.Course` is the invariant of runs: the document of a shard holds the
  number of its reservations, and who found the document still does.
* `Coder.reservations_distinct` says what a run hands out.
-/

namespace Shardwise

/-- A number that a commit reserved, on one shard, and the code that was made for
it if there is one. -/
structure Reservation where
  index : Nat
  number : UInt64
  code : Option (CodeWidth × String)
deriving DecidableEq

namespace Coder

open Session (fresh live)

variable {υ : Type}

/-! ## Numbers -/

/-- A number is packed as it is, or not at all. -/
theorem pack_eq_ok {numShards index : Nat} {count number : UInt64}
    (h : pack numShards index count = .ok number) :
    number.toNat = count.toNat * numShards + index := by
  unfold pack at h
  dsimp only at h
  split at h
  · rename_i hlt
    rw [← Except.ok.inj h, UInt64.toNat_ofNat']
    exact Nat.mod_eq_of_lt hlt
  · cases h

/-- What a read phase of a number makes of the document of its shard. -/
def Follows (coder : Coder) (read : Option Document) (token : PendingNumber) : Prop :=
  token.index < coder.group.numShards ∧ token.key = coder.group.plainKey token.index ∧
    token.present = read.isSome ∧ ∃ count, ShardGroup.nextCount read = .ok count ∧
      pack coder.group.numShards token.index count = .ok token.number

/-! ## The phases of a coder -/

theorem readsOnly_numberRead (coder : Coder) (ctx : Context) :
    (coder.numberRead ctx : TxOp υ PendingNumber).ReadsOnly := by
  refine (coder.group.readsOnly_checkRead ctx).bind fun _ => ?_
  refine (TxOp.ReadsOnly.pickShard _).bind fun index => ?_
  refine ((TxOp.ReadsOnly.get _).withContext _ _ _).bind fun read => ?_
  refine (TxOp.ReadsOnly.ofExcept _).bind fun count => ?_
  refine (TxOp.ReadsOnly.ofExcept _).bind fun number => ?_
  exact TxOp.ReadsOnly.attempt.bind fun _ => .pure _

theorem readsOnly_codeRead (coder : Coder) (ctx : Context) (width : CodeWidth) :
    (coder.codeRead ctx width : TxOp υ PendingCode).ReadsOnly := by
  refine (coder.readsOnly_numberRead ctx).bind fun number => ?_
  exact (TxOp.ReadsOnly.ofExcept _).bind fun code => .pure _

/-- A read phase that succeeds follows the document of one of the shards. -/
theorem numberRead_eq_ok {coder : Coder} {ctx : Context} {attempt later : Attempt}
    {env left : Env υ} {token : PendingNumber}
    (h : (coder.numberRead ctx).runIn attempt env = (.ok token, later, left)) :
    token.stamp = coder.group.stamp later ∧
      coder.Follows (env.store.table.document? (coder.group.plainKey token.index)) token ∧
      ∃ version, later.reads[coder.group.plainKey token.index]? = some version := by
  unfold numberRead at h
  obtain ⟨_, checked, env₁, hcheck, h₁⟩ := TxOp.runIn_bind_eq_ok.mp h
  obtain ⟨index, picked, env₂, hpick, h₂⟩ := TxOp.runIn_bind_eq_ok.mp h₁
  obtain ⟨read, recorded, env₃, hget, h₃⟩ := TxOp.runIn_bind_eq_ok.mp h₂
  obtain ⟨count, _, _, hnext, h₄⟩ := TxOp.runIn_bind_eq_ok.mp h₃
  obtain ⟨hcount, rfl, rfl⟩ := TxOp.runIn_ofExcept_eq_ok.mp hnext
  obtain ⟨number, _, _, hpacked, h₅⟩ := TxOp.runIn_bind_eq_ok.mp h₄
  obtain ⟨hpack, rfl, rfl⟩ := TxOp.runIn_ofExcept_eq_ok.mp hpacked
  rw [TxOp.runIn_bind, TxOp.runIn_attempt] at h₅
  cases h₅
  obtain ⟨-, hread, hrecorded⟩ := TxOp.runIn_get_eq_ok (TxOp.runIn_withContext_eq_ok.mp hget)
  have hpassed : env₁ = env ∧ coder.group.problem? = none := by
    rcases coder.group.checkRead_cases ctx attempt env with ⟨error, hrun⟩ | ⟨hrun, -, hproblem⟩
    · rw [hrun] at hcheck
      cases hcheck
    · rw [hrun] at hcheck
      cases hcheck
      exact ⟨rfl, hproblem⟩
  obtain ⟨rfl, hproblem⟩ := hpassed
  rw [TxOp.runIn_pickShard] at hpick
  cases hpick
  have hindex : env₁.picks.headD 0 % coder.group.numShards < coder.group.numShards :=
    Nat.mod_lt _ (coder.group.numShards_pos hproblem)
  refine ⟨rfl, ⟨hindex, rfl, by rw [← hread], count, ?_, hpack⟩, hrecorded⟩
  rw [← hread]
  exact hcount

/-- The code of a token is that of its number. -/
theorem codeRead_eq_ok {coder : Coder} {ctx : Context} {width : CodeWidth}
    {attempt later : Attempt} {env left : Env υ} {token : PendingCode}
    (h : (coder.codeRead ctx width).runIn attempt env = (.ok token, later, left)) :
    (coder.numberRead ctx).runIn attempt env = (.ok token.number, later, left) ∧
      Code.encode token.number.number token.width = .ok token.code := by
  unfold codeRead at h
  obtain ⟨number, _, _, hnumber, h₁⟩ := TxOp.runIn_bind_eq_ok.mp h
  obtain ⟨code, _, _, hencoded, h₂⟩ := TxOp.runIn_bind_eq_ok.mp h₁
  obtain ⟨hcode, rfl, rfl⟩ := TxOp.runIn_ofExcept_eq_ok.mp hencoded
  cases h₂
  exact ⟨hnumber, hcode⟩

/-- The write that reserves the number of a token. -/
def numberWrites (coder : Coder) (token : PendingNumber) : List (DocKey × Write) :=
  [(token.key, ShardGroup.shardWrite token.present
    { owner := coder.group.owner, value := .int 1 })]

/-- A write phase fails and changes nothing, or it has a token of its own attempt
and reserves the number of it. -/
theorem numberWrite_cases (coder : Coder) (ctx : Context) (token : PendingNumber)
    (attempt : Attempt) (env : Env υ) :
    (∃ error, (coder.numberWrite ctx token).runIn attempt env = (.error error, attempt, env)) ∨
      (coder.numberWrite ctx token).runIn attempt env =
        (.ok token.number, { attempt with writes := attempt.writes ++ coder.numberWrites token },
          env) ∧
      token.stamp = coder.group.stamp attempt := by
  simp only [numberWrite, TxOp.runIn_bind]
  rcases coder.group.checkWrite_cases ctx token.stamp attempt env with
    ⟨error, hrun⟩ | ⟨hrun, hactive, hstamp⟩
  · exact .inl ⟨error, by rw [hrun]⟩
  · rw [hrun]
    simp only [ShardGroup.runIn_reserve coder.group token.key token.present hactive env]
    exact .inr ⟨rfl, hstamp⟩

/-- The same for a code, which must be of the width that was read. -/
theorem codeWrite_cases (coder : Coder) (ctx : Context) (token : PendingCode)
    (width : CodeWidth) (attempt : Attempt) (env : Env υ) :
    (∃ error, (coder.codeWrite ctx token width).runIn attempt env =
        (.error error, attempt, env)) ∨
      (coder.codeWrite ctx token width).runIn attempt env =
        (.ok token.code,
          { attempt with writes := attempt.writes ++ coder.numberWrites token.number }, env) ∧
      token.number.stamp = coder.group.stamp attempt ∧ token.width = width := by
  unfold codeWrite
  by_cases hwidth : token.width = width
  · rw [if_neg (not_not_intro hwidth)]
    simp only [TxOp.runIn_bind, TxOp.runIn_discard, TxOp.runIn_pure]
    rcases coder.numberWrite_cases ctx token.number attempt env with
      ⟨error, hrun⟩ | ⟨hrun, hstamp⟩
    · exact .inl ⟨error, by rw [hrun]⟩
    · rw [hrun]
      exact .inr ⟨rfl, hstamp, hwidth⟩
  · rw [if_pos hwidth]
    exact .inl ⟨_, rfl⟩

/-! ## Runs of a coder -/

/-- What a read phase of a coder leaves: the token of a number or of a code. -/
abbrev Token := PendingNumber ⊕ PendingCode

namespace Token

/-- The number of a token. -/
def number : Token → PendingNumber
  | .inl token => token
  | .inr token => token.number

/-- What a write phase with a token reserves. -/
def reservation : Token → Reservation
  | .inl token => ⟨token.index, token.number, none⟩
  | .inr token => ⟨token.number.index, token.number.number, some (token.width, token.code)⟩

/-- The code of a token, if it has one, is that of its number. -/
def Encodes : Token → Prop
  | .inl _ => True
  | .inr token => Code.encode token.number.number token.width = .ok token.code

end Token

@[simp] theorem Token.index_reservation (token : Token) :
    token.reservation.index = token.number.index := by
  cases token <;> rfl

@[simp] theorem Token.number_reservation (token : Token) :
    token.reservation.number = token.number.number := by
  cases token <;> rfl

/-- The code of a reservation gives back its number. -/
theorem Token.decode_reservation {token : Token} (h : token.Encodes) {width : CodeWidth}
    {code : String} (hcode : token.reservation.code = some (width, code)) :
    Code.decode code width = .ok token.reservation.number := by
  cases token with
  | inl token => cases hcode
  | inr token =>
    cases hcode
    exact Code.decode_of_encode h

/-- The number of reservations on one shard. -/
def reserved (index : Nat) (reservations : List Reservation) : Nat :=
  reservations.countP fun reservation => reservation.index = index

/-- What callers do with a coder: they reserve numbers and codes through handles
with the same names and the same number of shards. -/
def protocol (coder : Coder) : Protocol Token Reservation where
  Owns key := ∃ index < coder.group.numShards, key = coder.group.plainKey index
  Reads phase := ∃ (handle : Coder) (ctx : Context), handle.group = coder.group ∧
    (phase = Sum.inl <$> handle.numberRead ctx ∨
      ∃ width, phase = Sum.inr <$> handle.codeRead ctx width)
  Writes tokens phase := ∃ (handle : Coder) (ctx : Context), handle.group = coder.group ∧
    ((∃ token, .inl token ∈ tokens ∧
        phase = (Reservation.mk token.index · none) <$> handle.numberWrite ctx token) ∨
      ∃ token width, .inr token ∈ tokens ∧
        phase = (fun code => ⟨token.number.index, token.number.number, some (width, code)⟩) <$>
          handle.codeWrite ctx token width)
  Fits log := ∀ index < coder.group.numShards,
    reserved index (log.flatMap Commitment.entries) < 2 ^ 63 - 1

/-- A token follows a document, and its code is that of its number. -/
def Tells (coder : Coder) (read : Option Document) (token : Token) : Prop :=
  coder.Follows read token.number ∧ token.Encodes

/-- Reading tells something of the document of the shard that was chosen. -/
theorem read_eq_ok {coder : Coder} {phase : TxOp Unit Token} (hphase : coder.protocol.Reads phase)
    {attempt later : Attempt} {env left : Env Unit} {token : Token}
    (h : phase.runIn attempt env = (.ok token, later, left)) :
    token.number.stamp = coder.group.stamp later ∧
      coder.Tells (env.store.table.document? (coder.group.plainKey token.number.index)) token ∧
      ∃ version, later.reads[coder.group.plainKey token.number.index]? = some version := by
  obtain ⟨handle, ctx, hgroup, rfl | ⟨width, rfl⟩⟩ := hphase
  · obtain ⟨pending, hrun, rfl⟩ := TxOp.runIn_map_eq_ok.mp h
    have hread := numberRead_eq_ok hrun
    simp only [Follows, hgroup] at hread
    obtain ⟨hstamp, hfollows, hrecorded⟩ := hread
    exact ⟨hstamp, ⟨hfollows, trivial⟩, hrecorded⟩
  · obtain ⟨pending, hrun, rfl⟩ := TxOp.runIn_map_eq_ok.mp h
    obtain ⟨hnumber, hcode⟩ := codeRead_eq_ok hrun
    have hread := numberRead_eq_ok hnumber
    simp only [Follows, hgroup] at hread
    obtain ⟨hstamp, hfollows, hrecorded⟩ := hread
    exact ⟨hstamp, ⟨hfollows, hcode⟩, hrecorded⟩

theorem readsOnly_of_reads {coder : Coder} {phase : TxOp Unit Token}
    (hphase : coder.protocol.Reads phase) : phase.ReadsOnly := by
  obtain ⟨handle, ctx, -, rfl | ⟨width, rfl⟩⟩ := hphase
  · exact (handle.readsOnly_numberRead ctx).map _
  · exact (handle.readsOnly_codeRead ctx width).map _

/-- What has to be known of the phases of a coder. -/
def law (coder : Coder) : coder.protocol.Law where
  stamp token := token.number.stamp.attempt
  Seen table token :=
    coder.Tells (table.document? (coder.group.plainKey token.number.index)) token
  Remembers token memory := ∃ read,
    memory = [(coder.group.plainKey token.number.index, read)] ∧ coder.Tells read token
  Backed tokens id reservation writes := ∃ token ∈ tokens, token.number.stamp.attempt = id ∧
    reservation = token.reservation ∧ writes = coder.numberWrites token.number
  read := by
    intro phase attempt env outcome later left hphase hrun
    have hreads := readsOnly_of_reads hphase
    refine ⟨hreads.store_eq hrun, hreads.reads hrun, ?_⟩
    rintro token rfl
    obtain ⟨hstamp, htells, hrecorded⟩ := read_eq_ok hphase hrun
    refine ⟨?_, htells, _, ⟨_, rfl, htells⟩, by simpa using hrecorded⟩
    rw [hstamp]
    exact (hreads.reads hrun).id
  write := by
    rintro tokens _ attempt env outcome later left
      ⟨handle, ctx, hgroup, ⟨token, htoken, rfl⟩ | ⟨token, width, htoken, rfl⟩⟩ hrun
    · rw [TxOp.runIn_map] at hrun
      rcases handle.numberWrite_cases ctx token attempt env with
        ⟨error, hcase⟩ | ⟨hcase, hstamp⟩
      · rw [hcase] at hrun
        cases hrun
        exact ⟨rfl, .inl ⟨⟨error, rfl⟩, rfl⟩⟩
      · rw [hcase] at hrun
        cases hrun
        refine ⟨rfl, .inr ⟨_, _, rfl, rfl, .inl token, htoken, ?_, rfl, ?_⟩⟩
        · exact congrArg Stamp.attempt hstamp
        · simp only [numberWrites, hgroup, Token.number]
    · rw [TxOp.runIn_map] at hrun
      rcases handle.codeWrite_cases ctx token width attempt env with
        ⟨error, hcase⟩ | ⟨hcase, hstamp, rfl⟩
      · rw [hcase] at hrun
        cases hrun
        exact ⟨rfl, .inl ⟨⟨error, rfl⟩, rfl⟩⟩
      · rw [hcase] at hrun
        cases hrun
        refine ⟨rfl, .inr ⟨_, _, rfl, rfl, .inr token, htoken, ?_, rfl, ?_⟩⟩
        · exact congrArg Stamp.attempt hstamp
        · simp only [numberWrites, hgroup, Token.number]
  backed_append := by
    rintro tokens id reservation writes more ⟨token, htoken, hbacked⟩
    exact ⟨token, List.mem_append_left more htoken, hbacked⟩

/-! ## The course of a run -/

/-- The number of the reservation `count + 1` of a shard. -/
def numberAt (coder : Coder) (index count : Nat) : Nat :=
  (count + 1) * coder.group.numShards + index

/-- Numbers are the same only for the same shard and the same count. -/
theorem numberAt_inj {coder : Coder} {index other count more : Nat}
    (hindex : index < coder.group.numShards) (hother : other < coder.group.numShards)
    (h : coder.numberAt index count = coder.numberAt other more) :
    index = other ∧ count = more := by
  unfold numberAt at h
  have hpos : 0 < coder.group.numShards := by omega
  have hmod := congrArg (· % coder.group.numShards) h
  have hdiv := congrArg (· / coder.group.numShards) h
  simp only [Nat.mul_add_mod_self_right, Nat.mod_eq_of_lt hindex, Nat.mod_eq_of_lt hother] at hmod
  rw [Nat.mul_comm, Nat.mul_comm (more + 1)] at hdiv
  simp only [Nat.mul_add_div hpos, Nat.div_eq_of_lt hindex, Nat.div_eq_of_lt hother] at hdiv
  exact ⟨hmod, by omega⟩

/-- What the runs of a coder keep. -/
structure Course (coder : Coder) (s : Session Token Reservation) : Prop where
  stored : ∀ index < coder.group.numShards, s.table.document? (coder.group.plainKey index) =
    ShardGroup.counted coder.group.owner (reserved index s.committed)
  /-- A document that was found is still there. -/
  found : ∀ token ∈ s.tokens, token.number.present = true →
    0 < reserved token.number.index s.committed
  index_lt : ∀ reservation ∈ s.committed, reservation.index < coder.group.numShards
  numbers : ∀ index, (s.committed.filter (·.index = index)).map (·.number.toNat) =
    (List.range (reserved index s.committed)).map (coder.numberAt index)
  distinct : (s.committed.map Reservation.number).Nodup
  codes : ∀ reservation ∈ s.committed, ∀ width code, reservation.code = some (width, code) →
    Code.decode code width = .ok reservation.number

theorem Course.of_starts {coder : Coder} {s : Session Token Reservation}
    (h : coder.protocol.Starts s) : coder.Course s := by
  have hnone : s.committed = [] := by simp [Session.committed, h.log]
  refine ⟨fun index hindex => ?_, by simp [h.tokens], by simp [hnone], ?_, by simp [hnone],
    by simp [hnone]⟩
  · rw [Table.document?_eq_none.mpr (h.absent _ ⟨index, hindex, rfl⟩), hnone]
    rfl
  · simp [hnone, reserved]

/-- What a token tells of a document that was counted up. -/
theorem follows_counted {coder : Coder} {count : Nat} {token : PendingNumber}
    (hroom : count + 1 < 2 ^ 63)
    (h : coder.Follows (ShardGroup.counted coder.group.owner count) token) :
    token.present = decide (0 < count) ∧ token.number.toNat = coder.numberAt token.index count := by
  obtain ⟨-, -, hpresent, next, hnext, hpack⟩ := h
  rw [ShardGroup.counted_isSome] at hpresent
  rw [ShardGroup.nextCount_counted (by omega)] at hnext
  have hword : next.toNat = count + 1 := by
    rw [← Except.ok.inj hnext, UInt64.toNat_ofNat']
    exact Nat.mod_eq_of_lt (by omega)
  refine ⟨hpresent, ?_⟩
  rw [pack_eq_ok hpack, hword, numberAt]

/-- A step without a reservation. -/
theorem Course.quiet {coder : Coder} {s left : Session Token Reservation} (h : coder.Course s)
    (hfits : coder.protocol.Fits left.log) (hsame : left.committed = s.committed)
    (hkept : ∀ key, coder.protocol.Owns key → left.table.document? key = s.table.document? key)
    (htokens : ∀ token ∈ left.tokens, token ∈ s.tokens ∨
      coder.Tells (s.table.document? (coder.group.plainKey token.number.index)) token) :
    coder.Course left := by
  have hfits : ∀ index < coder.group.numShards,
      reserved index left.committed < 2 ^ 63 - 1 := hfits
  rw [hsame] at hfits
  refine ⟨fun index hindex => ?_, ?_, hsame ▸ h.index_lt, hsame ▸ h.numbers, hsame ▸ h.distinct,
    hsame ▸ h.codes⟩
  · rw [hkept _ ⟨index, hindex, rfl⟩, hsame]
    exact h.stored index hindex
  · rw [hsame]
    intro token htoken hpresent
    rcases htokens token htoken with hold | hnew
    · exact h.found token hold hpresent
    · obtain ⟨hfollows, -⟩ := hnew
      have hindex := hfollows.1
      have hroom := hfits _ hindex
      rw [h.stored _ hindex] at hfollows
      obtain ⟨hfound, -⟩ := follows_counted (by omega) hfollows
      rw [hpresent] at hfound
      exact of_decide_eq_true hfound.symm

/-- Numbers that were reserved are below the next one of their shard. -/
theorem Course.number_eq {coder : Coder} {s : Session Token Reservation} (h : coder.Course s)
    {reservation : Reservation} (hmem : reservation ∈ s.committed) :
    ∃ count < reserved reservation.index s.committed,
      reservation.number.toNat = coder.numberAt reservation.index count := by
  have hnumber : reservation.number.toNat ∈
      (s.committed.filter (·.index = reservation.index)).map (·.number.toNat) := by
    refine List.mem_map.mpr ⟨reservation, ?_, rfl⟩
    simpa using hmem
  rw [h.numbers, List.mem_map] at hnumber
  obtain ⟨count, hcount, heq⟩ := hnumber
  exact ⟨count, List.mem_range.mp hcount, heq.symm⟩

/-- When an attempt commits, the document of the shard is as it was read. -/
theorem Course.current {coder : Coder} {s : Session Token Reservation} (h : coder.Course s)
    {token : Token} (htoken : token ∈ s.tokens) {read : Option Document}
    (hfollows : coder.Follows read token.number)
    (hrecalled : s.table.document? (coder.group.plainKey token.number.index) = none ∨
      s.table.document? (coder.group.plainKey token.number.index) = read) :
    s.table.document? (coder.group.plainKey token.number.index) = read := by
  rcases hrecalled with hgone | hsame
  · have habsent : token.number.present = false := by
      rw [Bool.eq_false_iff]
      intro hpresent
      have hpos := h.found token htoken hpresent
      rw [h.stored _ hfollows.1] at hgone
      have hsome := ShardGroup.counted_isSome coder.group.owner
        (reserved token.number.index s.committed)
      rw [hgone, decide_eq_true hpos] at hsome
      cases hsome
    obtain ⟨-, -, hpresent, -⟩ := hfollows
    rw [habsent, eq_comm, Option.isSome_eq_false_iff, Option.isNone_iff_eq_none] at hpresent
    rw [hgone, hpresent]
  · exact hsame

theorem reserved_append (index : Nat) (reservations : List Reservation)
    (last : Reservation) :
    reserved index (reservations ++ [last]) =
      reserved index reservations + if last.index = index then 1 else 0 := by
  simp [reserved, List.countP_append, List.countP_singleton]

/-- A number above all that its shard gave out is new. -/
theorem Course.fresh {coder : Coder} {s : Session Token Reservation} (h : coder.Course s)
    {index : Nat} (hindex : index < coder.group.numShards) {number : UInt64}
    (hnumber : number.toNat = coder.numberAt index (reserved index s.committed)) :
    number ∉ s.committed.map Reservation.number := by
  intro hmem
  obtain ⟨reservation, hreservation, rfl⟩ := List.mem_map.mp hmem
  obtain ⟨count, hcount, heq⟩ := h.number_eq hreservation
  obtain ⟨rfl, rfl⟩ := numberAt_inj hindex (h.index_lt _ hreservation) (hnumber.symm.trans heq)
  exact Nat.lt_irrefl _ hcount

/-- A commit that reserves a number. -/
theorem Course.reserve {coder : Coder} {s left : Session Token Reservation} (h : coder.Course s)
    (hfits : coder.protocol.Fits left.log) {token : Token} (htoken : token ∈ s.tokens)
    (hcommitted : left.committed = s.committed ++ [token.reservation])
    (htokens : left.tokens = s.tokens) {read : Option Document} (htells : coder.Tells read token)
    (hrecalled : s.table.document? (coder.group.plainKey token.number.index) = none ∨
      s.table.document? (coder.group.plainKey token.number.index) = read)
    (happlied : ∀ key, coder.protocol.Owns key →
      (writesOn key (coder.numberWrites token.number)).foldlM Database.applyWrite
        (s.table.document? key) = .ok (left.table.document? key)) :
    coder.Course left := by
  obtain ⟨hfollows, hencodes⟩ := htells
  have hindex := hfollows.1
  have hkey := hfollows.2.1
  have hread := h.current htoken hfollows hrecalled
  rw [← hread, h.stored _ hindex] at hfollows
  have hcount : ∀ index, reserved index left.committed =
      reserved index s.committed + if token.number.index = index then 1 else 0 := by
    intro index
    rw [hcommitted, reserved_append, Token.index_reservation]
  have hroom : reserved token.number.index left.committed < 2 ^ 63 - 1 := hfits _ hindex
  rw [hcount, if_pos rfl] at hroom
  obtain ⟨hpresent, hnumber⟩ := follows_counted (by omega) hfollows
  have hnew : token.reservation.number ∉ s.committed.map Reservation.number :=
    h.fresh hindex (by simpa using hnumber)
  refine ⟨fun index hlt => ?_, fun other hother hfound => ?_, ?_, fun index => ?_, ?_, ?_⟩
  · have happlied := happlied _ ⟨index, hlt, rfl⟩
    rw [numberWrites, writesOn_cons, hkey] at happlied
    by_cases hsame : token.number.index = index
    · rw [if_pos (congrArg _ hsame), ← hsame, h.stored _ hindex, hpresent] at happlied
      rw [← hsame, hcount, if_pos rfl]
      have hmade := @ShardGroup.applyWrite_counted coder.group.owner
        (reserved token.number.index s.committed) (by omega)
      simpa [hmade, eq_comm] using happlied
    · have hne : coder.group.plainKey token.number.index ≠ coder.group.plainKey index :=
        fun heq => hsame (ShardGroup.plainKey_inj heq)
      rw [if_neg hne] at happlied
      rw [hcount, if_neg hsame, Nat.add_zero, ← h.stored index hlt]
      exact (Except.ok.inj happlied).symm
  · rw [htokens] at hother
    have hpos := h.found other hother hfound
    rw [hcount]
    omega
  · rw [hcommitted]
    intro reservation hmem
    rcases List.mem_append.mp hmem with hold | hlast
    · exact h.index_lt reservation hold
    · rw [List.mem_singleton.mp hlast, Token.index_reservation]
      exact hindex
  · rw [hcount, hcommitted, List.filter_append, List.map_append, h.numbers]
    by_cases hsame : token.number.index = index
    · rw [if_pos hsame, List.range_succ, List.map_append]
      simp [hsame, hnumber]
    · simp [hsame]
  · rw [hcommitted, List.map_append, List.map_singleton, List.nodup_append]
    refine ⟨h.distinct, List.pairwise_singleton _ _, ?_⟩
    rintro number hmem _ hlast rfl
    rw [List.mem_singleton.mp hlast] at hmem
    exact hnew hmem
  · rw [hcommitted]
    intro reservation hmem width code hcode
    rcases List.mem_append.mp hmem with hold | hlast
    · exact h.codes reservation hold width code hcode
    · rw [List.mem_singleton.mp hlast] at hcode ⊢
      exact Token.decode_reservation hencodes hcode

/-- Every turn of a run keeps the course. -/
theorem Course.turn {coder : Coder} {s left : Session Token Reservation} (h : coder.Course s)
    (hturn : Session.Turn coder.law s left) (hfits : coder.protocol.Fits left.log) :
    coder.Course left := by
  cases hturn with
  | quiet hlog hkept htokens =>
    exact h.quiet hfits (by rw [Session.committed, hlog, Session.committed]) hkept htokens
  | bare hlog hkept htokens =>
    refine h.quiet hfits (by simp [Session.committed, hlog]) hkept fun token htoken => ?_
    exact .inl (htokens ▸ htoken)
  | commit id reservation writes hlog htokens hbacked hrecalled happlied =>
    obtain ⟨token, htoken, hstamp, rfl, rfl⟩ := hbacked
    obtain ⟨memory, ⟨read, rfl, htells⟩, hread⟩ := hrecalled token htoken hstamp
    exact h.reserve hfits htoken (by simp [Session.committed, hlog]) htokens htells
      (hread _ (List.mem_singleton_self _)) happlied

theorem course_of_reaches {coder : Coder} {start s : Session Token Reservation}
    (hstart : coder.protocol.Starts start) (h : coder.protocol.Reaches start s) :
    coder.Course s :=
  h.rec_turns coder.law hstart (.of_starts hstart) fun hturn hfits hcourse =>
    hcourse.turn hturn hfits

/-! ## What a run hands out -/

/-- The codes of one width, in the order of their reservations. -/
def codesOf (width : CodeWidth) (reservations : List Reservation) : List String :=
  reservations.filterMap fun reservation =>
    reservation.code.bind fun (made, code) => if made = width then some code else none

/-- A single shard counts upwards. -/
theorem Course.increasing {coder : Coder} {s : Session Token Reservation} (h : coder.Course s)
    (hone : coder.group.numShards = 1) :
    (s.committed.map Reservation.number).Pairwise (· < ·) := by
  have hall : s.committed.filter (·.index = 0) = s.committed := by
    rw [List.filter_eq_self]
    intro reservation hmem
    have hlt := h.index_lt reservation hmem
    rw [hone] at hlt
    simpa using hlt
  have hnumbers := h.numbers 0
  rw [hall] at hnumbers
  have hpairwise : (s.committed.map (·.number.toNat)).Pairwise (· < ·) := by
    rw [hnumbers, List.pairwise_map]
    refine List.pairwise_lt_range.imp fun {a b} hlt => ?_
    simp only [numberAt, hone]
    omega
  rw [List.pairwise_map] at hpairwise ⊢
  exact hpairwise.imp fun hlt => UInt64.lt_iff_toNat_lt.mpr hlt

/-- Codes of one width differ, since they give back different numbers. -/
theorem Course.codesOf_nodup {coder : Coder} {s : Session Token Reservation}
    (h : coder.Course s) (width : CodeWidth) : (codesOf width s.committed).Nodup := by
  have hdecode : ∀ reservation ∈ s.committed, ∀ code,
      (reservation.code.bind fun (made, code) => if made = width then some code else none) =
        some code → Code.decode code width = .ok reservation.number := by
    intro reservation hmem code hcode
    obtain ⟨⟨made, text⟩, hmade, hif⟩ := Option.bind_eq_some_iff.mp hcode
    dsimp only at hif
    split at hif
    · rename_i hwidth
      cases hif
      exact h.codes reservation hmem width code (hwidth ▸ hmade)
    · cases hif
  have hdistinct := h.distinct
  rw [List.Nodup, List.pairwise_map] at hdistinct
  rw [codesOf, List.Nodup, List.pairwise_filterMap]
  refine hdistinct.imp_of_mem fun {a b} ha hb hne code hcode other hother heq => hne ?_
  rw [← heq] at hother
  exact Except.ok.inj ((hdecode a ha code hcode).symm.trans (hdecode b hb code hother))

/-- A read phase that fails leaves everything as it is but what its attempt
recorded. -/
theorem step_read_error {coder : Coder} {s : Session Token Reservation} {id : UInt64}
    {phase : TxOp Unit Token} (hphase : coder.protocol.Reads phase) {attempt : Attempt}
    (hheld : s.attempts id = some attempt) {error : Error}
    (herror : (phase.runIn attempt s.env).1 = .error error) :
    (s.step (.read id phase)).log = s.log ∧ (s.step (.read id phase)).tokens = s.tokens ∧
      (s.step (.read id phase)).drafts = s.drafts ∧
      (s.step (.read id phase)).db = s.db ∧
      ∃ later, (s.step (.read id phase)).attempts id = some later ∧
        later.writes = attempt.writes ∧ later.status = attempt.status := by
  rcases hrun : phase.runIn attempt s.env with ⟨outcome, later, left⟩
  have hstore := (readsOnly_of_reads hphase).store_eq hrun
  have hreads := (readsOnly_of_reads hphase).reads hrun
  rw [hrun] at herror
  dsimp only at herror
  subst herror
  have hstep : s.step (.read id phase) = { s with env := left }.setAttempt id later := by
    simp only [Session.step, Session.inside, hheld, hrun]
  rw [hstep]
  exact ⟨rfl, rfl, rfl, congrArg Store.database hstore, later, by simp, hreads.writes,
    hreads.status⟩

/-- The `k`-th reservation of shard `i` of `n` is the number `k * n + i`.  All
numbers are different, those of a single shard count upwards, and codes of one
width are different and give back their numbers.  A read phase that fails reserves
nothing. -/
theorem reservations_distinct {coder : Coder} {start s : Session Token Reservation}
    (hstart : coder.protocol.Starts start) (h : coder.protocol.Reaches start s) :
    (∀ reservation ∈ s.committed, reservation.index < coder.group.numShards) ∧
      (∀ index, (s.committed.filter (·.index = index)).map (·.number.toNat) =
        (List.range (reserved index s.committed)).map fun k =>
          (k + 1) * coder.group.numShards + index) ∧
      (s.committed.map Reservation.number).Nodup ∧
      (coder.group.numShards = 1 → (s.committed.map Reservation.number).Pairwise (· < ·)) ∧
      (∀ width, (codesOf width s.committed).Nodup) ∧
      (∀ reservation ∈ s.committed, ∀ width code, reservation.code = some (width, code) →
        Code.decode code width = .ok reservation.number) ∧
      ∀ id phase attempt error, coder.protocol.Reads phase → s.attempts id = some attempt →
        (phase.runIn attempt s.env).1 = .error error →
        (s.step (.read id phase)).log = s.log ∧ (s.step (.read id phase)).tokens = s.tokens ∧
          (s.step (.read id phase)).drafts = s.drafts ∧
          (s.step (.read id phase)).db = s.db ∧
          ∃ later, (s.step (.read id phase)).attempts id = some later ∧
            later.writes = attempt.writes ∧ later.status = attempt.status := by
  have hcourse := course_of_reaches hstart h
  refine ⟨hcourse.index_lt, hcourse.numbers, hcourse.distinct, hcourse.increasing,
    hcourse.codesOf_nodup, hcourse.codes, ?_⟩
  intro id phase attempt error hphase hheld herror
  exact step_read_error hphase hheld herror

/-! ## A run -/

instance (coder : Coder) : DecidablePred coder.protocol.Fits :=
  fun _ => inferInstanceAs (Decidable (∀ index < coder.group.numShards, _ < _))

/-- A coder of coupons with two shards. -/
def coupons : Coder := { group := ⟨"codes", "coupon", 2⟩ }

/-- A number of the first shard, and a code of the second one. -/
def numberThenCode : List (Action Token Reservation) :=
  let number : PendingNumber := ⟨⟨1, "codes", "coupon"⟩, 0, ⟨"codes", "coupon_0"⟩, false, 2⟩
  let code : PendingCode :=
    ⟨⟨⟨2, "codes", "coupon"⟩, 1, ⟨"codes", "coupon_1"⟩, false, 3⟩, .bits16, "OmQ"⟩
  [.begin, .read 1 (Sum.inl <$> coupons.numberRead live),
    .write 1 ((Reservation.mk 0 · none) <$> coupons.numberWrite live number), .commit 1,
    .request (Op.surround fun env => { env with picks := [1] }),
    .begin, .read 2 (Sum.inr <$> coupons.codeRead live .bits16),
    .write 2 ((fun code => ⟨1, 3, some (.bits16, code)⟩) <$>
      coupons.codeWrite live code .bits16), .commit 2]

theorem permits_numberThenCode : coupons.protocol.Permits fresh numberThenCode :=
  ⟨.begin, .read _ ⟨coupons, live, rfl, .inl rfl⟩,
    .write _ ⟨coupons, live, rfl, .inl ⟨_, List.mem_of_getElem? (i := 0) rfl, rfl⟩⟩ (by decide),
    .commit _, .surround _ fun _ => rfl,
    .begin, .read _ ⟨coupons, live, rfl, .inr ⟨.bits16, rfl⟩⟩,
    .write _ ⟨coupons, live, rfl, .inr ⟨_, .bits16, List.mem_of_getElem? (i := 1) rfl, rfl⟩⟩
      (by decide),
    .commit _, trivial⟩

theorem reservations_numberThenCode :
    (fresh.run numberThenCode).committed = [⟨0, 2, none⟩, ⟨1, 3, some (.bits16, "OmQ")⟩] ∧
      ((fresh.run numberThenCode).committed.map Reservation.number).Nodup ∧
      Code.decode "OmQ" .bits16 = .ok 3 := by
  have hfresh : coupons.protocol.Starts fresh := .of_empty _ rfl
  have hreaches : coupons.protocol.Reaches fresh (fresh.run numberThenCode) :=
    .run .start permits_numberThenCode (by decide)
  obtain ⟨-, -, hdistinct, -, -, hcodes, -⟩ := reservations_distinct hfresh hreaches
  have hmem : ⟨1, 3, some (.bits16, "OmQ")⟩ ∈ (fresh.run numberThenCode).committed :=
    List.mem_of_getElem? (i := 1) rfl
  exact ⟨rfl, hdistinct, hcodes _ hmem _ _ rfl⟩

end Coder

end Shardwise
