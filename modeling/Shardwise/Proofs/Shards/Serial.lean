import Shardwise.Proofs.Session.Invariant
import Shardwise.Proofs.Shards.Phases
import Shardwise.Shards.Serial

/-!
# When a serial is gapless

The commits of a run reserve numbers of a serial, or remove its document.
`Serial.protocol` is what may happen in such a run, and `Serial.reserved` counts
the numbers since the document was last removed.  The serial is gapless when each
commit reserved the number that is next by this count.

This is so unless a commit is *lost*: its number is for a document that its read
phase found, and the document is not there any more.  Versions do not show this
where the same attempt had read the serial before, when it did not exist yet:
the version of a document that is absent is 0, and so it is again once a document
is removed.  The write adds to nothing then, and makes a document that holds 1.

* `Serial.numberRead_eq_ok` and `Serial.numberWrite_cases` describe the phases.
* `Serial.Course` is the invariant of runs, and `Serial.Course.turn` its step.
* `Serial.gapless_iff` says that a run is gapless exactly if no commit is lost.
-/

namespace Shardwise

/-- What a commit does to a serial. -/
inductive SerialEvent where
  /-- A number is reserved; `found` tells whether its read phase found the
  document. -/
  | number (n : UInt64) (found : Bool)
  /-- The document is removed, if it is there. -/
  | cleared
deriving DecidableEq

/-- The event reserves a number for a document that its read phase found. -/
def SerialEvent.isFound : SerialEvent → Bool
  | .number _ found => found
  | .cleared => false

/-- How many numbers are reserved after an event, since the document was last
removed. -/
def SerialEvent.after (before : Option Document) (count : Nat) : SerialEvent → Nat
  | .number .. => count + 1
  | .cleared => if before.isSome then 0 else count

namespace Serial

open Session (fresh live)

variable {υ : Type}

/-! ## Runs of a serial -/

/-- A handle of the same serial. -/
def Same (serial handle : Serial) : Prop :=
  handle.collection = serial.collection ∧ handle.owner = serial.owner

/-- The number of commits that reserved a number since the last one that removed
the document. -/
def reserved (serial : Serial) (log : List (Commitment SerialEvent)) : Nat :=
  log.foldl (fun count commitment => commitment.entries.foldl
    (SerialEvent.after (commitment.before.document? serial.key)) count) 0

/-- Every commit that reserved a number reserved the next one. -/
def Gapless (serial : Serial) (log : List (Commitment SerialEvent)) : Prop :=
  Along (fun earlier commitment => ∀ n found, .number n found ∈ commitment.entries →
    n.toNat = serial.reserved earlier + 1) log

/-- A commit reserved a number for a document that its read phase found, and the
document was gone. -/
def Lost (serial : Serial) (log : List (Commitment SerialEvent)) : Prop :=
  ∃ commitment ∈ log, (∃ event ∈ commitment.entries, event.isFound = true) ∧
    commitment.before.document? serial.key = none

instance (serial : Serial) (log : List (Commitment SerialEvent)) : Decidable (serial.Lost log) :=
  inferInstanceAs (Decidable (∃ commitment ∈ log, _ ∧ _))

/-- What callers do with a serial: they reserve numbers through any of its
handles, and remove its document. -/
def protocol (serial : Serial) : Protocol PendingSerial SerialEvent where
  Owns key := key = serial.key
  Reads phase := ∃ handle ctx, serial.Same handle ∧ phase = handle.numberRead ctx
  Writes tokens phase :=
    (∃ handle ctx, serial.Same handle ∧ ∃ token ∈ tokens,
      phase = (SerialEvent.number · token.present) <$> handle.numberWrite ctx token) ∨
    phase = (fun _ => .cleared) <$> TxOp.delete serial.key
  Fits log := log.length < 2 ^ 63 - 1

/-! ## The phases of a serial -/

/-- The token is what a read phase makes of a document. -/
def Follows (read : Option Document) (token : PendingSerial) : Prop :=
  token.present = read.isSome ∧ ShardGroup.nextCount read = .ok token.number

theorem readsOnly_numberRead (serial : Serial) (ctx : Context) :
    (serial.numberRead ctx : TxOp υ PendingSerial).ReadsOnly := by
  refine (serial.group.readsOnly_checkRead ctx).bind fun _ => ?_
  refine ((TxOp.ReadsOnly.get _).withContext _ _ _).bind fun read => ?_
  refine (TxOp.ReadsOnly.ofExcept _).bind fun number => ?_
  exact TxOp.ReadsOnly.attempt.bind fun _ => .pure _

/-- A read phase that succeeds tells the number that follows the document. -/
theorem numberRead_eq_ok {serial : Serial} {ctx : Context} {attempt later : Attempt}
    {env left : Env υ} {token : PendingSerial}
    (h : (serial.numberRead ctx).runIn attempt env = (.ok token, later, left)) :
    token.stamp = serial.group.stamp later ∧
      Follows (env.store.table.document? serial.key) token ∧
      ∃ version, later.reads[serial.key]? = some version := by
  unfold numberRead at h
  obtain ⟨_, checked, env₁, hcheck, h₁⟩ := TxOp.runIn_bind_eq_ok.mp h
  obtain ⟨read, recorded, env₂, hget, h₂⟩ := TxOp.runIn_bind_eq_ok.mp h₁
  obtain ⟨number, _, _, hcount, h₃⟩ := TxOp.runIn_bind_eq_ok.mp h₂
  obtain ⟨hnumber, rfl, rfl⟩ := TxOp.runIn_ofExcept_eq_ok.mp hcount
  rw [TxOp.runIn_bind, TxOp.runIn_attempt] at h₃
  cases h₃
  obtain ⟨-, hread, hrecorded⟩ := TxOp.runIn_get_eq_ok (TxOp.runIn_withContext_eq_ok.mp hget)
  have htable : env₁.store.table = env.store.table :=
    congrArg Store.table ((serial.group.readsOnly_checkRead ctx).store_eq hcheck)
  rw [htable] at hread
  rw [← hread]
  exact ⟨rfl, ⟨rfl, hnumber⟩, hrecorded⟩

/-- A write phase fails and changes nothing, or it has a token of its own attempt
and reserves the number of it. -/
theorem numberWrite_cases (serial : Serial) (ctx : Context) (token : PendingSerial)
    (attempt : Attempt) (env : Env υ) :
    (∃ error, (serial.numberWrite ctx token).runIn attempt env =
        (.error error, attempt, env)) ∨
      (serial.numberWrite ctx token).runIn attempt env =
        (.ok token.number, { attempt with writes := attempt.writes ++
          [(serial.key, ShardGroup.shardWrite token.present
            { owner := serial.owner, value := .int 1 })] }, env) ∧
      token.stamp = serial.group.stamp attempt := by
  simp only [numberWrite, TxOp.runIn_bind]
  rcases serial.group.checkWrite_cases ctx token.stamp attempt env with
    ⟨error, hrun⟩ | ⟨hrun, hactive, hstamp⟩
  · exact .inl ⟨error, by rw [hrun]⟩
  · rw [hrun]
    simp only [ShardGroup.runIn_reserve serial.group serial.key token.present hactive env]
    exact .inr ⟨rfl, hstamp⟩

theorem Same.key_eq {serial handle : Serial} (h : serial.Same handle) :
    handle.key = serial.key := by
  obtain ⟨hcollection, howner⟩ := h
  simp only [key, group, ShardGroup.plainKey, hcollection, howner]

/-- The write that reserves the number of a token. -/
def numberWrites (serial : Serial) (token : PendingSerial) : List (DocKey × Write) :=
  [(serial.key, ShardGroup.shardWrite token.present { owner := serial.owner, value := .int 1 })]

/-- What has to be known of the phases of a serial. -/
def law (serial : Serial) : serial.protocol.Law where
  stamp token := token.stamp.attempt
  Seen table token := Follows (table.document? serial.key) token
  Remembers token memory := ∃ read, memory = [(serial.key, read)] ∧ Follows read token
  Backed tokens id event writes :=
    (∃ token ∈ tokens, token.stamp.attempt = id ∧ event = .number token.number token.present ∧
      writes = serial.numberWrites token) ∨
    event = .cleared ∧ writes = [(serial.key, .delete)]
  read := by
    rintro _ attempt env outcome later left ⟨handle, ctx, hsame, rfl⟩ hrun
    have hreads : (handle.numberRead ctx : TxOp Unit PendingSerial).ReadsOnly :=
      handle.readsOnly_numberRead ctx
    refine ⟨hreads.store_eq hrun, hreads.reads hrun, ?_⟩
    rintro token rfl
    obtain ⟨hstamp, hfollows, hrecorded⟩ := numberRead_eq_ok hrun
    rw [hsame.key_eq] at hfollows hrecorded
    refine ⟨?_, hfollows, _, ⟨_, rfl, hfollows⟩, ?_⟩
    · rw [hstamp]
      exact (hreads.reads hrun).id
    · simpa using hrecorded
  write := by
    rintro tokens _ attempt env outcome later left
      (⟨handle, ctx, hsame, token, htoken, rfl⟩ | rfl) hrun
    · rw [TxOp.runIn_map] at hrun
      rcases handle.numberWrite_cases ctx token attempt env with
        ⟨error, hcase⟩ | ⟨hcase, hstamp⟩
      · rw [hcase] at hrun
        cases hrun
        exact ⟨rfl, .inl ⟨⟨error, rfl⟩, rfl⟩⟩
      · rw [hcase] at hrun
        cases hrun
        refine ⟨rfl, .inr ⟨_, _, rfl, rfl, .inl ⟨token, htoken, ?_, rfl, ?_⟩⟩⟩
        · rw [hstamp]
          rfl
        · rw [numberWrites, hsame.key_eq, hsame.2]
    · rw [TxOp.runIn_map, TxOp.delete, TxOp.runIn_change] at hrun
      cases hdelete : attempt.delete serial.key with
      | error error =>
        rw [hdelete] at hrun
        cases hrun
        exact ⟨rfl, .inl ⟨⟨error, rfl⟩, rfl⟩⟩
      | ok changed =>
        rw [hdelete] at hrun
        cases hrun
        obtain ⟨-, rfl⟩ := Attempt.buffer_eq_ok hdelete
        exact ⟨rfl, .inr ⟨_, _, rfl, rfl, .inr ⟨rfl, rfl⟩⟩⟩
  backed_append := by
    rintro tokens id event writes more (⟨token, htoken, hbacked⟩ | hcleared)
    · exact .inl ⟨token, List.mem_append_left more htoken, hbacked⟩
    · exact .inr hcleared

/-! ## The course of a run -/

theorem reserved_append (serial : Serial) (log : List (Commitment SerialEvent))
    (last : Commitment SerialEvent) :
    serial.reserved (log ++ [last]) =
      last.entries.foldl (SerialEvent.after (last.before.document? serial.key))
        (serial.reserved log) := by
  simp [reserved]

theorem lost_append {serial : Serial} {log : List (Commitment SerialEvent)}
    {last : Commitment SerialEvent} :
    serial.Lost (log ++ [last]) ↔ serial.Lost log ∨
      (∃ event ∈ last.entries, event.isFound = true) ∧
        last.before.document? serial.key = none := by
  simp only [Lost, List.mem_append, List.mem_singleton, or_and_right, exists_or,
    exists_eq_left]

theorem gapless_append {serial : Serial} {log : List (Commitment SerialEvent)}
    {last : Commitment SerialEvent} :
    serial.Gapless (log ++ [last]) ↔ serial.Gapless log ∧
      ∀ n found, .number n found ∈ last.entries → n.toNat = serial.reserved log + 1 :=
  along_append

/-- What the runs of a serial keep: as long as no commit is lost, the document
holds the count; and once one is, the serial is not gapless any more. -/
structure Course (serial : Serial) (s : Session PendingSerial SerialEvent) : Prop where
  bound : serial.reserved s.log ≤ s.log.length
  stored : ¬ serial.Lost s.log →
    s.table.document? serial.key = ShardGroup.counted serial.owner (serial.reserved s.log)
  gapless : ¬ serial.Lost s.log → serial.Gapless s.log
  /-- Who finds the document does not get the first number. -/
  second : ¬ serial.Lost s.log → ∀ token ∈ s.tokens, token.present = true →
    token.number.toNat ≠ 1
  broken : serial.Lost s.log → ¬ serial.Gapless s.log

theorem Course.of_starts {serial : Serial} {s : Session PendingSerial SerialEvent}
    (h : serial.protocol.Starts s) : serial.Course s := by
  have hlost : ¬ serial.Lost s.log := by simp [Lost, h.log]
  refine ⟨by simp [h.log, reserved], fun _ => ?_, fun _ => ?_, by simp [h.tokens],
    fun hbroken => absurd hbroken hlost⟩
  · rw [Table.document?_eq_none.mpr (h.absent serial.key rfl)]
    simp [h.log, reserved]
  · rw [h.log]
    exact along_nil _

/-- What a token says about a document that was counted up. -/
theorem follows_counted {owner : String} {count : Nat} {token : PendingSerial}
    (hroom : count < 2 ^ 63) (h : Follows (ShardGroup.counted owner count) token) :
    token.present = decide (0 < count) ∧ token.number.toNat = count + 1 := by
  obtain ⟨hpresent, hnumber⟩ := h
  rw [ShardGroup.counted_isSome] at hpresent
  rw [ShardGroup.nextCount_counted hroom] at hnumber
  refine ⟨hpresent, ?_⟩
  rw [← Except.ok.inj hnumber, UInt64.toNat_ofNat']
  exact Nat.mod_eq_of_lt (by omega)

/-- A step without a commit. -/
theorem Course.quiet {serial : Serial} {s left : Session PendingSerial SerialEvent}
    (h : serial.Course s) (hfits : serial.protocol.Fits left.log) (hlog : left.log = s.log)
    (hkept : left.table.document? serial.key = s.table.document? serial.key)
    (htokens : ∀ token ∈ left.tokens,
      token ∈ s.tokens ∨ Follows (s.table.document? serial.key) token) :
    serial.Course left := by
  have hbound := h.bound
  have hfits : left.log.length < 2 ^ 63 - 1 := hfits
  rw [hlog] at hfits
  refine ⟨by rw [hlog]; exact h.bound, ?_, by rw [hlog]; exact h.gapless, ?_,
    by rw [hlog]; exact h.broken⟩
  · rw [hlog, hkept]
    exact h.stored
  · rw [hlog]
    intro hlost token htoken hpresent
    rcases htokens token htoken with hold | hnew
    · exact h.second hlost token hold hpresent
    · rw [h.stored hlost] at hnew
      obtain ⟨hfound, hnumber⟩ := follows_counted (by omega) hnew
      rw [hpresent] at hfound
      have hpos : 0 < serial.reserved s.log := of_decide_eq_true hfound.symm
      omega

/-- A commit that reserves a number. -/
theorem Course.number {serial : Serial} {s left : Session PendingSerial SerialEvent}
    (h : serial.Course s) (hfits : serial.protocol.Fits left.log) {token : PendingSerial}
    (htoken : token ∈ s.tokens)
    (hlog : left.log = s.log ++ [⟨s.table, [.number token.number token.present]⟩])
    (htokens : left.tokens = s.tokens) {read : Option Document} (hfollows : Follows read token)
    (hrecalled : s.table.document? serial.key = none ∨ s.table.document? serial.key = read)
    (happlied : Database.applyWrite (s.table.document? serial.key)
      (ShardGroup.shardWrite token.present { owner := serial.owner, value := .int 1 }) =
        .ok (left.table.document? serial.key)) :
    serial.Course left := by
  have hbound := h.bound
  have hfits : left.log.length < 2 ^ 63 - 1 := hfits
  have hlength : left.log.length = s.log.length + 1 := by rw [hlog]; simp
  have hcount : serial.reserved left.log = serial.reserved s.log + 1 := by
    rw [hlog, reserved_append]
    rfl
  have hlost : serial.Lost left.log ↔ serial.Lost s.log ∨
      token.present = true ∧ s.table.document? serial.key = none := by
    rw [hlog, lost_append]
    simp only [List.mem_singleton, exists_eq_left, SerialEvent.isFound]
  have hgapless : serial.Gapless left.log ↔
      serial.Gapless s.log ∧ token.number.toNat = serial.reserved s.log + 1 := by
    rw [hlog, gapless_append]
    simp
  -- Without a loss the document is the one that was read, so the token follows it.
  have hcurrent : ¬ serial.Lost left.log →
      token.present = decide (0 < serial.reserved s.log) ∧
        token.number.toNat = serial.reserved s.log + 1 := by
    intro hnot
    rw [hlost, not_or] at hnot
    have hread : s.table.document? serial.key = read := by
      rcases hrecalled with hgone | hsame
      · have habsent : token.present = false := by
          cases hpresent : token.present with
          | false => rfl
          | true => exact absurd ⟨hpresent, hgone⟩ hnot.2
        rw [hfollows.1, Option.isSome_eq_false_iff, Option.isNone_iff_eq_none] at habsent
        rw [hgone, habsent]
      · exact hsame
    rw [← hread, h.stored hnot.1] at hfollows
    exact follows_counted (by omega) hfollows
  refine ⟨by omega, fun hnot => ?_, fun hnot => ?_, fun hnot => ?_, fun hnow => ?_⟩
  · have hsound : ¬ serial.Lost s.log := fun hearlier => hnot (hlost.mpr (.inl hearlier))
    rw [h.stored hsound, (hcurrent hnot).1, ShardGroup.applyWrite_counted (by omega)] at happlied
    rw [hcount]
    exact (Except.ok.inj happlied).symm
  · have hsound : ¬ serial.Lost s.log := fun hearlier => hnot (hlost.mpr (.inl hearlier))
    exact hgapless.mpr ⟨h.gapless hsound, (hcurrent hnot).2⟩
  · rw [htokens]
    exact h.second fun hearlier => hnot (hlost.mpr (.inl hearlier))
  · rw [hgapless]
    rintro ⟨hearlier, hnumber⟩
    by_cases hbroken : serial.Lost s.log
    · exact h.broken hbroken hearlier
    · rcases hlost.mp hnow with hthen | ⟨hpresent, hgone⟩
      · exact hbroken hthen
      · -- Nothing is stored, so the next number is 1.
        have hzero : serial.reserved s.log = 0 := by
          have hstored := h.stored hbroken
          rw [hgone] at hstored
          cases hreserved : serial.reserved s.log with
          | zero => rfl
          | succ count =>
            rw [hreserved] at hstored
            cases hstored
        exact h.second hbroken token htoken hpresent (by omega)

/-- A commit that reserves no number. -/
theorem Course.unnumbered {serial : Serial} {s left : Session PendingSerial SerialEvent}
    (h : serial.Course s) {events : List SerialEvent}
    (hlog : left.log = s.log ++ [⟨s.table, events⟩]) (htokens : left.tokens = s.tokens)
    (hevents : ∀ n found, .number n found ∉ events)
    (hcount : serial.reserved left.log ≤ serial.reserved s.log)
    (hstored : s.table.document? serial.key =
        ShardGroup.counted serial.owner (serial.reserved s.log) →
      left.table.document? serial.key =
        ShardGroup.counted serial.owner (serial.reserved left.log)) :
    serial.Course left := by
  have hbound := h.bound
  have hlength : left.log.length = s.log.length + 1 := by rw [hlog]; simp
  have hlost : serial.Lost left.log ↔ serial.Lost s.log := by
    rw [hlog, lost_append]
    refine or_iff_left ?_
    rintro ⟨⟨n | _, hevent, hfound⟩, -⟩
    · exact hevents _ _ hevent
    · exact Bool.false_ne_true hfound
  have hgapless : serial.Gapless left.log ↔ serial.Gapless s.log := by
    rw [hlog, gapless_append]
    simp [hevents]
  refine ⟨by omega, ?_, ?_, ?_, ?_⟩
  · rw [hlost]
    exact fun hnot => hstored (h.stored hnot)
  · rw [hlost, hgapless]
    exact h.gapless
  · rw [hlost, htokens]
    exact h.second
  · rw [hlost, hgapless]
    exact h.broken

/-- Every turn of a run keeps the course. -/
theorem Course.turn {serial : Serial} {s left : Session PendingSerial SerialEvent}
    (h : serial.Course s) (hturn : Session.Turn serial.law s left)
    (hfits : serial.protocol.Fits left.log) : serial.Course left := by
  cases hturn with
  | quiet hlog hkept htokens => exact h.quiet hfits hlog (hkept serial.key rfl) htokens
  | bare hlog hkept htokens =>
    have hcount : serial.reserved left.log = serial.reserved s.log := by
      rw [hlog, reserved_append]
      rfl
    refine h.unnumbered hlog htokens (by simp) (Nat.le_of_eq hcount) fun hstored => ?_
    rw [hcount, hkept serial.key rfl, hstored]
  | commit id event writes hlog htokens hbacked hrecalled happlied =>
    have happlied := happlied serial.key rfl
    rcases hbacked with ⟨token, htoken, hstamp, rfl, rfl⟩ | ⟨rfl, rfl⟩
    · obtain ⟨memory, ⟨read, rfl, hfollows⟩, hread⟩ := hrecalled token htoken hstamp
      refine h.number hfits htoken hlog htokens hfollows (hread _ (List.mem_singleton_self _)) ?_
      simpa [numberWrites, writesOn_cons] using happlied
    · have hgone : left.table.document? serial.key = none := by
        simpa [writesOn_cons, Database.applyWrite, eq_comm] using happlied
      have hcount : serial.reserved left.log =
          if (s.table.document? serial.key).isSome then 0 else serial.reserved s.log := by
        rw [hlog, reserved_append]
        rfl
      refine h.unnumbered hlog htokens (by simp) ?_ fun hstored => ?_
      · rw [hcount]
        split <;> omega
      · rw [hcount, hgone]
        split
        · rfl
        · rename_i habsent
          rw [Option.not_isSome_iff_eq_none] at habsent
          rw [← hstored, habsent]

theorem course_of_reaches {serial : Serial} {start s : Session PendingSerial SerialEvent}
    (hstart : serial.protocol.Starts start) (h : serial.protocol.Reaches start s) :
    serial.Course s :=
  h.rec_turns serial.law hstart (.of_starts hstart) fun hturn hfits hcourse =>
    hcourse.turn hturn hfits

/-- Without a commit the document of a serial stays as it is. -/
theorem document?_of_log_eq {serial : Serial} {s left : Session PendingSerial SerialEvent}
    (hturn : Session.Turn serial.law s left) (hlog : left.log = s.log) :
    left.table.document? serial.key = s.table.document? serial.key := by
  cases hturn with
  | quiet _ hkept _ => exact hkept serial.key rfl
  | bare hmore hkept _ => exact hkept serial.key rfl
  | commit id event writes hmore =>
    rw [hmore] at hlog
    simp at hlog

/-! ## Gaplessness -/

/-- A serial is gapless, and its document holds the count, exactly as long as no
commit is lost.  Whatever does not commit leaves the document as it is. -/
theorem gapless_iff {serial : Serial} {start s : Session PendingSerial SerialEvent}
    (hstart : serial.protocol.Starts start) (h : serial.protocol.Reaches start s) :
    (serial.Gapless s.log ∧ s.table.document? serial.key =
        ShardGroup.counted serial.owner (serial.reserved s.log) ↔ ¬ serial.Lost s.log) ∧
      ∀ action, serial.protocol.Allows s action → s.db.HasRoom →
        (s.step action).log = s.log →
          (s.step action).table.document? serial.key = s.table.document? serial.key := by
  have hcourse := course_of_reaches hstart h
  refine ⟨⟨?_, fun hnot => ⟨hcourse.gapless hnot, hcourse.stored hnot⟩⟩, ?_⟩
  · rintro ⟨hgapless, -⟩ hlost
    exact hcourse.broken hlost hgapless
  · intro action hallowed hroom hlog
    exact document?_of_log_eq ((h.inv serial.law hstart).step hallowed hroom).2 hlog

instance (serial : Serial) : DecidablePred serial.protocol.Fits :=
  fun log => inferInstanceAs (Decidable (log.length < 2 ^ 63 - 1))

/-! ## Two runs -/

/-- A serial of tickets. -/
def tickets : Serial := { collection := "serials", owner := "ticket" }

/-- The token of a read phase of the tickets. -/
def token (id : UInt64) (present : Bool) (n : UInt64) : PendingSerial :=
  ⟨⟨id, "serials", "ticket"⟩, present, n⟩

/-- The read phase of a number inside an attempt. -/
def reading (id : UInt64) : Action PendingSerial SerialEvent :=
  .read id (tickets.numberRead live)

/-- The write phase for a token inside its attempt. -/
def reserving (pending : PendingSerial) : Action PendingSerial SerialEvent :=
  .write pending.stamp.attempt
    ((SerialEvent.number · pending.present) <$> tickets.numberWrite live pending)

/-- The removal of the document inside an attempt. -/
def clearing (id : UInt64) : Action PendingSerial SerialEvent :=
  .write id ((fun _ => .cleared) <$> TxOp.delete tickets.key)

theorem allows_reading (s : Session PendingSerial SerialEvent) (id : UInt64) :
    tickets.protocol.Allows s (reading id) :=
  .read id ⟨tickets, live, ⟨rfl, rfl⟩, rfl⟩

theorem allows_reserving {s : Session PendingSerial SerialEvent} {pending : PendingSerial}
    (i : Nat) (h : s.tokens[i]? = some pending)
    (single : ((s.step (reserving pending)).drafts pending.stamp.attempt).length ≤ 1) :
    tickets.protocol.Allows s (reserving pending) :=
  .write _ (.inl ⟨tickets, live, ⟨rfl, rfl⟩, pending, List.mem_of_getElem? h, rfl⟩) single

theorem allows_clearing {s : Session PendingSerial SerialEvent} {id : UInt64}
    (single : ((s.step (clearing id)).drafts id).length ≤ 1) :
    tickets.protocol.Allows s (clearing id) :=
  .write _ (.inr rfl) single

/-- Two numbers, one after the other. -/
def twoNumbers : List (Action PendingSerial SerialEvent) :=
  [.begin, reading 1, reserving (token 1 false 1), .commit 1,
    .begin, reading 2, reserving (token 2 true 2), .commit 2]

theorem permits_twoNumbers : tickets.protocol.Permits fresh twoNumbers :=
  ⟨.begin, allows_reading _ _, allows_reserving 0 rfl (by decide), .commit _,
    .begin, allows_reading _ _, allows_reserving 1 rfl (by decide), .commit _, trivial⟩

theorem gapless_twoNumbers :
    (fresh.run twoNumbers).committed = [.number 1 false, .number 2 true] ∧
      tickets.Gapless (fresh.run twoNumbers).log ∧
      (fresh.run twoNumbers).table.document? tickets.key = ShardGroup.counted "ticket" 2 := by
  have hfresh : tickets.protocol.Starts fresh := .of_empty _ rfl
  have hreaches : tickets.protocol.Reaches fresh (fresh.run twoNumbers) :=
    .run .start permits_twoNumbers (by decide)
  exact ⟨rfl, (gapless_iff hfresh hreaches).1.mpr (by decide)⟩

/-- An attempt reads that there is no document; a number is reserved by another
one; the first attempt reads again, and finds the document; the document is
removed; and then the first attempt commits. -/
def overtaken : List (Action PendingSerial SerialEvent) :=
  [.begin, reading 1, .begin, reading 2, reserving (token 2 false 1), .commit 2, reading 1,
    .begin, clearing 3, .commit 3, reserving (token 1 true 2), .commit 1,
    .begin, reading 4, reserving (token 4 true 2), .commit 4]

theorem permits_overtaken : tickets.protocol.Permits fresh overtaken :=
  ⟨.begin, allows_reading _ _, .begin, allows_reading _ _,
    allows_reserving 1 rfl (by decide), .commit _, allows_reading _ _,
    .begin, allows_clearing (by decide), .commit _,
    allows_reserving 2 rfl (by decide), .commit _,
    .begin, allows_reading _ _, allows_reserving 3 rfl (by decide), .commit _, trivial⟩

/-- The number 2 is reserved twice, and the number 1 not again after the document
was removed. -/
theorem not_gapless_overtaken :
    tickets.protocol.Starts fresh ∧ tickets.protocol.Reaches fresh (fresh.run overtaken) ∧
      (fresh.run overtaken).committed =
        [.number 1 false, .cleared, .number 2 true, .number 2 true] ∧
      ¬ tickets.Gapless (fresh.run overtaken).log := by
  have hfresh : tickets.protocol.Starts fresh := .of_empty _ rfl
  have hreaches : tickets.protocol.Reaches fresh (fresh.run overtaken) :=
    .run .start permits_overtaken (by decide)
  have hlost : tickets.Lost (fresh.run overtaken).log := by decide
  exact ⟨hfresh, hreaches, rfl, (course_of_reaches hfresh hreaches).broken hlost⟩

end Serial

end Shardwise
