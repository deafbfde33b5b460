import Shardwise.Proofs.Shards.Pairs
import Shardwise.Proofs.Store.WordSums
import Shardwise.Proofs.Value.Floats

/-!
# Numbers and what is stored

A read phase computes a number from the count that a document holds, and the write phase
adds one to the document.  The read phase counts in unsigned words; the sum is that of
stored values, which may be floats or become floats.  A number is in step with its
document if both are one further.

* `Value.countLimit` says up to where a value can be counted on, and `Value.counts_iff`
  that this is exact.
* `Lane` is a document that numbers are taken from, of a serial or of a coder, and
  `Lane.Takes` is one number that is taken.
* `Lane.Takes.inStep_iff` is the result.
-/

namespace Shardwise

namespace Value

/-! ## Counting on -/

/-- Where one more is not a value of its own that reads as a count.  The float after 2^53
stands for another number, and a word after the largest signed one is stored as a float. -/
def countLimit : Value → Nat
  | .float _ => 2 ^ 53
  | _ => 2 ^ 63 - 1

variable {value sum : Value} {field : String} {count : UInt64}

theorem toUInt64_eq_ok :
    value.toUInt64 field = .ok count ↔ value.whole? = some (count.toNat : Int) := by
  unfold toUInt64
  constructor
  · intro h
    cases hwhole : value.whole? with
    | none =>
      rw [hwhole] at h
      cases h
    | some n =>
      rw [hwhole, Option.bind_some] at h
      split at h
      · rename_i word hword
        cases h
        rw [Word.toNat_uint64OfInt? hword]
      · cases h
  · intro h
    rw [h, Option.bind_some, ShardGroup.uint64OfInt?_natCast count.toNat_lt, UInt64.ofNat_toNat]

theorem isNumeric_of_toUInt64 (h : value.toUInt64 field = .ok count) : value.isNumeric = true := by
  cases value <;> first | rfl | cases h

/-- The count after `count`, read from a value. -/
theorem reads_succ_iff :
    (∃ next, value.toUInt64 field = .ok next ∧ next.toNat = count.toNat + 1) ↔
      count.toNat + 1 < 2 ^ 64 ∧ value.whole? = some ((count.toNat + 1 : Nat) : Int) := by
  constructor
  · rintro ⟨next, hnext, heq⟩
    have hlt := next.toNat_lt
    exact ⟨by omega, by rw [toUInt64_eq_ok.mp hnext, heq]⟩
  · rintro ⟨hroom, hwhole⟩
    have hnext : (UInt64.ofNat (count.toNat + 1)).toNat = count.toNat + 1 :=
      UInt64.toNat_ofNat_of_lt' hroom
    exact ⟨_, toUInt64_eq_ok.mpr (by rw [hwhole, hnext]), hnext⟩

theorem whole?_toValue (word : Word) : word.toValue.whole? = some word.toInt := by
  cases word <;> rfl

/-- A float that reads as a count can be counted on below 2^53, and stays 2^53 from
there. -/
theorem counts_float {x : Float} (hcount : toUInt64 (.float x) field = .ok count)
    (hsum : add (.float x) (.int 1) field = .ok sum) :
    ((∃ next, sum.toUInt64 field = .ok next ∧ next.toNat = count.toNat + 1) ↔
        count.toNat < 2 ^ 53) ∧
      (2 ^ 53 ≤ count.toNat → ∃ y, sum = .float y ∧
        ((∃ y, Value.float x = .float y) → sum.toUInt64 field = .ok count)) := by
  have hwhole : wholeOfFloat? x = some (count.toNat : Int) := toUInt64_eq_ok.mp hcount
  obtain ⟨hfinite, hle, -⟩ := Floats.unpack_of_wholeOfFloat? hwhole
  have hadd : add (.float x) (.int 1) field = .ok (.float (x + floatOfInt64 1)) := by
    have hnone : wordSum? (.float x) (.int 1) = none := rfl
    simp only [add, hnone, toFloat, hfinite, if_true]
    rfl
  cases hadd.symm.trans hsum
  rw [reads_succ_iff, toUInt64_eq_ok]
  show (_ ∧ wholeOfFloat? (x + floatOfInt64 1) = _ ↔ _) ∧
    (_ → ∃ y, _ = Value.float y ∧ (_ → wholeOfFloat? (x + floatOfInt64 1) = _))
  by_cases hlt : count.toNat < 2 ^ 53
  · rw [Floats.wholeOfFloat?_succ hlt hwhole]
    exact ⟨⟨fun _ => hlt, fun _ => ⟨by omega, rfl⟩⟩, fun hge => absurd hlt (by omega)⟩
  · have hlimit : count.toNat = 2 ^ 53 := by omega
    rw [hlimit] at hwhole ⊢
    rw [Floats.wholeOfFloat?_limit hwhole]
    refine ⟨⟨fun hsucc => ?_, fun h => absurd h (by omega)⟩, fun _ => ⟨_, rfl, fun _ => rfl⟩⟩
    obtain ⟨-, hnext⟩ := hsucc
    rw [Option.some.injEq] at hnext
    omega

/-- A word can be counted on as long as the sum is a signed word, and becomes a float from
there. -/
theorem counts_word (word : Word) (hcount : word.toValue.toUInt64 field = .ok count)
    (hsum : word.toValue.add (.int 1) field = .ok sum) :
    ((∃ next, sum.toUInt64 field = .ok next ∧ next.toNat = count.toNat + 1) ↔
        count.toNat < 2 ^ 63 - 1) ∧
      (2 ^ 63 - 1 ≤ count.toNat → ∃ y, sum = .float y ∧
        ((∃ x, word.toValue = .float x) → sum.toUInt64 field = .ok count)) := by
  have hword : word.toInt = count.toNat := by
    rw [toUInt64_eq_ok, whole?_toValue] at hcount
    exact Option.some.inj hcount
  have hone : (Word.signed 1).toInt = 1 := by decide
  have hadd := Word.add_toValue word (.signed 1) field
  rw [reads_succ_iff]
  cases hnext : word.sum? (.signed 1) with
  | some next =>
    rw [hnext, Option.map_some, Option.getD_some] at hadd
    cases hadd.symm.trans hsum
    obtain ⟨hexact, hkind⟩ := Word.sum?_eq_some hnext
    have hfits : next.toInt < 0x8000000000000000 := by
      cases next with
      | signed n => exact n.toInt_lt
      | unsigned n => cases hkind.trans (Bool.and_false _)
    rw [whole?_toValue, hexact, hword, hone]
    exact ⟨⟨fun _ => by omega, fun _ => ⟨by omega, rfl⟩⟩, fun hge => absurd hge (by omega)⟩
  | none =>
    rw [hnext, Option.map_none, Option.getD_none] at hadd
    cases hadd.symm.trans hsum
    have hlarge : 2 ^ 63 - 1 ≤ count.toNat := by
      by_contra hlt
      obtain ⟨-, hlost⟩ := (Word.sum?_eq_none_iff (by omega) (by omega)).mp hnext
      omega
    refine ⟨⟨fun hsucc => ?_, fun h => absurd h (by omega)⟩, fun _ => ⟨_, rfl, fun hfloat => ?_⟩⟩
    · obtain ⟨-, hwhole⟩ := hsucc
      obtain ⟨-, hle, -⟩ := Floats.unpack_of_wholeOfFloat? hwhole
      omega
    · obtain ⟨x, hx⟩ := hfloat
      cases word <;> cases hx

/-- One more than a value that reads as a count. -/
theorem counts_iff (hcount : value.toUInt64 field = .ok count)
    (hsum : value.add (.int 1) field = .ok sum) :
    ((∃ next, sum.toUInt64 field = .ok next ∧ next.toNat = count.toNat + 1) ↔
        count.toNat < value.countLimit) ∧
      (value.countLimit ≤ count.toNat → ∃ y, sum = .float y ∧
        ((∃ x, value = .float x) → sum.toUInt64 field = .ok count)) := by
  cases value with
  | int n => exact counts_word (.signed n) hcount hsum
  | uint n => exact counts_word (.unsigned n) hcount hsum
  | float x => exact counts_float hcount hsum
  | null | bool | text | time => cases hcount

end Value

theorem ShardGroup.toNat_countAfter {count : UInt64} (hroom : count.toNat + 1 < 2 ^ 64) :
    (countAfter count).toNat = count.toNat + 1 := by
  have hafter := countAfter_ofNat hroom
  rw [UInt64.ofNat_toNat] at hafter
  rw [hafter, UInt64.toNat_ofNat_of_lt' hroom]

/-- A shard that holds a value is counted up by one. -/
theorem ShardGroup.counted_of_write {table left : Table} {key : DocKey} {owner : String}
    {value : Value} {next : UInt64}
    (hheld : Documents.field table.document? key valueField = some value)
    (hnext : nextCount (table.document? key) = .ok next)
    (happlied : Database.applyWrite (table.document? key)
      (shardWrite (table.document? key).isSome { owner, value := .int 1 }) =
        .ok (left.document? key)) :
    ∃ count sum, value.toUInt64 valueField = .ok count ∧ next = countAfter count ∧
      value.add (.int 1) valueField = .ok sum ∧
      Documents.field left.document? key valueField = some sum := by
  cases hdocument : table.document? key with
  | none =>
    rw [Documents.field, hdocument] at hheld
    simp [Document.get?] at hheld
  | some document =>
    rw [hdocument] at hnext happlied
    have hwrite : Documents.write table.document? key (.increment valueField (.int 1)) =
        .ok (Function.update table.document? key (left.document? key)) := by
      rw [Documents.write_eq, hdocument]
      exact congrArg (Except.map (Function.update table.document? key)) happlied
    have hvalue : document.get? valueField = some value := by
      rwa [Documents.field, hdocument] at hheld
    obtain ⟨stored, hstored, hrest⟩ := parts_of_bind hnext
    rw [Document.field, hvalue] at hstored
    cases hstored
    obtain ⟨count, hcount, hafter⟩ := parts_of_bind hrest
    cases hafter
    obtain ⟨sum, hadd, hsum⟩ := Documents.field_increment hwrite
    rw [Documents.field_update] at hsum
    rw [hheld, Value.incremented, Option.filter, if_pos (Value.isNumeric_of_toUInt64 hcount)]
      at hadd
    exact ⟨count, sum, hcount, rfl, hadd, hsum⟩

/-! ## Lanes -/

/-- A document that numbers are taken from: that of a serial, or that of a shard of a
coder. -/
inductive Lane where
  | serial (source : Serial)
  | coder (source : Coder) (index : Nat)

namespace Lane

/-- The key of the document. -/
def key : Lane → DocKey
  | .serial source => source.key
  | .coder source index => source.group.plainKey index

/-- The number of the reservation `count` of the document. -/
def number : Lane → Nat → Nat
  | .serial _, count => count
  | .coder source index, count => count * source.group.numShards + index

/-- The value that the document holds. -/
def held? (lane : Lane) (table : Table) : Option Value :=
  Documents.field table.document? lane.key valueField

/-- A number is taken: a read phase, the write phase with its token, and the commit of
their attempt, while nobody else changes the table.  The number of a code counts like any
other. -/
inductive Takes : Lane → Table → UInt64 → Table → Prop
  | serial {source handle : Serial} {token : PendingSerial} {number : UInt64} {table left : Table}
      (h : source.Numbers table [handle] [token] [token] [number] left) :
      Takes (.serial source) table number left
  | coder {source handle : Coder} {token : Coder.Token} {reservation : Reservation}
      {table left : Table}
      (h : source.Reservations table [handle] [token] [token] [reservation] left)
      (hshards : handle.group.numShards = source.group.numShards) :
      Takes (.coder source reservation.index) table reservation.number left

variable {lane : Lane} {table left : Table} {number : UInt64}

/-- The number follows the document, and the commit counts the document up by one. -/
theorem Takes.follows (h : lane.Takes table number left) {value : Value}
    (hheld : lane.held? table = some value) :
    ∃ count sum, value.toUInt64 valueField = .ok count ∧
      number.toNat = lane.number (ShardGroup.countAfter count).toNat ∧
      value.add (.int 1) valueField = .ok sum ∧ lane.held? left = some sum := by
  cases h with
  | @serial source handle token _ _ _ h =>
    obtain ⟨hnumber, happlied⟩ := h.applied
    obtain ⟨hpresent, hnext⟩ := h.follows token (List.mem_singleton_self token)
    cases hnumber
    simp only [List.map_singleton, List.foldlM_cons, List.foldlM_nil, bind_pure, hpresent]
      at happlied
    obtain ⟨count, sum, hcount, hafter, hadd, hsum⟩ :=
      ShardGroup.counted_of_write hheld hnext happlied
    exact ⟨count, sum, hcount, congrArg UInt64.toNat hafter, hadd, hsum⟩
  | @coder source handle token _ _ _ h hshards =>
    obtain ⟨hreservation, happlied⟩ := h.applied
    obtain ⟨other, hother, hsame, -, hkey, hpresent, next, hnext, hpack⟩ :=
      h.tokens_follow token (List.mem_singleton_self token)
    cases hreservation
    have hwrites : writesOn (source.group.plainKey token.number.index)
        ([token].flatMap fun token => source.numberWrites token.number) =
        [ShardGroup.shardWrite (table.document? (source.group.plainKey token.number.index)).isSome
          { owner := source.group.owner, value := .int 1 }] := by
      rw [List.flatMap_singleton, Coder.numberWrites, hkey, hsame.plainKey_eq, writesOn_cons,
        if_pos rfl, writesOn_nil, hpresent]
    have hone := happlied (source.group.plainKey token.number.index)
    rw [hwrites] at hone
    simp only [List.foldlM_cons, List.foldlM_nil, bind_pure] at hone
    have hkeep : (Lane.coder source token.reservation.index).key =
        source.group.plainKey token.number.index := by
      rw [Lane.key, Coder.Token.index_reservation]
    rw [held?, hkeep] at hheld ⊢
    obtain ⟨count, sum, hcount, hafter, hadd, hsum⟩ :=
      ShardGroup.counted_of_write hheld hnext hone
    refine ⟨count, sum, hcount, ?_, hadd, hsum⟩
    rw [Coder.Token.number_reservation, Coder.pack_eq_ok hpack, hafter,
      List.mem_singleton.mp hother, hshards, Lane.number, Coder.Token.index_reservation]

/-- A number that is taken from a document that reads as a count.  The number is the next
one and the document reads as that count afterwards, exactly below the limit of the stored
value.  From the limit on the document holds a float; if it held a float before, it reads
as before, so that the next number is the same again. -/
theorem Takes.inStep_iff (h : lane.Takes table number left) {value : Value} {count : UInt64}
    (hheld : lane.held? table = some value) (hcount : value.toUInt64 valueField = .ok count) :
    (number.toNat = lane.number (count.toNat + 1) ∧
        (∃ later next, lane.held? left = some later ∧ later.toUInt64 valueField = .ok next ∧
          next.toNat = count.toNat + 1) ↔
      count.toNat < value.countLimit) ∧
    (value.countLimit ≤ count.toNat → ∃ x, lane.held? left = some (.float x) ∧
      ((∃ y, value = .float y) → Value.toUInt64 (.float x) valueField = .ok count)) := by
  obtain ⟨read, sum, hread, hnumber, hadd, hleft⟩ := h.follows hheld
  cases hread.symm.trans hcount
  obtain ⟨hiff, hlimit⟩ := Value.counts_iff hcount hadd
  constructor
  · constructor
    · rintro ⟨-, later, next, hlater, hnext, heq⟩
      cases hlater.symm.trans hleft
      exact hiff.mp ⟨next, hnext, heq⟩
    · intro hlt
      obtain ⟨next, hnext, heq⟩ := hiff.mpr hlt
      have hafter : (ShardGroup.countAfter count).toNat = count.toNat + 1 := by
        have hroom := next.toNat_lt
        exact ShardGroup.toNat_countAfter (by omega)
      exact ⟨by rw [hnumber, hafter], sum, next, hleft, hnext, heq⟩
  · intro hge
    obtain ⟨x, rfl, hsame⟩ := hlimit hge
    exact ⟨x, hleft, hsame⟩

/-! ## Two lanes -/

/-- What surrounds a table, where some shard is chosen next. -/
def around (table : Table) (index : Nat) : Env Unit :=
  { store := { database := { table } }, picks := [index], user := () }

/-- A table with one document. -/
def holding (lane : Lane) (owner : String) (value : Value) : Table :=
  ({} : Table).put lane.key ({ owner, value } : ShardRecord).document 1

/-- A coder of vouchers with three shards. -/
def vouchers : Coder := { group := ⟨"codes", "voucher", 3⟩ }

/-- The float 7. -/
def seven : Float := (7 : UInt64).toFloat

/-- The token of the eighth voucher of the second shard. -/
def voucher : Coder.Token :=
  .inl ⟨⟨1, "codes", "voucher"⟩, 1, vouchers.group.plainKey 1, true, 25⟩

/-- A serial of receipts. -/
def receipts : Serial := { collection := "serials", owner := "receipt" }

/-- The token of the receipt after 2^53. -/
def receipt : PendingSerial := ⟨⟨1, "serials", "receipt"⟩, true, 9007199254740993⟩

/-- An attempt that reads a document at its version, and counts it up. -/
def drawing (lane : Lane) (version : UInt64) (written : Bool) : Attempt where
  id := 1
  reads := (∅ : Std.ExtTreeMap DocKey UInt64).insertIfNew lane.key version
  writes := if written then [(lane.key, .increment valueField (.int 1))] else []

theorem takes_voucher : ∃ left, Takes (.coder vouchers 1)
    (holding (.coder vouchers 1) "voucher" (.float seven)) 25 left := by
  have hread : vouchers.SameNames vouchers ∧
      vouchers.protocol.Reads (Sum.inl <$> vouchers.numberRead Session.live) :=
    ⟨⟨rfl, rfl⟩, vouchers, Session.live, rfl, .inl rfl⟩
  have hwrite : ∃ handle, vouchers.SameNames handle ∧ handle.protocol.Writes [voucher]
      ((Reservation.mk voucher.number.index · none) <$>
        vouchers.numberWrite Session.live voucher.number) :=
    ⟨vouchers, ⟨rfl, rfl⟩, vouchers, Session.live, rfl, .inl ⟨_, .head _, rfl⟩⟩
  have hreservations : ∃ left, vouchers.Reservations
      (holding (.coder vouchers 1) "voucher" (.float seven)) [vouchers] [voucher] [voucher]
      [⟨1, 25, none⟩] left :=
    ⟨_, .refl _, { id := 1 }, drawing (.coder vouchers 1) 1 false,
      drawing (.coder vouchers 1) 1 true, rfl,
      .cons (around _ 1) hread rfl rfl (.nil _), .cons (around _ 1) hwrite rfl rfl (.nil _),
      (around _ 1).store, _, _, _, rfl, rfl, rfl⟩
  obtain ⟨left, h⟩ := hreservations
  exact ⟨left, .coder h rfl⟩

/-- The eighth voucher of the second shard, after a float. -/
theorem inStep_voucher : ∃ left, Takes (.coder vouchers 1)
      (holding (.coder vouchers 1) "voucher" (.float seven)) 25 left ∧
    ∃ later next, held? (.coder vouchers 1) left = some later ∧
      later.toUInt64 valueField = .ok next ∧ next.toNat = 8 := by
  obtain ⟨left, h⟩ := takes_voucher
  have hheld : held? (.coder vouchers 1) (holding (.coder vouchers 1) "voucher" (.float seven)) =
    some (.float seven) := rfl
  have hcount : (Value.float seven).toUInt64 valueField = .ok 7 := rfl
  obtain ⟨hinStep, -⟩ := Takes.inStep_iff h hheld hcount
  obtain ⟨-, hlater⟩ := hinStep.mpr (by decide)
  exact ⟨left, h, hlater⟩

/-- The receipt after a document that holds the float 2^53. -/
theorem takes_receipt {table : Table} {version : UInt64}
    (hread : (receipts.numberRead Session.live).runIn { id := 1 } (around table 0) =
      (.ok receipt, drawing (.serial receipts) version false, around table 0))
    {after : Store} {committed : Attempt} {number : UInt64}
    (hcommit : (around table 0).store.commit (drawing (.serial receipts) version true) =
      (.ok number, committed, after)) :
    Takes (.serial receipts) table receipt.number after.table := by
  have hsame : receipts.Same receipts := ⟨rfl, rfl⟩
  have hnumbers : receipts.Numbers table [receipts] [receipt] [receipt] [receipt.number]
      after.table :=
    ⟨.refl _, { id := 1 }, drawing (.serial receipts) version false,
      drawing (.serial receipts) version true, rfl,
      .cons (around table 0) ⟨hsame, Session.live, rfl⟩ rfl hread (.nil _),
      .cons (around table 0) ⟨receipts, Session.live, hsame, rfl⟩ rfl rfl (.nil _),
      (around table 0).store, number, committed, after, rfl, hcommit, rfl⟩
  exact .serial hnumbers

/-- The document stays as it is, so that the next receipt has the same number. -/
theorem not_inStep_receipt : ∃ left after,
    Takes (.serial receipts) (holding (.serial receipts) "receipt" (.float Value.wholeLimit))
      9007199254740993 left ∧
    Takes (.serial receipts) left 9007199254740993 after ∧
    held? (.serial receipts) (holding (.serial receipts) "receipt" (.float Value.wholeLimit)) =
      some (.float Value.wholeLimit) ∧
    (Value.float Value.wholeLimit).toUInt64 valueField = .ok 9007199254740992 ∧
    ¬ ∃ later next, held? (.serial receipts) left = some later ∧
      later.toUInt64 valueField = .ok next ∧ next.toNat = 9007199254740992 + 1 := by
  obtain ⟨number, committed, store, hfirst⟩ : ∃ number committed store,
      (around (holding (.serial receipts) "receipt" (.float Value.wholeLimit)) 0).store.commit
        (drawing (.serial receipts) 1 true) = (.ok number, committed, store) := ⟨_, _, _, rfl⟩
  obtain ⟨second, done, last, hsecond⟩ : ∃ second done last,
      (around store.table 0).store.commit (drawing (.serial receipts) 1 true) =
        (.ok second, done, last) := by
    cases hfirst
    exact ⟨_, _, _, rfl⟩
  refine ⟨store.table, last.table, takes_receipt rfl hfirst, takes_receipt ?_ hsecond, rfl, rfl, ?_⟩
  · cases hfirst
    rfl
  · rintro ⟨later, next, hlater, hnext, heq⟩
    have hheld : held? (.serial receipts) store.table =
        some (.float (Value.wholeLimit + Value.floatOfInt64 1)) := by
      cases hfirst
      rfl
    cases hheld.symm.trans hlater
    have hsame : Value.toUInt64 (.float (Value.wholeLimit + Value.floatOfInt64 1)) valueField =
      .ok 9007199254740992 := rfl
    cases hsame.symm.trans hnext
    exact absurd heq (by decide)

end Lane

end Shardwise
