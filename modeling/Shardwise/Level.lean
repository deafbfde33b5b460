import Shardwise.Error
import Shardwise.Instant.Text

/-!
# Rollup levels

A counter keeps one shard document per `Level`: the total, and with the date
hierarchy also the year, month, day and hour of the increment.  A dated level
cuts time into periods.  `Level.suffix?` writes the period of an instant by its
leading calendar fields, and `Level.start` is the instant that the period begins
at.  The two are computed apart: one goes into the keys of shards, the other
into the buckets of queries.
-/

namespace Shardwise

open Calendar Text

/-- The granularity of a counter shard, coarsest first. -/
inductive Level where
  | total
  | year
  | month
  | day
  | hour
deriving DecidableEq, Repr, Inhabited

namespace Level

/-- Every level, coarsest first. -/
def all : List Level := [.total, .year, .month, .day, .hour]

/-- The dated levels, finest first. -/
def datedFinestFirst : List Level := [.hour, .day, .month, .year]

/-- The name that documents and keys write. -/
def name : Level → String
  | .total => "Total"
  | .year => "Year"
  | .month => "Month"
  | .day => "Day"
  | .hour => "Hour"

/-- The level of a name. -/
def ofName (text : String) : Except Error Level :=
  match all.find? fun level => level.name == text with
  | some level => .ok level
  | none => .error (.typeMismatch "Level" "level name" text)

/-- Every level but the total has periods. -/
def isDated (level : Level) : Bool := level != .total

/-- The place of a level, coarsest first. -/
def depth : Level → Nat
  | .total => 0
  | .year => 1
  | .month => 2
  | .day => 3
  | .hour => 4

/-- The levels finer than a level. -/
def finer (level : Level) : List Level := all.filter fun other => level.depth < other.depth

/-! ## Periods -/

/-- The calendar fields of the period that an instant lies in, written one after
the other: `YYYY`, `YYYYMM`, `YYYYMMDD` or `YYYYMMDDHH`. -/
def suffix? (level : Level) (t : Instant) : Option String :=
  let date := t.date
  let year := padded 4 date.year
  let month := year ++ paddedNat 2 date.month
  let day := month ++ paddedNat 2 date.day
  match level with
  | .total => none
  | .year => some year
  | .month => some month
  | .day => some day
  | .hour => some (day ++ paddedNat 2 t.hour)

/-- The date and hour that the period of an instant begins with. -/
def opening? (level : Level) (t : Instant) : Option (Date × Nat) :=
  let date := t.date
  match level with
  | .total => none
  | .year => some (⟨date.year, 1, 1⟩, 0)
  | .month => some (⟨date.year, date.month, 1⟩, 0)
  | .day => some (date, 0)
  | .hour => some (date, t.hour)

/-- The instant at which the period of an instant begins. -/
def start (level : Level) (t : Instant) : Except Error Instant :=
  match level.opening? t with
  | none => .error (.invalidInput "Total level has no period; use count_all")
  | some (date, hours) =>
    match Instant.ofCivil? date hours 0 0 0 with
    | some begun => .ok begun
    | none => .error (.invalidInput s!"no {level.name} period for {t.display}")

end Level

end Shardwise
