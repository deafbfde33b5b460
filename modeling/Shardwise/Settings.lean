import Shardwise.Error

/-!
# Settings

How often transactions are retried, how many shards handles use by default, and
how long a bulk deletion goes on.  `Settings.validated` refuses settings that
cannot work; `Settings.defaultText` is a settings file that says what holds
without one.
-/

namespace Shardwise

/-- How often and after which delays a conflicting transaction is tried again. -/
structure RetryPolicy where
  /-- How often a transaction is tried again at most. -/
  maxRetries : Nat := 8
  /-- The delay before the first retry, in milliseconds. -/
  baseDelay : Nat := 1
  /-- The longest delay, in milliseconds. -/
  maxDelay : Nat := 50
deriving DecidableEq, Repr, Inhabited

/-- The delay in milliseconds before the retry of a number, counted from 0.  It
doubles each time up to the longest one, and no more than 63 times. -/
def RetryPolicy.delay (policy : RetryPolicy) (retry : Nat) : Nat :=
  min (policy.baseDelay <<< min retry 63) policy.maxDelay

/-- What counters use by default. -/
structure CounterSettings where
  /-- Shards of a counter. -/
  numShards : Nat := 10
  /-- Keep shards for years, months, days and hours. -/
  dateHierarchy : Bool := false
deriving DecidableEq, Repr, Inhabited

/-- What coders use by default. -/
structure CoderSettings where
  /-- Shards of a coder. -/
  numShards : Nat := 100
deriving DecidableEq, Repr, Inhabited

/-- Limits of bulk operations. -/
structure AdminSettings where
  /-- Batches of a bulk deletion at most. -/
  maxDeleteRounds : Nat := 256
deriving DecidableEq, Repr, Inhabited

/-- All settings. -/
structure Settings where
  retry : RetryPolicy := {}
  counter : CounterSettings := {}
  coder : CoderSettings := {}
  admin : AdminSettings := {}
deriving DecidableEq, Repr, Inhabited

namespace Settings

/-- The first thing wrong with the settings, if any. -/
def problem? (settings : Settings) : Option String :=
  let retry := settings.retry
  if retry.maxDelay < retry.baseDelay then
    some (s!"retry.base_delay_ms ({retry.baseDelay}) exceeds " ++
      s!"retry.max_delay_ms ({retry.maxDelay})")
  else if settings.counter.numShards == 0 then some "counter.num_shards must be at least 1"
  else if settings.coder.numShards == 0 then some "coder.num_shards must be at least 1"
  else if settings.admin.maxDeleteRounds == 0 then
    some "admin.max_delete_rounds must be at least 1"
  else none

/-- The settings, if they can work. -/
def validated (settings : Settings) : Except Error Settings :=
  match settings.problem? with
  | some problem => .error (.invalidConfiguration problem)
  | none => .ok settings

/-- The name of the settings file. -/
def fileName : String := "tally.toml"

/-- A settings file that states the defaults. -/
def defaultText : String := "# Tally configuration

[retry]
# Optimistic conflicts are retried with capped exponential backoff
max_retries = 8
base_delay_ms = 1
max_delay_ms = 50

[counter]
num_shards = 10
# Maintain Year/Month/Day/Hour rollups alongside the total
date_hierarchy = false

[coder]
# Roughly 100x the expected concurrent callers per second
num_shards = 100

[admin]
max_delete_rounds = 256
"

end Settings

end Shardwise
