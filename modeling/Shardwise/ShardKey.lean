import Shardwise.Key
import Shardwise.Level

/-!
# Keys of shard documents

The name of a shard is made of the owner, the level and the period where there
are any, an underscore, and the index.  The same arguments always name the same
document.
-/

namespace Shardwise

/-- The key of one shard document. -/
def shardKey (collection owner : String) (level : Option Level) (suffix : Option String)
    (index : Nat) : DocKey :=
  ⟨collection, owner ++ (level.map Level.name).getD "" ++ suffix.getD "" ++ "_" ++ toString index⟩

/-- The key of the counter shard of a level at an instant.  The total has neither
level nor period in its name, so it keeps its place when the date hierarchy is
switched on later. -/
def counterShardKey (collection owner : String) (level : Level) (t : Instant) (index : Nat) :
    DocKey :=
  match level.suffix? t with
  | some suffix => shardKey collection owner (some level) (some suffix) index
  | none => shardKey collection owner none none index

end Shardwise
