/-!
# White space

The characters of the Unicode property White_Space.  Core's class covers six
ASCII characters of them only.
-/

namespace Shardwise.Text

/-- A character of the Unicode property White_Space. -/
def isBlank (c : Char) : Bool :=
  let code := c.toNat
  (9 ≤ code && code ≤ 13) || code == 0x20 || code == 0x85 || code == 0xA0 ||
    code == 0x1680 || (0x2000 ≤ code && code ≤ 0x200A) || code == 0x2028 ||
    code == 0x2029 || code == 0x202F || code == 0x205F || code == 0x3000

end Shardwise.Text
