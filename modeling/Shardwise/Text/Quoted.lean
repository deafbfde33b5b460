import Shardwise.Text.Hidden

/-!
# Quoted text

`quoted` writes a text between double quotes so that every character of it can
be seen: quotes and backslashes take a backslash, five controls have an escape of
a letter or digit, and other hidden characters are written by number.
-/

namespace Shardwise.Text

/-- A character inside quotes. -/
def quotedChar (c : Char) : List Char :=
  if c == '"' || c == '\\' then ['\\', c]
  else if c == '\n' then ['\\', 'n']
  else if c == '\t' then ['\\', 't']
  else if c == '\r' then ['\\', 'r']
  else if c == '\x00' then ['\\', '0']
  else if 0x20 ≤ c.toNat && c.toNat < 0x7F then [c]
  else if isHidden c then ['\\', 'u', '\x7b'] ++ Nat.toDigits 16 c.toNat ++ ['\x7d']
  else [c]

/-- A text between double quotes. -/
def quoted (text : String) : String :=
  String.ofList (['"'] ++ text.toList.flatMap quotedChar ++ ['"'])

end Shardwise.Text
