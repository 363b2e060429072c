/-
  Quoted text — texts in double quotes, with escapes.

  * `jsonQuoted`: a string in JSON; only quotes, backslashes and control characters are
    escaped;
  * `quoted`: a text as it is quoted in error messages, where all that cannot be seen by
    itself is escaped by its code point.
-/
import Scriptling.Text.Marks
import Scriptling.Text.Unassigned

namespace Scriptling

/-! ## JSON -/

/-- A character in a JSON string. -/
def jsonChar (c : Char) : List Char :=
  if c = '"' then ['\\', '"']
  else if c = '\\' then ['\\', '\\']
  else if c = '\n' then ['\\', 'n']
  else if c = '\r' then ['\\', 'r']
  else if c = '\t' then ['\\', 't']
  else if c.toNat = 8 then ['\\', 'b']
  else if c.toNat = 12 then ['\\', 'f']
  else if c.toNat < 32 then
    let ds := Nat.toDigits 16 c.toNat
    '\\' :: 'u' :: (List.replicate (4 - ds.length) '0' ++ ds)
  else [c]

/-- A string in JSON. -/
def jsonQuoted (text : String) : String :=
  String.ofList ('"' :: text.toList.flatMap jsonChar ++ ['"'])

/-! ## Error messages -/

/-- Characters that leave no mark of their own: controls, formats, all separators but the
    space, private use, and the fillers of Hangul. -/
def invisibleRanges : CodeRanges :=
  [(0x00, 0x1f), (0x7f, 0xa0), (0xad, 0xad), (0x600, 0x605), (0x61c, 0x61c), (0x6dd, 0x6dd),
    (0x70f, 0x70f), (0x890, 0x891), (0x8e2, 0x8e2), (0x115f, 0x1160), (0x1680, 0x1680),
    (0x180e, 0x180e), (0x2000, 0x200f), (0x2028, 0x202f), (0x205f, 0x2064), (0x2066, 0x206f),
    (0x3000, 0x3000), (0x3164, 0x3164), (0xe000, 0xf8ff), (0xfeff, 0xfeff), (0xffa0, 0xffa0),
    (0xfff9, 0xfffb), (0x110bd, 0x110bd), (0x110cd, 0x110cd), (0x13430, 0x1343f),
    (0x1bca0, 0x1bca3), (0x1d173, 0x1d17a), (0xe0001, 0xe0001), (0xe0020, 0xe007f),
    (0xf0000, 0xffffd), (0x100000, 0x10fffd)]

/-- The character cannot be seen by itself. -/
def isInvisible (c : Char) : Bool :=
  invisibleRanges.contains c || isMark c || isUnassigned c

/-- A character in a quoted text. -/
def quotedChar (c : Char) : List Char :=
  if c = '"' then ['\\', '"']
  else if c = '\\' then ['\\', '\\']
  else if c = '\n' then ['\\', 'n']
  else if c = '\r' then ['\\', 'r']
  else if c = '\t' then ['\\', 't']
  else if c.toNat = 0 then ['\\', '0']
  else if isInvisible c then '\\' :: 'u' :: '{' :: Nat.toDigits 16 c.toNat ++ ['}']
  else [c]

/-- A text in double quotes. -/
def quoted (text : String) : String :=
  String.ofList ('"' :: text.toList.flatMap quotedChar ++ ['"'])

end Scriptling
