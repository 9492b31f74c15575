import SharedCache.Text.Invisible

/-!
# Quoted text

Text between double quotes.  The quote, the backslash and the four common controls have short
escapes; every other character that would not be visible is written by number, in lower-case
hexadecimal digits between braces.
-/

namespace SharedCache.Text

/-- A character written by its number. -/
def byNumber (c : Char) : List Char :=
  '\\' :: 'u' :: '{' :: (Nat.toDigits 16 c.toNat ++ ['}'])

/-- One character of a quoted text. -/
def escapeChar (c : Char) : List Char :=
  if c = '\x00' then ['\\', '0']
  else if c = '\t' then ['\\', 't']
  else if c = '\r' then ['\\', 'r']
  else if c = '\n' then ['\\', 'n']
  else if c = '"' then ['\\', '"']
  else if c = '\\' then ['\\', '\\']
  else if isInvisible c then byNumber c
  else [c]

/-- A text between double quotes. -/
def quoted (s : String) : String :=
  String.ofList ('"' :: (s.toList.flatMap escapeChar ++ ['"']))

end SharedCache.Text
