import AspectWeaving.Hexadecimal
import AspectWeaving.Printability

/-!
Quoted text: double quotes around a text, with escapes for the quote, the backslash, the usual control
characters and every unprintable character (`quoted`).
-/
namespace AspectWeaving

/-- How a character is written between double quotes. -/
def quotedChar (c : Char) : String :=
  if c = '\x00' then "\\0"
  else if c = '\t' then "\\t"
  else if c = '\r' then "\\r"
  else if c = '\n' then "\\n"
  else if c = '"' then "\\\""
  else if c = '\\' then "\\\\"
  else if isUnprintable c then "\\u\x7b" ++ hex c.toNat ++ "\x7d"
  else c.toString

/-- A text between double quotes. -/
def quoted (text : String) : String :=
  "\"" ++ String.join (text.toList.map quotedChar) ++ "\""

end AspectWeaving
