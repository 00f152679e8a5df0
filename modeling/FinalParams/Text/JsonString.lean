import FinalParams.Text.Quoted

/-! Text as a JSON string of plain ASCII.

Everything outside the range from space to tilde is escaped, so that a line of output holds no
control character and can be cut at line ends.  A character beyond the first plane takes two
escapes, one for each half of its surrogate pair. -/

namespace FinalParams
namespace Text

def unitEscape (n : Nat) : List Char := '\\' :: 'u' :: hexDigits 4 n

def jsonChar (c : Char) : List Char :=
  if c == '"' then ['\\', '"']
  else if c == '\\' then ['\\', '\\']
  else if c == '\n' then ['\\', 'n']
  else if c == '\r' then ['\\', 'r']
  else if c == '\t' then ['\\', 't']
  else if c == '\x08' then ['\\', 'b']
  else if c == '\x0c' then ['\\', 'f']
  else if 0x20 ≤ c.toNat && c.toNat ≤ 0x7e then [c]
  else if c.toNat < 0x10000 then unitEscape c.toNat
  else
    let n := c.toNat - 0x10000
    unitEscape (0xd800 + n / 0x400) ++ unitEscape (0xdc00 + n % 0x400)

def jsonString (s : String) : String :=
  String.ofList ('"' :: s.toList.flatMap jsonChar ++ ['"'])

example : jsonString "a\"\x7f\u00e9" = "\"a\\\"\\u007f\\u00e9\"" := by decide

end Text
end FinalParams
