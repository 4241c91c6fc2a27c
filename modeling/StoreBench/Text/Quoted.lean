import StoreBench.Text.Printable
/-!
# Quoted text

A text inside a message stands between double quotes. Quotes and backslashes are backslashed, four
controls have letters of their own, and a character that would not show, or would merge with its
neighbour, is written as its code point in hexadecimal.
-/

namespace StoreBench.Text

/-- A code point as `\u` and its hexadecimal digits in braces. -/
def codePointEscape (c : Char) : List Char :=
  '\\' :: 'u' :: '\x7b' :: Nat.toDigits 16 c.toNat ++ ['\x7d']

/-- A character as it stands inside quotes. -/
def quoteChar (c : Char) : List Char :=
  match c with
  | '\x00' => ['\\', '0']
  | '\t' => ['\\', 't']
  | '\r' => ['\\', 'r']
  | '\n' => ['\\', 'n']
  | '\\' => ['\\', '\\']
  | '"' => ['\\', '"']
  | c => if extendsGrapheme c || !isPrintable c then codePointEscape c else [c]

/-- A text between double quotes. -/
def quote (s : String) : String :=
  String.ofList ('"' :: s.toList.flatMap quoteChar ++ ['"'])

end StoreBench.Text
