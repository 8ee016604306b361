import RSource.Text.Hex
import RSource.Unicode.Extender
import RSource.Unicode.Printable

/-! The quoted form of a text: between double quotes, with every character that cannot be shown
written as an escape.  A quote and a backslash get a backslash; line ends, tabs and U+0000 get their
letters; other characters that cannot be shown alone are written by their hexadecimal code point. -/

namespace RSource.Text

/-- One character of the quoted form. -/
def quoteChar (c : Char) : List Char :=
  match c with
  | '"' => ['\\', '"']
  | '\\' => ['\\', '\\']
  | '\n' => ['\\', 'n']
  | '\r' => ['\\', 'r']
  | '\t' => ['\\', 't']
  | '\x00' => ['\\', '0']
  | c =>
    if Unicode.isPrintable c && !Unicode.isExtender c then [c]
    else ['\\', 'u', '\x7b'] ++ hexDigits c.toNat ++ ['\x7d']

/-- The text between double quotes, with escapes. -/
def quoted (s : String) : String :=
  String.ofList ('"' :: s.toList.flatMap quoteChar ++ ['"'])

end RSource.Text
