import Exchange.Text.Layout
import Exchange.Text.Printable

/-!
Quoted text. Quotes and backslashes are escaped, the common control characters have letters of their own,
and any other character that does not print is written by its code point in lower-case hexadecimal.
-/

namespace Exchange.Text
set_option autoImplicit false

/-- A character by number: `\u`, then its hexadecimal digits in braces. -/
def numbered (c : Char) : List Char :=
  '\\' :: 'u' :: '\x7b' :: (Nat.toDigits 16 c.toNat ++ ['\x7d'])

/-- What stands for one character between quotes. -/
def escaped (c : Char) : List Char :=
  match c with
  | '"' => ['\\', '"']
  | '\\' => ['\\', '\\']
  | '\n' => ['\\', 'n']
  | '\r' => ['\\', 'r']
  | '\t' => ['\\', 't']
  | '\x00' => ['\\', '0']
  | c => if printable c then [c] else numbered c

def quoted (s : String) : String := String.ofList ('"' :: s.toList.flatMap escaped ++ ['"'])

def Shown.ofString (s : String) : Shown := .atom (quoted s)

end Exchange.Text
