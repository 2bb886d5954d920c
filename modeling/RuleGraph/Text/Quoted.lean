import RuleGraph.Text.Printable
/-!
# Quoted texts in messages

A quoted text stands between double quotes. Quotes, backslashes and the usual controls are escaped
by a backslash; every other character that does not show on its own is written by its code point.
-/
namespace RuleGraph.Text

def hexChars (n : Nat) : List Char :=
  Nat.toDigits 16 n

def quotedChar (c : Char) : List Char :=
  match c with
  | '"' => ['\\', '"']
  | '\\' => ['\\', '\\']
  | '\n' => ['\\', 'n']
  | '\t' => ['\\', 't']
  | '\r' => ['\\', 'r']
  | '\x00' => ['\\', '0']
  | _ => if isPrintable c then [c] else '\\' :: 'u' :: '\x7b' :: (hexChars c.toNat ++ ['\x7d'])

def quoted (s : String) : String :=
  String.ofList ('"' :: (s.toList.flatMap quotedChar ++ ['"']))

end RuleGraph.Text
