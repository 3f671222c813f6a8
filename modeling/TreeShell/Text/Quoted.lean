import TreeShell.Text.Hidden

/-!
# Quoted Text

A text shown inside a message stands in double quotes. Backslash and quote are doubled with a
backslash, the usual controls have their letters, and whatever would not show by itself is written
as its code point.

## Main definitions

* `Text.quoteChar`: One character inside quotes.
* `Text.quoted`: A text in quotes.
-/

namespace TreeShell.Text

/-- One character inside quotes. -/
def quoteChar (c : Char) : List Char :=
  match c with
  | '"' => ['\\', '"']
  | '\\' => ['\\', '\\']
  | '\x00' => ['\\', '0']
  | '\t' => ['\\', 't']
  | '\r' => ['\\', 'r']
  | '\n' => ['\\', 'n']
  | c =>
    if isHidden c || isJoining c then
      ['\\', 'u', '\x7b'] ++ Nat.toDigits 16 c.toNat ++ ['\x7d']
    else [c]

/-- A text in quotes. -/
def quoted (s : String) : String :=
  String.ofList ('"' :: s.toList.flatMap quoteChar ++ ['"'])

end TreeShell.Text
