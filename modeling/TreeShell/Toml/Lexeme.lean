import TreeShell.Text.Percent
import TreeShell.Toml.Value

/-!
# Blanks, Comments and Strings

A string is basic or literal, and on one line or on several. Basic ones have escapes; literal ones
stand for themselves. A line end inside a string of several lines is one line feed however it is
written, and the quotes that close such a string may be preceded by two more that belong to it.

## Main definitions

* `Toml.lineEnd`: The rest of a line that holds nothing more.
* `Toml.gap`: Blanks, comments and line ends inside an array.
* `Toml.string`: A string.
-/

namespace TreeShell.Toml

/-- The blanks of a line. -/
def isBlank (c : Char) : Bool := c = ' ' || c = '\t'

/-- The characters that may stand in comments and strings as they are: no control but the tab. -/
def isPlain (c : Char) : Bool := c = '\t' || (0x20 ≤ c.toNat && c ≠ '\x7f')

/-- A line end: a line feed, or a carriage return and a line feed. -/
def newline : Parser Unit
  | '\n' :: rest => some ((), rest)
  | '\r' :: '\n' :: rest => some ((), rest)
  | _ => none

/-- The end of the document. -/
def finish : Parser Unit
  | [] => some ((), [])
  | _ => none

/-- A comment, if there is one. -/
def comment? : Parser Unit
  | '#' :: rest => some ((), rest.dropWhile isPlain)
  | s => some ((), s)

/-- The rest of a line that holds nothing more, and its end. -/
def lineEnd : Parser Unit := do
  let _ ← run isBlank
  comment?
  newline <|> finish

/-- Blanks, comments and line ends, at most `bound` lines of them. A comment takes its whole line. -/
def gapLines : Nat → Parser Unit
  | 0 => failure
  | bound + 1 => do
    let _ ← run isBlank
    match ← get with
    | '#' :: _ => do comment?; newline; gapLines bound
    | '\n' :: _ => do newline; gapLines bound
    | '\r' :: _ => do newline; gapLines bound
    | _ => return ()

/-- Blanks, comments and line ends inside an array. -/
def gap : Parser Unit := fun s => gapLines (s.length + 1) s

/-- The character whose code point has exactly `n` hexadecimal digits. -/
def codePoint (n : Nat) : Parser Char := do
  let ds ← exactly n fun c => (Text.hexValue? c).isSome
  let code := ds.foldl (fun code c => code * 16 + (Text.hexValue? c).getD 0) 0
  if h : code.isValidChar then return Char.ofNatAux code h else failure

/-- The character that an escape stands for, after its backslash. -/
def escaped : Parser Char
  | 'b' :: rest => some ('\x08', rest)
  | 'f' :: rest => some ('\x0c', rest)
  | 'n' :: rest => some ('\n', rest)
  | 'r' :: rest => some ('\r', rest)
  | 't' :: rest => some ('\t', rest)
  | '"' :: rest => some ('"', rest)
  | '\\' :: rest => some ('\\', rest)
  | 'u' :: rest => codePoint 4 rest
  | 'U' :: rest => codePoint 8 rest
  | _ => none

/-- The characters of a basic string up to its closing quote, at most `bound` of them. -/
def basicChars : Nat → Parser (List Char)
  | 0 => failure
  | bound + 1 => do
    match ← get with
    | '"' :: rest => set rest; return []
    | '\\' :: rest => do
      set rest
      let c ← escaped
      return c :: (← basicChars bound)
    | c :: rest => if isPlain c then do set rest; return c :: (← basicChars bound) else failure
    | [] => failure

/-- What quotes mean inside a string of several lines that is closed by three of them: fewer are
    text, and of more than three the first ones are, though never more than two. Gives the number
    of quotes that are text, and whether the string is closed. -/
def quotesAt (quote : Char) (s : List Char) : Nat × Bool :=
  let n := (s.takeWhile (· = quote)).length
  if n < 3 then (n, false) else (min (n - 3) 2, true)

/-- The place after blanks and line ends. A carriage return is part of a line end only before a line
    feed; any other one is where the passing stops. -/
def afterSpace : List Char → List Char
  | '\r' :: '\n' :: rest => afterSpace rest
  | '\n' :: rest => afterSpace rest
  | c :: rest => if isBlank c then afterSpace rest else c :: rest
  | [] => []

/-- A backslash at the end of a line joins it to the next text: it is passed over with all blanks
    and line ends that follow. Gives the place after them, if there is a line end. -/
def joined? (s : List Char) : Option (List Char) :=
  if (newline (s.dropWhile isBlank)).isSome then some (afterSpace s) else none

/-- The characters of a string of several lines up to its closing quotes, at most `bound` of them. -/
def longChars (quote : Char) (escapes : Bool) : Nat → Parser (List Char)
  | 0 => failure
  | bound + 1 => do
    let s ← get
    match s with
    | [] => failure
    | c :: rest =>
      if c = quote then
        match quotesAt quote s with
        | (n, true) => set (s.drop (n + 3)); return List.replicate n quote
        | (n, false) =>
          set (s.drop n)
          return List.replicate n quote ++ (← longChars quote escapes bound)
      else if c = '\\' ∧ escapes then
        match joined? rest with
        | some rest => set rest; longChars quote escapes bound
        | none => do
          set rest
          let c ← escaped
          return c :: (← longChars quote escapes bound)
      else if isPlain c then do set rest; return c :: (← longChars quote escapes bound)
      else do newline; return '\n' :: (← longChars quote escapes bound)

/-- The characters of a string of several lines after its opening quotes. A line end right after
    them is no part of it. -/
def long (quote : Char) (escapes : Bool) : Parser (List Char) := do
  newline <|> pure ()
  longChars quote escapes ((← get).length + 1)

/-- A string on one line. -/
def short : Parser (List Char)
  | '"' :: rest => basicChars (rest.length + 1) rest
  | '\'' :: rest => do
    let (cs, rest) ← run (fun c => isPlain c && c ≠ '\'') rest
    let (_, rest) ← word ['\''] rest
    return (cs, rest)
  | _ => none

/-- A string. -/
def string : Parser String := do
  let cs ← match ← get with
    | '"' :: '"' :: '"' :: rest => do set rest; long '"' true
    | '\'' :: '\'' :: '\'' :: rest => do set rest; long '\'' false
    | _ => short
  return String.ofList cs

end TreeShell.Toml
