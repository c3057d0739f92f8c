import PartScript.Plain

/-!
Documents: plain data written as JSON text. The compact form, with the entries of every record in
the order of their keys, is what command identifiers are derived from; the indented form is the
report of the command line. Both are ASCII.
-/

namespace PartScript.Document

open Text

/-- A code unit as an escape. -/
def unitEscape (n : Nat) : List Char := '\\' :: 'u' :: hex 4 n

/-- One character of a text between double quotes. Characters above the basic plane are written as
two code units. -/
def escapeChar (c : Char) : List Char :=
  if c == '"' then ['\\', '"']
  else if c == '\\' then ['\\', '\\']
  else if c == '\n' then ['\\', 'n']
  else if c == '\r' then ['\\', 'r']
  else if c == '\t' then ['\\', 't']
  else if c == '\x0c' then ['\\', 'f']
  else if c == '\x08' then ['\\', 'b']
  else
    let n := c.toNat
    if 0x20 ≤ n ∧ n ≤ 0x7e then [c]
    else if n ≤ 0xffff then unitEscape n
    else unitEscape (0xd800 + (n - 0x10000) / 0x400) ++ unitEscape (0xdc00 + (n - 0x10000) % 0x400)

/-- A text between double quotes. -/
def quote (s : String) : String :=
  String.ofList ('"' :: (s.toList.flatMap escapeChar ++ ['"']))

/-- A number: whole numbers by their digits, floats by their shortest text. -/
def number : Number → String
  | .int n => toString n
  | .float x => Layout.document.write x

/-- The text of a key before quoting. -/
def keyText : Key → String
  | .null => "null"
  | .bool b => if b then "true" else "false"
  | .number n => number n
  | .text s => s

/-- Order two written entries by their keys. -/
def keyLe (a b : String × String) : Bool := decide (a.1 ≤ b.1)

mutual

/-- The compact form, entries in the order of their keys. -/
def compact : Plain → String
  | .null => "null"
  | .bool b => if b then "true" else "false"
  | .number n => number n
  | .text s => quote s
  | .list items => "[" ++ String.intercalate "," (compactItems items) ++ "]"
  | .tuple items => "[" ++ String.intercalate "," (compactItems items) ++ "]"
  | .record entries =>
    let sorted := (compactEntries entries).mergeSort keyLe
    "\x7b" ++ String.intercalate "," (sorted.map fun (k, v) => quote k ++ ":" ++ v) ++ "\x7d"
  | .opaqueItem => "null"

/-- The items of a list in compact form. -/
def compactItems : List Plain → List String
  | [] => []
  | item :: rest => compact item :: compactItems rest

/-- The entries of a record as pairs of a key and the compact form of its item. -/
def compactEntries : List (Key × Plain) → List (String × String)
  | [] => []
  | (key, item) :: rest => (keyText key, compact item) :: compactEntries rest

end

/-- The blanks at the start of a line at a level. -/
def margin (level : Nat) : String := String.ofList (List.replicate (2 * level) ' ')

/-- Parts on lines of their own, one level further in, between brackets. -/
def block (level : Nat) (opening closing : String) (parts : List String) : String :=
  if parts.isEmpty then opening ++ closing
  else
    let lineStart := "\n" ++ margin (level + 1)
    opening ++ lineStart ++ String.intercalate ("," ++ lineStart) parts ++ "\n" ++ margin level ++
      closing

mutual

/-- The indented form at a level, entries in their own order. -/
def indented (level : Nat) : Plain → String
  | .null => "null"
  | .bool b => if b then "true" else "false"
  | .number n => number n
  | .text s => quote s
  | .list items => block level "[" "]" (indentedItems (level + 1) items)
  | .tuple items => block level "[" "]" (indentedItems (level + 1) items)
  | .record entries => block level "\x7b" "\x7d" (indentedEntries (level + 1) entries)
  | .opaqueItem => "null"

/-- The items of a list in indented form. -/
def indentedItems (level : Nat) : List Plain → List String
  | [] => []
  | item :: rest => indented level item :: indentedItems level rest

/-- The entries of a record in indented form. -/
def indentedEntries (level : Nat) : List (Key × Plain) → List String
  | [] => []
  | (key, item) :: rest =>
    (quote (keyText key) ++ ": " ++ indented level item) :: indentedEntries level rest

end

end PartScript.Document
