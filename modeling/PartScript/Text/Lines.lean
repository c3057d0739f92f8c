/-!
Lines of a text. A diagnostic quotes the line it is about, and a file is read with every line
ending written as a single line feed. The characters that end a line here are more than the line
feed that the line counter of a position looks at.
-/

namespace PartScript.Text

/-- The characters that end a line when a text is cut into lines. -/
def isLineBreak (c : Char) : Bool :=
  c == '\n' || c == '\r' || c == '\x0b' || c == '\x0c' || c == '\x1c' || c == '\x1d' ||
    c == '\x1e' || c == '\u0085' || c == '\u2028' || c == '\u2029'

/-- Put a character in front of the first line. -/
def consLine (c : Char) : List (List Char) → List (List Char)
  | [] => [[c]]
  | line :: rest => (c :: line) :: rest

/-- The lines of a text without their endings. A carriage return and a line feed after it end one
line together, and a text that ends with a line ending has no empty line after it. -/
def lines : List Char → List (List Char)
  | [] => []
  | [c] => if isLineBreak c then [[]] else [[c]]
  | c :: d :: rest =>
    if c == '\r' && d == '\n' then [] :: lines rest
    else if isLineBreak c then [] :: lines (d :: rest)
    else consLine c (lines (d :: rest))

/-- The lines of a string. -/
def linesOf (s : String) : List String :=
  (lines s.toList).map String.ofList

/-- The line with a given number, the first line having number one. -/
def lineAt (lines : List String) (number : Nat) : Option String :=
  if number = 0 then none else lines[number - 1]?

/-- Write every line ending made of a carriage return as one line feed. -/
def unifyNewlines : List Char → List Char
  | [] => []
  | [c] => if c == '\r' then ['\n'] else [c]
  | c :: d :: rest =>
    if c == '\r' && d == '\n' then '\n' :: unifyNewlines rest
    else if c == '\r' then '\n' :: unifyNewlines (d :: rest)
    else c :: unifyNewlines (d :: rest)

@[simp] theorem lines_nil : lines [] = [] := rfl

@[simp] theorem unifyNewlines_nil : unifyNewlines [] = [] := rfl

/-- Line numbers start at one. -/
@[simp] theorem lineAt_zero (ls : List String) : lineAt ls 0 = none := rfl

@[simp] theorem lineAt_succ (ls : List String) (n : Nat) : lineAt ls (n + 1) = ls[n]? := by
  simp [lineAt]

end PartScript.Text
