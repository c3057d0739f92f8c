import PartScript.Text.Lines

/-!
Files as the command line sees them: texts under paths. A path is known by its plain form, without
empty parts and without parts that lead nowhere.
-/

namespace PartScript.CommandLine

/-- The parts of a path that lead somewhere. -/
def pathParts (path : String) : List String :=
  (path.splitOn "/").filter fun part => !(part.isEmpty || part == ".")

/-- How a path from the root starts: with one slash, or with exactly two. -/
def pathRoot (path : String) : String :=
  if path.startsWith "//" && !path.startsWith "///" then "//"
  else if path.startsWith "/" then "/"
  else ""

/-- The plain form of a path. -/
def plainPath (path : String) : String :=
  let plain := pathRoot path ++ String.intercalate "/" (pathParts path)
  if plain.isEmpty then "." else plain

/-- What stands under a path. -/
inductive Entry where
  | text (content : String)
  | directory

/-- The entries that are there, each under its path. -/
structure Files where
  entries : List (String × Entry)

namespace Files

/-- Files with given texts. -/
def ofTexts (texts : List (String × String)) : Files :=
  ⟨texts.map fun (path, content) => (plainPath path, .text content)⟩

/-- Is it a directory whatever files there are? So is every path that only leads up. -/
def leadsUp (path : String) : Bool := (pathParts path).all (· == "..")

/-- What stands under a path. Each part of a path to a file is a directory. -/
def find? (files : Files) (path : String) : Option Entry :=
  let plain := plainPath path
  match files.entries.lookup plain with
  | some entry => some entry
  | none =>
    if leadsUp path || files.entries.any fun (p, _) => p.startsWith (plain ++ "/") then
      some .directory
    else none

end Files

/-- The text of a file as it is read: every line ends with a line feed. -/
def readText (content : String) : String := String.ofList (Text.unifyNewlines content.toList)

end PartScript.CommandLine
