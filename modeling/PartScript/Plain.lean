import PartScript.Number.Basic
import PartScript.Text.Quoted

/-!
Plain data: what a value looks like from outside the language. Configuration entries, the values of
literals, documents and the displayed form of a value are plain data. A record keeps its entries in
the order of their first insertion.
-/

namespace PartScript

/-- A key of a record. -/
inductive Key where
  | null
  | bool (value : Bool)
  | number (value : Number)
  | text (value : String)
  deriving DecidableEq

/-- Data without any structure of the language in it. -/
inductive Plain where
  | null
  | bool (value : Bool)
  | number (value : Number)
  | text (value : String)
  | list (items : List Plain)
  | tuple (items : List Plain)
  | record (entries : List (Key × Plain))
  | opaqueItem

namespace Key

/-- A truth value counts as one or zero where numbers are compared. -/
def number? : Key → Option Number
  | .bool b => some (.int (if b then 1 else 0))
  | .number n => some n
  | _ => none

/-- The text of a key that is one. -/
def text? : Key → Option String
  | .text s => some s
  | _ => none

/-- Do two keys name the same entry? -/
def same (a b : Key) : Bool :=
  match a.number?, b.number? with
  | some x, some y => x.same y
  | none, none => a == b
  | _, _ => false

/-- The key as plain data. -/
def toPlain : Key → Plain
  | .null => .null
  | .bool b => .bool b
  | .number n => .number n
  | .text s => .text s

/-- A key as shown in messages. -/
def shown : Key → String
  | .null => "None"
  | .bool b => if b then "True" else "False"
  | .number n => n.text
  | .text s => Text.quoted s

end Key

/-- Put an entry into a list of entries: a key that is there keeps its place and takes the new
item. -/
def putEntry {α : Type} (key : Key) (item : α) : List (Key × α) → List (Key × α)
  | [] => [(key, item)]
  | (k, old) :: rest =>
    if k.same key then (k, item) :: rest else (k, old) :: putEntry key item rest

/-- The entries after putting in each of a list in turn. -/
def collectEntries {α : Type} (entries : List (Key × α)) : List (Key × α) :=
  entries.foldl (fun done (k, item) => putEntry k item done) []

/-- The item under a text key. -/
def itemAt? {α : Type} (name : String) (entries : List (Key × α)) : Option α :=
  (entries.find? fun (k, _) => k == .text name).map (·.2)

namespace Plain

instance : Inhabited Plain := ⟨.null⟩

/-- The record with the given names as keys. -/
def named (fields : List (String × Plain)) : Plain :=
  .record (fields.map fun (name, item) => (.text name, item))

/-- A whole number as data. -/
def whole (n : Int) : Plain := .number (.int n)

/-- A list of whole numbers as data. -/
def wholes (ns : List Int) : Plain := .list (ns.map whole)

/-- The word for the kind of some data in messages. -/
def kindName : Plain → String
  | .null => "NoneType"
  | .bool _ => "bool"
  | .number (.int _) => "int"
  | .number (.float _) => "float"
  | .text _ => "str"
  | .list _ => "list"
  | .tuple _ => "tuple"
  | .record _ => "dict"
  | .opaqueItem => "Opaque"

/-- Text between brackets. -/
def bracketed (opening closing : String) (items : List String) : String :=
  opening ++ String.intercalate ", " items ++ closing

/-- A tuple of shown items; a single one is followed by a comma. -/
def tupled : List String → String
  | [item] => "(" ++ item ++ ",)"
  | items => bracketed "(" ")" items

mutual

/-- Data as shown inside other data and in messages. -/
def shown : Plain → String
  | .null => "None"
  | .bool b => if b then "True" else "False"
  | .number n => n.text
  | .text s => Text.quoted s
  | .list items => bracketed "[" "]" (shownItems items)
  | .tuple items => tupled (shownItems items)
  | .record entries => bracketed "\x7b" "\x7d" (shownEntries entries)
  | .opaqueItem => "Opaque()"

/-- The items of a list, each as shown. -/
def shownItems : List Plain → List String
  | [] => []
  | item :: rest => shown item :: shownItems rest

/-- The entries of a record, each as shown. -/
def shownEntries : List (Key × Plain) → List String
  | [] => []
  | (key, item) :: rest => (key.shown ++ ": " ++ shown item) :: shownEntries rest

end

/-- Data as printed on a line of its own: a text is not quoted there. -/
def printed : Plain → String
  | .text s => s
  | data => data.shown

/-- Does the data count as true? -/
def truthy : Plain → Bool
  | .null => false
  | .bool b => b
  | .number n => !n.isZero
  | .text s => !s.isEmpty
  | .list items => !items.isEmpty
  | .tuple items => !items.isEmpty
  | .record entries => !entries.isEmpty
  | .opaqueItem => true

/-- A truth value counts as one or zero where numbers are compared. -/
def number? : Plain → Option Number
  | .bool b => some (.int (if b then 1 else 0))
  | .number n => some n
  | _ => none

mutual

/-- Is the data equal to other data, numbers being compared by value? -/
def same : Plain → Plain → Bool
  | .null, .null => true
  | .text s, .text t => s == t
  | .list xs, .list ys => sameItems xs ys
  | .tuple xs, .tuple ys => sameItems xs ys
  | .record xs, .record ys => xs.length == ys.length && sameEntries xs ys
  | a, b =>
    match a.number?, b.number? with
    | some x, some y => x.same y
    | _, _ => false

/-- Are the items equal one by one? -/
def sameItems : List Plain → List Plain → Bool
  | [], [] => true
  | x :: xs, y :: ys => same x y && sameItems xs ys
  | _, _ => false

/-- Is every entry also in the other list of entries? -/
def sameEntries : List (Key × Plain) → List (Key × Plain) → Bool
  | [], _ => true
  | (key, item) :: rest, others =>
    (match others.find? fun (k, _) => k.same key with
      | some (_, other) => same item other
      | none => false) && sameEntries rest others

end

end Plain

end PartScript
