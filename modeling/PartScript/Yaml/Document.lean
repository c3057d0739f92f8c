import PartScript.Yaml.Scalar
import PartScript.Yaml.Token

/-!
YAML documents as plain data. A text holds at most one document; a text without one stands for
nothing. Of entries with equal keys the last counts, and only scalars are keys.
-/

namespace PartScript.Yaml

/-- Something read from the front of some tokens, and what follows it. -/
abbrev Front (α : Type) := α × List Token

/-- Which collections may stand at a place: those in blocks, and lists whose dashes stand at the
column of the record around them. -/
structure Room where
  inBlock : Bool
  atMargin : Bool

/-- Data as a key. -/
def keyOf? : Plain → Option Key
  | .null => some .null
  | .bool b => some (.bool b)
  | .number n => some (.number n)
  | .text s => some (.text s)
  | _ => none

/-- The record of some entries. -/
def recordOf? (entries : List (Plain × Plain)) : Option Plain := do
  let keyed ← entries.mapM fun (k, item) => (keyOf? k).map (·, item)
  return .record (collectEntries keyed)

/-- The meaning of a scalar. -/
def scalar? (isQuoted : Bool) (text : String) : Option Plain :=
  if isQuoted then some (.text text) else meaning? text

/-- Data that may be left out before some tokens; then it is nothing. -/
def orNull (stops : List Token) (item : List Token → Option (Front Plain)) (ts : List Token) :
    Option (Front Plain) :=
  match ts with
  | [] => item ts
  | t :: _ => if stops.contains t then some (.null, ts) else item ts

/-- What follows a colon, if there is one. -/
def afterColon (stops : List Token) (item : List Token → Option (Front Plain)) (ts : List Token) :
    Option (Front Plain) :=
  match ts with
  | .colon :: rest => orNull stops item rest
  | _ => some (.null, ts)

/-- Skip the comma between two items; the first needs none. -/
def skipComma (isFirst : Bool) (ts : List Token) : Option (List Token) :=
  if isFirst then some ts
  else
    match ts with
    | .comma :: rest => some rest
    | _ => none

mutual

/-- Read data. -/
def node (room : Room) : Nat → List Token → Option (Front Plain)
  | 0, _ => none
  | fuel + 1, ts =>
    match ts with
    | .scalar isQuoted text :: rest => (scalar? isQuoted text).map (·, rest)
    | .listStart :: rest => (flowItems true fuel rest).map fun (items, after) => (.list items, after)
    | .recordStart :: rest => do
      let (entries, after) ← flowEntries true fuel rest
      return (← recordOf? entries, after)
    | .blockList :: rest =>
      if room.inBlock then
        (blockItems fuel rest).map fun (items, after) => (.list items, after)
      else none
    | .blockRecord :: rest =>
      if room.inBlock then do
        let (entries, after) ← blockEntries fuel rest
        return (← recordOf? entries, after)
      else none
    | .dash :: _ =>
      if room.atMargin then (marginItems fuel ts).map fun (items, after) => (.list items, after)
      else none
    | _ => none

/-- The items of a list in a block of its own. -/
def blockItems : Nat → List Token → Option (Front (List Plain))
  | 0, _ => none
  | _ + 1, .blockEnd :: rest => some ([], rest)
  | fuel + 1, .dash :: rest => do
    let (item, after) ← orNull [.dash, .blockEnd] (node ⟨true, false⟩ fuel) rest
    let (items, after) ← blockItems fuel after
    return (item :: items, after)
  | _ + 1, _ => none

/-- The items of a list at the column of the record around it. -/
def marginItems : Nat → List Token → Option (Front (List Plain))
  | 0, _ => none
  | fuel + 1, .dash :: rest => do
    let (item, after) ← orNull [.dash, .key, .colon, .blockEnd] (node ⟨true, false⟩ fuel) rest
    let (items, after) ← marginItems fuel after
    return (item :: items, after)
  | _ + 1, ts => some ([], ts)

/-- The entries of a record in a block. -/
def blockEntries : Nat → List Token → Option (Front (List (Plain × Plain)))
  | 0, _ => none
  | _ + 1, .blockEnd :: rest => some ([], rest)
  | fuel + 1, .key :: rest => do
    let stops : List Token := [.key, .colon, .blockEnd]
    let (key, after) ← orNull stops (node ⟨true, true⟩ fuel) rest
    let (item, after) ← afterColon stops (node ⟨true, true⟩ fuel) after
    let (entries, after) ← blockEntries fuel after
    return ((key, item) :: entries, after)
  | _ + 1, _ => none

/-- The items of a list in brackets. An entry without brackets of its own is a record. -/
def flowItems (isFirst : Bool) : Nat → List Token → Option (Front (List Plain))
  | 0, _ => none
  | _ + 1, .listEnd :: rest => some ([], rest)
  | fuel + 1, ts => do
    match ← skipComma isFirst ts with
    | .listEnd :: rest => return ([], rest)
    | .key :: rest =>
      let (key, after) ← orNull [.colon, .comma, .listEnd] (node ⟨false, false⟩ fuel) rest
      let (item, after) ← afterColon [.comma, .listEnd] (node ⟨false, false⟩ fuel) after
      let (items, after) ← flowItems false fuel after
      return ((← recordOf? [(key, item)]) :: items, after)
    | ts =>
      let (item, after) ← node ⟨false, false⟩ fuel ts
      let (items, after) ← flowItems false fuel after
      return (item :: items, after)

/-- The entries of a record in braces. A key alone has nothing for its item. -/
def flowEntries (isFirst : Bool) : Nat → List Token → Option (Front (List (Plain × Plain)))
  | 0, _ => none
  | _ + 1, .recordEnd :: rest => some ([], rest)
  | fuel + 1, ts => do
    match ← skipComma isFirst ts with
    | .recordEnd :: rest => return ([], rest)
    | .key :: rest =>
      let (key, after) ← orNull [.colon, .comma, .recordEnd] (node ⟨false, false⟩ fuel) rest
      let (item, after) ← afterColon [.comma, .recordEnd] (node ⟨false, false⟩ fuel) after
      let (entries, after) ← flowEntries false fuel after
      return ((key, item) :: entries, after)
    | ts =>
      let (key, after) ← node ⟨false, false⟩ fuel ts
      let (entries, after) ← flowEntries false fuel after
      return ((key, .null) :: entries, after)

end

/-- The data of a document in its tokens. Nothing but its end may follow it. -/
def ofTokens? (ts : List Token) : Option Plain := do
  let fuel := 2 * ts.length + 2
  let (data, after) ←
    match ts with
    | [] => some (.null, [])
    | .documentStart :: rest =>
      if rest.isEmpty then some (.null, [])
      else orNull [.documentStart, .documentEnd] (node ⟨true, false⟩ fuel) rest
    | _ => node ⟨true, false⟩ fuel ts
  if (after.dropWhile (· == .documentEnd)).isEmpty then return data else none

/-- The data of a document. -/
def read? (text : String) : Option Plain := do
  ofTokens? (← tokenize? (Text.unifyNewlines text.toList))

end PartScript.Yaml
