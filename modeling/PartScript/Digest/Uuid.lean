import PartScript.Digest.Sha256

/-!
Universally unique identifiers made from a hash: the first sixteen bytes with the version set to
five and the variant bits of the standard, written in five groups.
-/

namespace PartScript.Digest

/-- Set the version and variant bits of sixteen bytes. -/
def stamp (bytes : List UInt8) : List UInt8 :=
  (bytes.zip (List.range bytes.length)).map fun (b, i) =>
    if i = 6 then (b &&& 0x0f) ||| 0x50
    else if i = 8 then (b &&& 0x3f) ||| 0x80
    else b

/-- Cut a list into groups of the given sizes. -/
def groups {α : Type} : List Nat → List α → List (List α)
  | [], _ => []
  | size :: sizes, xs => xs.take size :: groups sizes (xs.drop size)

/-- The identifier made from a hash. -/
def uuid (hash : List UInt8) : String :=
  String.intercalate "-" ((groups [4, 2, 2, 2, 6] (stamp (hash.take 16))).map hexText)

end PartScript.Digest
