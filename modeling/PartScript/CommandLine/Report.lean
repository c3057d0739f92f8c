import PartScript.Command
import PartScript.Diagnostic
import PartScript.Document
import PartScript.Identity
import PartScript.Pass.Run

/-!
Reports of the command line: the table of tokens, and what a run did, in words or as a document.
-/

namespace PartScript.CommandLine

/-- Lines, each with its end. -/
def linesText (lines : List String) : String :=
  String.join (lines.map (· ++ "\n"))

/-- The line of a token: where it stands, its group, its name and its text. -/
def tokenLine (t : Token) : String :=
  let range := t.span.range
  Text.padLeft 5 (toString range.start) ++ "-" ++ Text.padRight 5 (toString range.stop) ++ " " ++
    Text.padRight 12 t.kind.toClass.group ++ " " ++ Text.padRight 11 t.kind.toClass.name ++ " " ++
    Text.quoted t.lexeme

/-- The line of a command: what is asked for, its identifier and where it came from. -/
def commandLine (c : Command) : String :=
  "  " ++ Text.padRight 12 c.request.name ++ " " ++ c.id ++ "  " ++ c.range.text

/-- What a run did, in words. -/
def runLines (bindings : List (String × Value)) (shown : List Value) (sent : List Command) :
    List String :=
  ["Bindings:"] ++ bindings.map (fun (name, v) => "  " ++ name ++ " = " ++ v.toPlain.printed) ++
    (if shown.isEmpty then [] else "Shown:" :: shown.map ("  " ++ ·.toPlain.printed)) ++
    ["Commands (" ++ toString sent.length ++ "):"] ++ sent.map commandLine

/-- What a run did, as a document. -/
def runDocument (source : String) (bindings : List (String × Value)) (shown : List Value)
    (sent : List Command) : Plain :=
  .named [
    ("success", .bool true),
    ("sourceSignature", .text (Identity.signature source)),
    ("bindings", bindingsDocument bindings),
    ("shown", .list (shown.map (·.toPlain))),
    ("commands", .list (sent.map (·.document)))]

/-- Why a run failed, as a document. -/
def failureDocument (d : Diagnostic) : Plain :=
  .named [("success", .bool false), ("error", d.report.document)]

/-- A document on lines of its own. -/
def documentText (document : Plain) : String := Document.indented 0 document ++ "\n"

end PartScript.CommandLine
