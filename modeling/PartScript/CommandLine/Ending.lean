import PartScript.Assignment
import PartScript.CommandLine.Arguments
import PartScript.CommandLine.Files
import PartScript.CommandLine.Report
import PartScript.Edit.Negation
import PartScript.Event
import PartScript.Node.Listing
import PartScript.Node.Printer
import PartScript.Scratch

/-!
Jobs of the command line, done on given files. A job notes events on its way and comes to an end that
says what is printed and with which status the program ends. Wrong scripts, variables and settings are
complained about; a fault that no part of the job expects is handed on.
-/

namespace PartScript.CommandLine

/-- How a job ends: with a status, what it printed and what it complained about, or with a failure
that it did not expect. -/
inductive Ending where
  | done (status : Nat) (output complaint : String)
  | escaped (failure : Failure) (output : String)

/-- Work that notes events. -/
abbrev Noting := StateM (List Event)

/-- Note an event. -/
def note (e : Event) : Noting Unit := modify (· ++ [e])

/-- An ending with nothing to complain about. -/
def printed (output : String) : Ending := .done 0 output ""

/-- An ending with nothing but a complaint. -/
def complaint (text : String) : Ending := .done 1 "" (text ++ "\n")

/-- Complain about a wrong script. -/
def refuted : Failure → Ending
  | .diagnostic d => complaint d.text
  | .fault f => .escaped (.fault f) ""

/-- Complain about variables, settings or files that cannot be used. -/
def unusable : Failure → Ending
  | .diagnostic d => complaint ("Error: " ++ d.text)
  | .fault f =>
    match f.sort with
    | .badValue | .missing | .directory => complaint ("Error: " ++ f.message)
    | _ => .escaped (.fault f) ""

/-! ### Parts of jobs -/

/-- The text of a script, or how the job ends without it. -/
def script (files : Files) (path : String) : Except Ending String :=
  match files.find? path with
  | some (.text content) => .ok (readText content)
  | some .directory => .error (.escaped (.fault (.directory (plainPath path))) "")
  | none => .error (complaint ("Error: File not found: " ++ plainPath path))

/-- Read the tokens of a script. -/
def readTokens (source : String) (file : Option String) : ExceptT Failure Noting (List Token) := do
  let tokens ← ExceptT.mk (pure (tokenize source file))
  note (.tokenized source.length tokens.length)
  return tokens

/-- Read the tree of a script. -/
def readTree (source : String) (file : Option String) : ExceptT Failure Noting Node := do
  let tokens ← readTokens source file
  let tree ← ExceptT.mk (pure (parseTokens (Text.linesOf source) tokens))
  note (.parsed tree.body.length)
  return tree

/-- Read the settings in a file, or take the standard ones. -/
def readConfig (files : Files) : Option String → ExceptT Failure Noting Config
  | none => return .standard
  | some path => do
    let file := plainPath path
    match files.find? path with
    | none => throw (.fault (.missingFile file))
    | some .directory => throw (.fault (.directory file))
    | some (.text content) =>
      let loaded := Config.load file content
      loaded.ignored.forM fun key => note (.ignoredKey key)
      let config ← ExceptT.mk (pure (loaded.settings.mapError .fault))
      note (.loaded file config)
      return config

/-- Note the events of a run. -/
def noteRun (statements : Nat) (commands : List Command) (o : Outcome) : Noting Unit := do
  note (.executing statements)
  commands.forM fun c => note (.sent c)
  match o.result with
  | .ok _ => note (.finished o.steps o.sent.length)
  | .error (.diagnostic d) =>
    if d.cause == .exhausted .nesting then pure () else note (.aborted o.steps d.cause.message)
  | .error (.fault _) => pure ()

/-! ### Jobs -/

/-- List the tokens of a script. -/
def listTokens (source file : String) : Noting Ending := do
  match ← readTokens source (some file) with
  | .ok tokens => return printed (linesText (tokens.map tokenLine))
  | .error failure => return refuted failure

/-- List the tree of a script. -/
def listTree (source file : String) : Noting Ending := do
  match ← readTree source (some file) with
  | .ok tree => return printed (tree.listing ++ "\n")
  | .error failure => return refuted failure

/-- The settings and the scopes that a run starts with. -/
def prepareRun (files : Files) (vars : List String) (config : Option String) :
    ExceptT Failure Noting (Config × Store) := do
  let config ← readConfig files config
  return (config, ← ExceptT.mk (pure (Store.ofAssignments vars)))

/-- Run the tree of a script in the first scope. -/
def runTree (source : String) (config : Config) (store : Store) (tree : Node) :
    ExceptT Failure Noting Outcome := do
  let outcome := (Pass.under config .standard source).run store 0 tree
  noteRun tree.body.length outcome.sent outcome
  let _ ← ExceptT.mk (pure outcome.result)
  return outcome

/-- How a run that failed ends. -/
def runFailed (json : Bool) : Failure → Ending
  | .diagnostic d =>
    if json then .done 1 (documentText (failureDocument d)) "" else complaint d.text
  | .fault f => .escaped (.fault f) ""

/-- How a run that succeeded ends. -/
def runReport (source : String) (json : Bool) (o : Outcome) : Ending :=
  let bindings := o.store.localBindings 0
  if json then printed (documentText (runDocument source bindings o.shown o.sent))
  else printed (linesText (runLines bindings o.shown o.sent))

/-- Run a script. -/
def runScript (files : Files) (source file : String) (vars : List String) (config : Option String)
    (json : Bool) : Noting Ending := do
  match ← prepareRun files vars config with
  | .error failure => return unusable failure
  | .ok (config, store) =>
    match ← (do runTree source config store (← readTree source (some file)) :
        ExceptT Failure Noting Outcome) with
    | .ok outcome => return runReport source json outcome
    | .error failure => return runFailed json failure

/-- Calculate an expression. -/
def calculate (expression : String) (vars : List String) : Noting Ending := do
  match Store.ofAssignments vars with
  | .error failure => return unusable failure
  | .ok store =>
    let preview := Scratch.evaluate .standard store (some 0) none expression
    let _ ← readTree preview.code none
    preview.outcome.forM (noteRun 1 [])
    match preview.result with
    | .ok _ => return printed (preview.display ++ "\n")
    | .error (.fault f) => return .escaped (.fault f) ""
    | .error (.diagnostic d) =>
      note (.previewFailed expression d.cause.message)
      return .done 1 (preview.display ++ "\n") (d.text ++ "\n")

/-- Print a script in its canonical layout. -/
def format (files : Files) (source file : String) (config : Option String) (normalize : Bool)
    (style : Style) : Noting Ending := do
  match ← (do return (← readConfig files config, ← readTree source (some file)) :
      ExceptT Failure Noting (Config × Node)) with
  | .error (.diagnostic d) => return complaint d.text
  | .error failure => return unusable failure
  | .ok (config, tree) =>
    let edited := if normalize then Edit.normalize config.negationRules tree else .ok tree
    match edited >>= Node.print style with
    | .ok text => return printed text
    | .error fault => return .escaped (.fault fault) ""

/-- Do something with the script in a file. -/
def withScript (files : Files) (file : String) (work : String → Noting Ending) : Noting Ending :=
  match script files file with
  | .ok source => work source
  | .error ending => return ending

/-- Do a job on some files. -/
def Job.perform (files : Files) : Job → Noting Ending
  | .tokens file => withScript files file fun source => listTokens source file
  | .ast file => withScript files file fun source => listTree source file
  | .run file vars config json =>
    withScript files file fun source => runScript files source file vars config json
  | .calc expression vars => calculate expression vars
  | .fmt file config normalize tabSize useTabs =>
    withScript files file fun source =>
      format files source file config normalize ⟨tabSize, useTabs, true⟩

/-- The lines of the events that are shown. -/
def eventLines (verbose : Bool) (events : List Event) : List String :=
  (events.filter fun e => verbose || e.isWarning).map (·.line)

/-- Carry out an order. Events are shown before the complaint. -/
def Order.ending (o : Order) (files : Files) : Ending :=
  let (ending, events) := (o.job.perform files).run []
  match ending with
  | .done status output complaint =>
    .done status output (linesText (eventLines o.verbose events) ++ complaint)
  | .escaped failure output => .escaped failure output

end PartScript.CommandLine
