import PartScript.Number.Reading

/-!
Arguments of the command line. First an action is named, then its subject and switches follow in any
order. Before the action stand the switches of the program as a whole. A long switch may be cut short
as long as it is clear which one is meant, and short ones may be joined.
-/

namespace PartScript.CommandLine

/-- Why arguments ask for nothing: help was wanted, or they make no sense. -/
inductive Dismissal where
  | help | misuse
  deriving DecidableEq, Repr

/-- The status that the program ends with. -/
def Dismissal.status : Dismissal → Nat
  | .help => 0
  | .misuse => 2

/-- A switch. -/
inductive Switch where
  | help | verbose | var | config | json | tabSize | useTabs | normalize
  deriving DecidableEq, Repr

namespace Switch

/-- The ways to write a switch in full. -/
def spellings : Switch → List String
  | .help => ["-h", "--help"]
  | .verbose => ["-v", "--verbose"]
  | .var => ["--var"]
  | .config => ["--config"]
  | .json => ["--json"]
  | .tabSize => ["--tab-size"]
  | .useTabs => ["--use-tabs"]
  | .normalize => ["--normalize"]

/-- Does a value belong to the switch? -/
def takesValue : Switch → Bool
  | .var | .config | .tabSize => true
  | _ => false

/-- The switches that a test on spellings picks, once for every spelling. -/
def matching (switches : List Switch) (test : String → Bool) : List Switch :=
  switches.flatMap fun s => (s.spellings.filter test).map fun _ => s

end Switch

/-- What the program can do. -/
inductive Action where
  | tokens | ast | run | calc | fmt
  deriving DecidableEq, Repr

namespace Action

/-- All actions. -/
def all : List Action := [.tokens, .ast, .run, .calc, .fmt]

/-- The name of an action. -/
def name : Action → String
  | .tokens => "tokens"
  | .ast => "ast"
  | .run => "run"
  | .calc => "calc"
  | .fmt => "fmt"

/-- The action with a name. -/
def ofName? (s : String) : Option Action := all.find? fun a => a.name == s

/-- The switches of an action. -/
def switches : Action → List Switch
  | .tokens | .ast => [.help]
  | .run => [.help, .var, .config, .json]
  | .calc => [.help, .var]
  | .fmt => [.help, .tabSize, .useTabs, .normalize, .config]

end Action

/-! ### Words -/

/-- The value written together with a switch: none, one right after a short switch, or one after an
equals sign. -/
inductive Given where
  | none
  | attached (text : List Char)
  | assigned (text : List Char)

/-- What an argument is: the subject or a value, the mark after which nothing is a switch any more, a
switch, or something that looks like one. -/
inductive Word where
  | plain (text : String)
  | divider
  | switch (s : Switch) (given : Given)
  | stranger

/-- Is it a negative number? Then it is no switch. -/
def isNegativeNumber (cs : List Char) : Bool :=
  let isDigit (c : Char) : Bool := (Text.digitValue? c).isSome
  match cs with
  | '-' :: body =>
    let (whole, rest) := body.span isDigit
    match rest with
    | [] => !whole.isEmpty
    | c :: fraction => c == '.' && !fraction.isEmpty && fraction.all isDigit
  | _ => false

/-- The switches that an argument may be meant for, with what is written together with them. -/
def candidates (switches : List Switch) (cs : List Char) : List (Switch × Given) :=
  match cs with
  | '-' :: '-' :: _ =>
    let (start, rest) := cs.span (· != '=')
    let given := match rest with
      | [] => Given.none
      | _ :: value => .assigned value
    (Switch.matching switches (·.startsWith (String.ofList start))).map (·, given)
  | _ =>
    (Switch.matching switches (· == String.ofList (cs.take 2))).map (·, .attached (cs.drop 2))

/-- The switch that is written in full, perhaps with a value after an equals sign. -/
def inFull? (switches : List Switch) (cs : List Char) : Option Word :=
  let find (text : List Char) : Option Switch :=
    (Switch.matching switches (· == String.ofList text)).head?
  match find cs, cs.span (· != '=') with
  | some s, _ => some (.switch s .none)
  | none, (start, _ :: value) => (find start).map (.switch · (.assigned value))
  | none, (_, []) => none

/-- What an argument is, given the switches there are. -/
def classify (switches : List Switch) (arg : String) : Except Dismissal Word :=
  let cs := arg.toList
  if cs.head? != some '-' || cs.length == 1 then .ok (.plain arg)
  else
    match inFull? switches cs, candidates switches cs with
    | some word, _ => .ok word
    | none, [(s, given)] => .ok (.switch s given)
    | none, _ :: _ => .error .misuse
    | none, [] =>
      .ok (if isNegativeNumber cs || cs.contains ' ' then .plain arg else .stranger)

/-- What the arguments are. After the divider all are plain. -/
def classifyAll (switches : List Switch) : List String → Except Dismissal (List Word)
  | [] => .ok []
  | arg :: rest =>
    if arg == "--" then .ok (.divider :: rest.map .plain)
    else do
      let word ← classify switches arg
      return word :: (← classifyAll switches rest)

/-! ### Switches and their values -/

/-- Switches joined to a short one: those that there are, up to the first that there is not, and
whether there is one. -/
def joined (switches : List Switch) (s : Switch) : List Char → Except Dismissal (List Switch × Bool)
  | [] => .ok ([s], false)
  | c :: rest =>
    if c == '-' then .error .misuse
    else
      match (Switch.matching switches (· == String.ofList ['-', c])).head? with
      | none => .ok ([s], true)
      | some next =>
        if rest.head? == some '=' then .error .misuse
        else do
          let (more, isStrange) ← joined switches next rest
          return (s :: more, isStrange)

/-- What the arguments of an action say so far. -/
structure Draft where
  subject : Option String := none
  vars : List String := []
  config : Option String := none
  json : Bool := false
  tabSize : Int := 2
  useTabs : Bool := false
  normalize : Bool := false
  verbose : Bool := false
  hasStranger : Bool := false

namespace Draft

/-- Take a switch with its value into account. -/
def apply (d : Draft) (s : Switch) (value : String) : Except Dismissal Draft :=
  match s with
  | .help => .error .help
  | .verbose => .ok { d with verbose := true }
  | .var => .ok { d with vars := d.vars ++ [value] }
  | .config => .ok { d with config := some value }
  | .json => .ok { d with json := true }
  | .useTabs => .ok { d with useTabs := true }
  | .normalize => .ok { d with normalize := true }
  | .tabSize =>
    match Number.readInt? value.toList with
    | some n => .ok { d with tabSize := n }
    | none => .error .misuse

/-- Take a switch into account that has no value of its own in the next argument. -/
def applyGiven (d : Draft) (switches : List Switch) (s : Switch) (given : Given) :
    Except Dismissal Draft :=
  match given with
  | .assigned value => if s.takesValue then d.apply s (String.ofList value) else .error .misuse
  | .none => if s.takesValue then .error .misuse else d.apply s ""
  | .attached text => do
    let (all, isStrange) ← joined switches s text
    let d ← all.foldlM (fun d s => d.apply s "") d
    return { d with hasStranger := d.hasStranger || isStrange }

/-- Something that does not belong there. -/
def addStranger (d : Draft) : Draft := { d with hasStranger := true }

/-- Take the words after the action into account, one by one. -/
def addWords (d : Draft) (switches : List Switch) : List Word → Except Dismissal Draft
  | [] => .ok d
  | .stranger :: rest => d.addStranger.addWords switches rest
  | .switch s .none :: .plain value :: rest =>
    if s.takesValue then do (← d.apply s value).addWords switches rest
    else do (← d.apply s "").addWords switches (.plain value :: rest)
  | .switch s given :: rest => do (← d.applyGiven switches s given).addWords switches rest
  | .plain text :: .divider :: rest =>
    if d.subject.isNone then { d with subject := some text }.addWords switches rest
    else d.addStranger.addWords switches (.divider :: rest)
  | .plain text :: rest =>
    if d.subject.isNone then { d with subject := some text }.addWords switches rest
    else d.addStranger.addWords switches rest
  | .divider :: .plain text :: rest =>
    if d.subject.isNone then { d with subject := some text }.addWords switches rest
    else d.addStranger.addWords switches (.plain text :: rest)
  | .divider :: rest => d.addStranger.addWords switches rest

end Draft

/-! ### Orders -/

/-- What is to be done with a subject: a file, or an expression to calculate. -/
inductive Job where
  | tokens (file : String)
  | ast (file : String)
  | run (file : String) (vars : List String) (config : Option String) (json : Bool)
  | calc (expression : String) (vars : List String)
  | fmt (file : String) (config : Option String) (normalize : Bool) (tabSize : Int)
    (useTabs : Bool)

/-- A job, and whether all events are to be shown. -/
structure Order where
  verbose : Bool
  job : Job

/-- The job of an action with its arguments. An empty name of a configuration counts as none. -/
def Draft.job (d : Draft) (action : Action) (subject : String) : Job :=
  let config := d.config.filter (!·.isEmpty)
  match action with
  | .tokens => .tokens subject
  | .ast => .ast subject
  | .run => .run subject d.vars config d.json
  | .calc => .calc subject d.vars
  | .fmt => .fmt subject config d.normalize d.tabSize d.useTabs

/-- The job of an action with the arguments after it. -/
def readAction (before : Draft) (action : Action) (args : List String) : Except Dismissal Order := do
  let words ← classifyAll action.switches args
  let d ← ({} : Draft).addWords action.switches words
  match d.subject with
  | none => .error .misuse
  | some subject =>
    if d.hasStranger || before.hasStranger then .error .misuse
    else return ⟨before.verbose, d.job action subject⟩

/-- The switches of the program as a whole. -/
def generalSwitches : List Switch := [.help, .verbose]

/-- Read the switches before the action, then the action. The arguments stand beside what they
are. -/
def readGeneral (d : Draft) : List (Word × String) → Except Dismissal Order
  | [] => .error .misuse
  | (.divider, _) :: _ => .error .misuse
  | (.stranger, _) :: rest => readGeneral d.addStranger rest
  | (.switch s given, _) :: rest => do readGeneral (← d.applyGiven generalSwitches s given) rest
  | (.plain name, _) :: rest =>
    match Action.ofName? name with
    | none => .error .misuse
    | some action => readAction d action (rest.map (·.2))

/-- What some arguments ask for. -/
def Order.ofArguments (args : List String) : Except Dismissal Order := do
  readGeneral {} ((← classifyAll generalSwitches args).zip args)

end PartScript.CommandLine
