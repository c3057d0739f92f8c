import PartScript.Config
import PartScript.Document
import PartScript.Yaml.Document

/-!
Configuration files: YAML documents with a record of settings. An empty document gives the standard
settings.
-/

namespace PartScript.Config

/-- What a configuration file gave: the keys that name no setting, and the settings. -/
structure Loaded where
  ignored : List Key
  settings : Except Fault Config

/-- The settings given by a record or by nothing. -/
def ofPlain (file : String) : Plain → Loaded
  | .null => ⟨[], ofEntries []⟩
  | .record entries => ⟨unknownKeys entries, ofEntries entries⟩
  | item => ⟨[], .error (.notAMapping file item)⟩

/-- The settings in the text of a file. The name of the file is part of the wording. -/
def load (file text : String) : Loaded :=
  match Yaml.read? text with
  | some item => ofPlain file item
  | none => ⟨[], .error .badDocument⟩

/-- The settings as text. -/
def text (c : Config) : String :=
  match c.toPlain with
  | .record entries =>
    "ExecutorConfig" ++ Plain.bracketed "(" ")"
      (entries.map fun (k, item) => Document.keyText k ++ "=" ++ item.shown)
  | item => item.shown

end PartScript.Config
