import ScopedNames.Json
import ScopedNames.Path

set_option autoImplicit false

namespace ScopedNames

structure Config where
  /-- The name by which other trees call the tree of the project. -/
  externalName : Option Name
  /-- How paths given as text are written. -/
  spelling : Spelling
  /-- Whether the log records every failed operation of the project as a diagnostic. -/
  reportsErrors : Bool
  deriving DecidableEq, Repr

def Config.standard : Config := ⟨none, .standard, false⟩

namespace Json

/-- The fields of an object with known keys, or of a list that gives their values in order. All keys
must be characters. -/
def fields? (keys : List String) : Json → Option (List (String × Json))
  | .object fields => fields.mapM fun (key, value) => key.map (·, value)
  | .list items => if items.length ≤ keys.length then some (keys.zip items) else none
  | _ => none

/-- The value of a field that may be missing but not repeated. -/
def field {α : Type} (fields : List (String × Json)) (key : String) (read : Json → Option α)
    (default : α) : Option α :=
  match fields.filter (·.1 = key) with
  | [] => some default
  | [(_, value)] => read value
  | _ => none

def bool? : Json → Option Bool
  | .bool value => some value
  | _ => none

def text? : Json → Option String
  | .text value => value
  | _ => none

def optionalText? : Json → Option (Option String)
  | .null => some none
  | json => json.text?.map some

end Json

def Spelling.ofJson? (json : Json) : Option Spelling := do
  let keys := ["separator", "rootKeyword", "selfKeyword", "superKeyword"]
  let fields ← json.fields? keys
  let text (key default : String) := Json.field fields key Json.text? default
  return {
    separator := ← text "separator" standard.separator
    rootWord := ← text "rootKeyword" standard.rootWord
    selfWord := ← text "selfKeyword" standard.selfWord
    superWord := ← text "superKeyword" standard.superWord }

namespace Config

def ofJson? (json : Json) : Option Config := do
  let fields ← json.fields? ["crateName", "pathSyntax", "logDiagnostics"]
  return {
    externalName := ← Json.field fields "crateName" Json.optionalText? standard.externalName
    spelling := ← Json.field fields "pathSyntax" Spelling.ofJson? standard.spelling
    reportsErrors := ← Json.field fields "logDiagnostics" Json.bool? standard.reportsErrors }

/-- The configuration that a JSON text writes down. -/
def parse? (text : String) : Option Config := (Json.parse text).bind ofJson?

end Config

/-- Why a file cannot be read. -/
inductive ReadFault where
  | absent
  | transfer
  | noDevice
  | notDirectory
  | directory
  | nameTooLong
  | zeroInName
  deriving DecidableEq, Repr

def ReadFault.message : ReadFault → String
  | .absent => "No such file or directory (os error 2)"
  | .transfer => "Input/output error (os error 5)"
  | .noDevice => "No such device or address (os error 6)"
  | .notDirectory => "Not a directory (os error 20)"
  | .directory => "Is a directory (os error 21)"
  | .nameTooLong => "File name too long (os error 36)"
  | .zeroInName => "file name contained an unexpected NUL byte"

/-- Whatever answers a path with the bytes of a file or with the reason why there are none. -/
abbrev Disk := String → Except ReadFault ByteArray

inductive ConfigError where
  | unreadable (path : String) (fault : ReadFault)
  /-- The bytes of the file are not UTF-8. -/
  | notText (path : String)
  | malformed
  deriving DecidableEq, Repr

def ConfigError.message : ConfigError → String
  | .unreadable path fault => s!"When reading {path}: {fault.message}"
  | .notText path => s!"When reading {path}: stream did not contain valid UTF-8"
  | .malformed => "invalid resolver config"

namespace Config

def ofBytes (path : String) (bytes : ByteArray) : Except ConfigError Config :=
  match String.fromUTF8? bytes with
  | none => .error (.notText path)
  | some text =>
    match parse? text with
    | none => .error .malformed
    | some config => .ok config

def load (disk : Disk) (path : String) : Except ConfigError Config :=
  match disk path with
  | .error fault => .error (.unreadable path fault)
  | .ok bytes => ofBytes path bytes

end Config

end ScopedNames
