import ScopedNames.Import
import ScopedNames.Text
import ScopedNames.Tree

set_option autoImplicit false

namespace ScopedNames

inductive Level where
  | error
  | warn
  | info
  | debug
  | trace
  deriving DecidableEq, Repr

namespace Level

def text : Level → String
  | .error => "ERROR"
  | .warn => "WARN"
  | .info => "INFO"
  | .debug => "DEBUG"
  | .trace => "TRACE"

/-- The gravest level comes first. -/
def rank : Level → Nat
  | .error => 1
  | .warn => 2
  | .info => 3
  | .debug => 4
  | .trace => 5

/-- Whether a log that goes down to `finest` has records of this level. -/
def isShownAt (level finest : Level) : Bool := level.rank ≤ finest.rank

end Level

inductive Severity where
  | error
  | warning
  | info
  | debug
  deriving DecidableEq, Repr

namespace Severity

def text : Severity → String
  | .error => "error"
  | .warning => "warning"
  | .info => "info"
  | .debug => "debug"

/-- The level at which the log records a diagnostic. -/
def level : Severity → Level
  | .error => .error
  | .warning => .warn
  | .info => .info
  | .debug => .debug

/-- The gravest comes first, as in the log. -/
instance : Ord Severity where
  compare first second := compare first.level.rank second.level.rank

end Severity

inductive RemarkKind where
  /-- A cause. -/
  | issue
  /-- A remedy. -/
  | hint
  | note
  deriving DecidableEq, Repr

def RemarkKind.text : RemarkKind → String
  | .issue => "issue"
  | .hint => "hint"
  | .note => "note"

structure Remark where
  kind : RemarkKind
  message : String
  deriving DecidableEq, Repr

def Remark.text (remark : Remark) : String := s!"{remark.kind.text}: {remark.message}"

structure Diagnostic where
  severity : Severity
  message : String
  remarks : List Remark
  deriving DecidableEq, Repr

namespace Diagnostic

def error (message : String) : Diagnostic := ⟨.error, message, []⟩

/-- Adds a remark behind the others. -/
def remark (diagnostic : Diagnostic) (kind : RemarkKind) (message : String) : Diagnostic :=
  { diagnostic with remarks := diagnostic.remarks ++ [⟨kind, message⟩] }

/-- The message and the remarks, each remark on an indented line of its own. -/
def body (diagnostic : Diagnostic) : String :=
  diagnostic.message ++ String.join (diagnostic.remarks.map fun remark => s!"\n  {remark.text}")

def text (diagnostic : Diagnostic) : String :=
  s!"{diagnostic.severity.text}: {diagnostic.body}"

end Diagnostic

/-- The first name declared in a scope that `name` is probably a slip for. -/
def Tree.likelyMeant (tree : Tree) (scope : ScopeId) (name : Name) : Option (Option Name) := do
  let here ← tree.scope? scope
  here.items.names.findM? fun declared => Text.isSlip declared.toList name.toList

/-- The scope to whose inside a hidden declaration of `owner` keeps its users. -/
def Visibility.boundary? (visibility : Visibility) (owner : ScopeId) : Option ScopeId :=
  match visibility with
  | .insiders => some owner
  | .restricted scope => some scope
  | .everyone => none

def LookupError.describe (tree : Tree) : LookupError → Option Diagnostic
  | .missing name scope => do
    let place ← tree.scopeText scope
    let found := Diagnostic.error s!"cannot find `{name}` in `{place}`"
    match ← tree.likelyMeant scope name with
    | some similar => return found.remark .hint s!"a similar name exists: `{similar}`"
    | none => return found
  | .notModule name decl => do
    let kind := (← tree.decl? decl).item.text
    let place ← tree.declText decl
    return (Diagnostic.error s!"expected module, found {kind} `{name}`").remark
      .note s!"`{place}` is declared here"
  | .hidden name decl owner => do
    let declaration ← tree.decl? decl
    let kind := declaration.item.text
    let place ← tree.scopeText owner
    let found := (Diagnostic.error s!"{kind} `{name}` is private").remark
      .note s!"`{name}` is declared in `{place}`"
    match declaration.visibility.boundary? owner with
    | some scope =>
      let boundary ← tree.scopeText scope
      return found.remark .hint s!"it can only be named from within `{boundary}`"
    | none => return found
  | .tooManySupers requested available =>
    return (Diagnostic.error "too many `super`s in path").remark
      .issue s!"went up {requested} scope(s) but there are only {available} above"
  | .unknownRoot name =>
    let found := Diagnostic.error s!"unknown root `{name}`"
    match tree.externalName with
    | some known => some (found.remark .note s!"only `{known}` can be named this way")
    | none => some found
  | .ambiguous name candidates => do
    let places ← candidates.mapM tree.declText
    let issues := places.map fun place =>
      Remark.mk .issue s!"it could refer to `{place}`, brought in by a glob import"
    return (Diagnostic.mk .error s!"`{name}` is ambiguous" issues).remark
      .hint s!"import `{name}` explicitly to choose one"

def ImportError.describe (tree : Tree) : ImportError → Option Diagnostic
  | .unresolved reason => (reason.describe tree).map fun diagnostic =>
    { diagnostic with message := s!"unresolved import: {diagnostic.message}" }
  | .conflict name scope existing incoming => do
    let place ← tree.scopeText scope
    let first ← tree.declText existing
    let second ← tree.declText incoming
    let found := Diagnostic.error s!"`{name}` is imported more than once in `{place}`"
    return ((found.remark .note s!"first imported from `{first}`").remark
      .issue s!"then from `{second}`").remark
      .hint "import one of them under a different name"

def DuplicateName.describe (tree : Tree) (error : DuplicateName) : Option Diagnostic := do
  let name := error.name
  let place ← tree.scopeText error.scope
  let found := Diagnostic.error s!"`{name}` is declared more than once in `{place}`"
  match ← tree.local? error.scope name with
  | some first =>
    let kind := (← tree.decl? first).item.text
    return found.remark .note s!"first declared as a {kind} here"
  | none => return found

end ScopedNames
