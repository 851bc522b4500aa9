import ScopedNames.Registry
import ScopedNames.Text

set_option autoImplicit false

namespace ScopedNames

/-- Where a path starts. -/
inductive Root where
  /-- The root of the tree. -/
  | absolute
  /-- The scope in which the path is written. -/
  | here
  /-- So many scopes above the one in which the path is written. -/
  | up (levels : Nat) (positive : 0 < levels)
  /-- The root of the tree that goes by this name elsewhere. -/
  | external (name : Name)
  deriving DecidableEq, Repr

/-- Going up no levels is staying here. -/
def Root.climb (levels : Nat) : Root :=
  if positive : 0 < levels then .up levels positive else .here

structure Path where
  root : Root
  /-- The modules walked through, from the start on. -/
  modules : List Name
  /-- The item wanted, and what an import calls it unless told otherwise. -/
  name : Name
  deriving DecidableEq, Repr

namespace Path

def segments (path : Path) : List Name := path.modules ++ [path.name]

/-- The path with given segments. There is none without segments. -/
def ofSegments? (root : Root) (segments : List Name) : Option Path :=
  segments.getLast?.map fun name => ⟨root, segments.dropLast, name⟩

theorem ofSegments?_concat (root : Root) (modules : List Name) (name : Name) :
    ofSegments? root (modules ++ [name]) = some ⟨root, modules, name⟩ := by
  simp [ofSegments?]

end Path

/-- How paths are written. -/
structure Spelling where
  separator : String
  rootWord : String
  selfWord : String
  superWord : String
  deriving DecidableEq, Repr

namespace Spelling

def standard : Spelling := ⟨"::", "crate", "self", "super"⟩

/-- The words that stand for a start and therefore name nothing. -/
def isKeyword (spelling : Spelling) (piece : String) : Bool :=
  piece = spelling.rootWord || piece = spelling.selfWord || piece = spelling.superWord

end Spelling

/-- Why a text is not a path. -/
inductive PathError where
  | blank
  | emptySegment (path : String)
  | misplacedKeyword (keyword path : String)
  | noSegment (path : String)
  deriving DecidableEq, Repr

def PathError.message : PathError → String
  | .blank => "empty path"
  | .emptySegment path => s!"empty segment in path `{path}`"
  | .misplacedKeyword keyword path =>
    s!"`{keyword}` can only appear at the start of a path (in `{path}`)"
  | .noSegment path => s!"path `{path}` doesn't name anything after its prefix"

namespace Path

/-- The words and names a path is written with. -/
def words (path : Path) (spelling : Spelling) : List String :=
  match path.root with
  | .absolute => spelling.rootWord :: path.segments
  | .here => path.segments
  | .up levels _ => List.replicate levels spelling.superWord ++ path.segments
  | .external name => name :: path.segments

/-- What is written before the first word. -/
def lead (path : Path) (spelling : Spelling) : String :=
  match path.root with
  | .external _ => spelling.separator
  | _ => ""

def print (path : Path) (spelling : Spelling) : String :=
  path.lead spelling ++ spelling.separator.intercalate (path.words spelling)

/-- A path as messages show it. -/
def text (path : Path) : String := path.print .standard

end Path

namespace Spelling

open Text

/-- The pieces of a text between its separators, without the blanks around them. -/
def pieces (spelling : Spelling) (text : List Char) : List String :=
  (split spelling.separator.toList text).map fun piece => String.ofList (trim piece)

/-- A piece as a name, for a piece of the text `path`. -/
def segment (spelling : Spelling) (path piece : String) : Except PathError Name :=
  if piece = "" then .error (.emptySegment path)
  else if spelling.isKeyword piece then .error (.misplacedKeyword piece path)
  else .ok piece

/-- The start that the leading keywords stand for, and the pieces after them. -/
def readRoot (spelling : Spelling) : List String → Root × List String
  | [] => (.here, [])
  | first :: rest =>
    if first = spelling.rootWord then (.absolute, rest)
    else if first = spelling.selfWord then (.here, rest)
    else
      let levels := ((first :: rest).takeWhile (· = spelling.superWord)).length
      (.climb levels, (first :: rest).drop levels)

/-- The start of a path and the pieces that must be names. -/
def readStart (spelling : Spelling) (text : String) : Except PathError (Root × List String) :=
  let mark := spelling.separator.toList
  if mark.isPrefixOf text.toList then do
    let pieces := spelling.pieces (text.toList.drop mark.length)
    let name ← spelling.segment text (pieces.headD "")
    return (.external name, pieces.tail)
  else .ok (spelling.readRoot (spelling.pieces text.toList))

end Spelling

def Path.parse (spelling : Spelling) (text : String) : Except PathError Path := do
  if text.toList.all Text.isBlank then throw .blank
  let (root, pieces) ← spelling.readStart text
  let segments ← pieces.mapM (spelling.segment text)
  match Path.ofSegments? root segments with
  | some path => return path
  | none => throw (.noSegment text)

end ScopedNames
