set_option autoImplicit false

namespace ScopedNames

namespace Json

/-- What has been read from a text, and the text after it. -/
structure Read (α : Type) (text : List Char) where
  value : α
  rest : List Char
  shorter : rest.length < text.length

namespace Read

variable {α β : Type} {text : List Char}

/-- Reads the first character and `more` characters after it. -/
def take (value : α) (first : Char) (text : List Char) (more : Nat) : Read α (first :: text) :=
  ⟨value, text.drop more, by
    rw [List.length_drop, List.length_cons]
    exact Nat.lt_succ_of_le (Nat.sub_le _ _)⟩

/-- Gives another value for what has been read after a character. -/
def behind (first : Char) (read : Read α text) (value : β) : Read β (first :: text) :=
  ⟨value, read.rest, Nat.lt_succ_of_lt read.shorter⟩

/-- Gives a value for what has been read by two readings, one after the other. -/
def join {γ : Type} (read : Read α text) (more : Read β read.rest) (value : γ) : Read γ text :=
  ⟨value, more.rest, Nat.lt_trans more.shorter read.shorter⟩

end Read

namespace Numeral

/-- The characters of which numbers are made. -/
def isPart (character : Char) : Bool :=
  character.isDigit || ['-', '+', '.', 'e', 'E'].contains character

def pastMinus : List Char → List Char
  | '-' :: rest => rest
  | text => text

def pastSign : List Char → List Char
  | '-' :: rest | '+' :: rest => rest
  | text => text

/-- What follows one digit or more. -/
def pastDigits? : List Char → Option (List Char)
  | [] => none
  | first :: rest => if first.isDigit then some (rest.dropWhile Char.isDigit) else none

def pastInteger? : List Char → Option (List Char)
  | '0' :: rest => some rest
  | text => pastDigits? text

def pastFraction? : List Char → Option (List Char)
  | '.' :: rest => pastDigits? rest
  | text => some text

def pastExponent? : List Char → Option (List Char)
  | 'e' :: rest | 'E' :: rest => pastDigits? (pastSign rest)
  | text => some text

def isNumeral (text : List Char) : Bool :=
  match (pastInteger? (pastMinus text) >>= pastFraction?) >>= pastExponent? with
  | some rest => rest.isEmpty
  | none => false

end Numeral

namespace Quoted

/-- What one element of a quoted text gives. -/
inductive Part where
  | char (character : Char)
  /-- A UTF-16 code unit. -/
  | unit (code : Nat)
  deriving DecidableEq, Repr

def isHigh (code : Nat) : Bool := 0xD800 ≤ code && code < 0xDC00

def isLow (code : Nat) : Bool := 0xDC00 ≤ code && code < 0xE000

/-- The character that a pair of surrogates stands for. -/
def pair (high low : Nat) : Char := Char.ofNat (0x10000 + (high - 0xD800) * 0x400 + (low - 0xDC00))

/-- The characters of a quoted text, unless a surrogate stands alone. -/
def join : List Part → Option (List Char)
  | [] => some []
  | .char character :: rest => (join rest).map (character :: ·)
  | .unit code :: rest =>
    if isHigh code then
      match rest with
      | .unit low :: rest => if isLow low then (join rest).map (pair code low :: ·) else none
      | _ => none
    else if isLow code then none
    else (join rest).map (Char.ofNat code :: ·)

/-- The character that a letter behind a backslash stands for. -/
def escaped? : Char → Option Char
  | '"' => some '"'
  | '\\' => some '\\'
  | '/' => some '/'
  | 'b' => some '\x08'
  | 'f' => some '\x0c'
  | 'n' => some '\n'
  | 'r' => some '\r'
  | 't' => some '\t'
  | _ => none

def hexDigit? (character : Char) : Option Nat :=
  if '0' ≤ character && character ≤ '9' then some (character.toNat - '0'.toNat)
  else if 'a' ≤ character && character ≤ 'f' then some (character.toNat - 'a'.toNat + 10)
  else if 'A' ≤ character && character ≤ 'F' then some (character.toNat - 'A'.toNat + 10)
  else none

/-- The code unit that four hexadecimal digits give. -/
def code? (digits : List Char) : Option Nat :=
  if digits.length = 4 then
    digits.foldlM (fun code digit => (hexDigit? digit).map (code * 16 + ·)) 0
  else none

/-- Reads what follows a backslash. -/
def readEscape (text : List Char) : Option (Read Part text) :=
  match text with
  | [] => none
  | letter :: rest =>
    if letter = 'u' then (code? (rest.take 4)).map fun code => .take (.unit code) letter rest 4
    else (escaped? letter).map fun character => .take (.char character) letter rest 0

/-- Reads up to the closing quote, past it, and gives what stands before it. Control characters must
be escaped. -/
def readParts (text : List Char) : Option (Read (List Part) text) :=
  match text with
  | [] => none
  | first :: rest =>
    if first = '"' then some (.take [] first rest 0)
    else if first = '\\' then do
      let escape ← readEscape rest
      let more ← readParts escape.rest
      return (escape.join more more.value).behind first (escape.value :: more.value)
    else if first.toNat < 0x20 then none
    else do
      let more ← readParts rest
      return more.behind first (.char first :: more.value)
termination_by text.length
decreasing_by
  · exact Nat.lt_succ_of_lt escape.shorter
  · exact Nat.lt_succ_self _

end Quoted

inductive Token where
  | openList
  | closeList
  | openObject
  | closeObject
  | comma
  | colon
  | null
  | bool (value : Bool)
  | number (numeral : String)
  | text (value : Option String)
  deriving DecidableEq, Repr

namespace Token

def isSpace (character : Char) : Bool := [' ', '\t', '\n', '\r'].contains character

def mark? : Char → Option Token
  | '[' => some .openList
  | ']' => some .closeList
  | '\x7b' => some .openObject
  | '\x7d' => some .closeObject
  | ',' => some .comma
  | ':' => some .colon
  | _ => none

/-- The tokens that are words. -/
def words : List (String × Token) :=
  [("null", .null), ("true", .bool true), ("false", .bool false)]

/-- Reads one token. -/
def read (text : List Char) : Option (Read Token text) :=
  match text with
  | [] => none
  | first :: rest =>
    if let some token := mark? first then some (.take token first rest 0)
    else if first = '"' then
      (Quoted.readParts rest).map fun quoted =>
        quoted.behind first (.text ((Quoted.join quoted.value).map String.ofList))
    else if Numeral.isPart first then
      let parts := rest.takeWhile Numeral.isPart
      if Numeral.isNumeral (first :: parts) then
        some (.take (.number (String.ofList (first :: parts))) first rest parts.length)
      else none
    else
      match words.find? fun (word, _) => word.toList.isPrefixOf (first :: rest) with
      | some (word, token) => some (.take token first rest (word.length - 1))
      | none => none

/-- The tokens of a whole text. -/
def readAll (text : List Char) : Option (List Token) :=
  match text with
  | [] => some []
  | first :: rest =>
    if isSpace first then readAll rest
    else
      match read (first :: rest) with
      | none => none
      | some token => (readAll token.rest).map (token.value :: ·)
termination_by text.length
decreasing_by
  · exact Nat.lt_succ_self _
  · exact token.shorter

end Token

end Json

/-- A JSON value. An object keeps its fields as they are written, repeated keys included. -/
inductive Json where
  | null
  | bool (value : Bool)
  /-- A number, as it is written. -/
  | number (numeral : String)
  /-- A text, or nothing if half of a surrogate pair is escaped without the other half. -/
  | text (value : Option String)
  | list (items : List Json)
  | object (fields : List (Option String × Json))
  deriving Inhabited

namespace Json

/-- A list or an object that is still open, with what has been read of it, last things first. -/
inductive Frame where
  | list (items : List Json)
  | object (fields : List (Option String × Json))
  /-- An object with a key whose value is still to come. -/
  | field (fields : List (Option String × Json)) (key : Option String)

/-- What may come next. -/
inductive Expected where
  | value
  | valueOrEnd
  | key
  | keyOrEnd
  | colon
  | commaOrEnd

inductive Progress where
  | reading (frames : List Frame) (expected : Expected)
  | finished (value : Json)

namespace Progress

/-- Puts a value where it is waited for. -/
def deliver (value : Json) : List Frame → Option Progress
  | [] => some (.finished value)
  | .list items :: outer => some (.reading (.list (value :: items) :: outer) .commaOrEnd)
  | .field fields key :: outer =>
    some (.reading (.object ((key, value) :: fields) :: outer) .commaOrEnd)
  | .object _ :: _ => none

/-- Closes the innermost list or object. -/
def close (frames : List Frame) (token : Token) : Option Progress :=
  match frames, token with
  | .list items :: outer, .closeList => deliver (.list items.reverse) outer
  | .object fields :: outer, .closeObject => deliver (.object fields.reverse) outer
  | _, _ => none

/-- Begins a value. -/
def begin (frames : List Frame) : Token → Option Progress
  | .openList => some (.reading (.list [] :: frames) .valueOrEnd)
  | .openObject => some (.reading (.object [] :: frames) .keyOrEnd)
  | .null => deliver .null frames
  | .bool value => deliver (.bool value) frames
  | .number numeral => deliver (.number numeral) frames
  | .text value => deliver (.text value) frames
  | .closeList | .closeObject | .comma | .colon => none

/-- Reads the key of a field. -/
def beginField (frames : List Frame) (token : Token) : Option Progress :=
  match frames, token with
  | .object fields :: outer, .text key => some (.reading (.field fields key :: outer) .colon)
  | _, _ => none

/-- Goes on to the next item or field. -/
def next (frames : List Frame) : Option Progress :=
  match frames with
  | .list _ :: _ => some (.reading frames .value)
  | .object _ :: _ => some (.reading frames .key)
  | _ => none

def step (progress : Progress) (token : Token) : Option Progress :=
  match progress with
  | .finished _ => none
  | .reading frames expected =>
    match expected, token with
    | .value, token => begin frames token
    | .valueOrEnd, .closeList => close frames .closeList
    | .valueOrEnd, token => begin frames token
    | .key, token => beginField frames token
    | .keyOrEnd, .closeObject => close frames .closeObject
    | .keyOrEnd, token => beginField frames token
    | .colon, .colon => some (.reading frames .value)
    | .colon, _ => none
    | .commaOrEnd, .comma => next frames
    | .commaOrEnd, token => close frames token

end Progress

/-- The value that a text is, with nothing but blanks around it. -/
def parse (text : String) : Option Json := do
  let tokens ← Token.readAll text.toList
  match ← tokens.foldlM Progress.step (.reading [] .value) with
  | .finished value => return value
  | .reading _ _ => none

end Json

end ScopedNames
