set_option autoImplicit false

namespace ScopedNames.Text

/-- The code points with the White_Space property, as closed ranges. -/
def blankRanges : List (Nat × Nat) :=
  [(0x09, 0x0D), (0x20, 0x20), (0x85, 0x85), (0xA0, 0xA0), (0x1680, 0x1680), (0x2000, 0x200A),
    (0x2028, 0x2029), (0x202F, 0x202F), (0x205F, 0x205F), (0x3000, 0x3000)]

def isBlank (character : Char) : Bool :=
  blankRanges.any fun (low, high) => low ≤ character.toNat && character.toNat ≤ high

def trimLeft (text : List Char) : List Char := text.dropWhile isBlank

def trimRight (text : List Char) : List Char := (trimLeft text.reverse).reverse

/-- A text without the blanks it begins and ends with. -/
def trim (text : List Char) : List Char := trimRight (trimLeft text)

/-- Puts a character in front of the first piece. -/
def extend (character : Char) : List (List Char) → List (List Char)
  | [] => [[character]]
  | piece :: pieces => (character :: piece) :: pieces

/-- The pieces of a text of which `passed` more characters belong to a mark already found. -/
def splitPast (mark : List Char) : Nat → List Char → List (List Char)
  | _, [] => [[]]
  | passed + 1, _ :: text => splitPast mark passed text
  | 0, character :: text =>
    if mark.isPrefixOf (character :: text) then [] :: splitPast mark (mark.length - 1) text
    else extend character (splitPast mark 0 text)

/-- The pieces between the occurrences of a mark. The empty mark occurs before every character and
at the end. -/
def split (mark text : List Char) : List (List Char) :=
  if mark = [] then [] :: (text.map fun character => [character]) ++ [[]] else splitPast mark 0 text

/-- How many characters two texts share at their beginnings. -/
def sharedLength (first second : List Char) : Nat :=
  ((first.zip second).takeWhile fun (x, y) => x = y).length

/-- What is left of a text from a position on, if the position is in the text or right behind it. -/
def suffix? (text : List Char) (position : Nat) : Option (List Char) :=
  if position ≤ text.length then some (text.drop position) else none

/-- Whether one edit leads from a text to one that is not shorter. After the shared beginning, the
edit can only be at the first character left. -/
def oneEditUp (shorter longer : List Char) : Option Bool := do
  if longer.length - shorter.length > 1 then return false
  let shared := sharedLength shorter longer
  if shorter.length = longer.length then
    if shared < shorter.length then
      return (← suffix? shorter (shared + 1)) = (← suffix? longer (shared + 1))
    else return false
  else return (← suffix? shorter shared) = (← suffix? longer (shared + 1))

/-- Whether one insertion, removal or replacement of a character leads from one text to the
other. -/
def differByOneEdit (first second : List Char) : Option Bool :=
  if first.length ≤ second.length then oneEditUp first second else oneEditUp second first

/-- Whether two texts are equal once capital letters of ASCII are written small. -/
def sameLetters (first second : List Char) : Bool :=
  first.map Char.toLower = second.map Char.toLower

/-- Whether one text is probably a slip for the other. -/
def isSlip (first second : List Char) : Option Bool :=
  if sameLetters first second then some true else differByOneEdit first second

section Shared

variable {x y : Char} {first second : List Char}

@[simp] theorem sharedLength_cons_self :
    sharedLength (x :: first) (x :: second) = sharedLength first second + 1 := by
  simp [sharedLength]

theorem sharedLength_of_apart (apart : x ≠ y) :
    sharedLength (x :: first) (y :: second) = 0 := by
  simp [sharedLength, apart]

@[simp] theorem suffix?_zero : suffix? first 0 = some first := by
  simp [suffix?]

@[simp] theorem suffix?_cons_succ (position : Nat) :
    suffix? (x :: first) (position + 1) = suffix? first position := by
  simp [suffix?]

end Shared

end ScopedNames.Text
