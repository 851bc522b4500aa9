import Mathlib.Control.Monad.Basic
import ScopedNames.Proofs.Path.RoundTrip
import ScopedNames.Proofs.Text.Pieces

set_option autoImplicit false

/- What a text means as a path, said without a procedure: how it falls into pieces, which of them
stand for where it starts, and which must be names. Reading a text comes to exactly this, and where
there is no path it reports the first piece that is at fault. -/
namespace ScopedNames

namespace Spelling

/-- The parts of a text between its separators, without the blanks around them. -/
def Divides (spelling : Spelling) (text : List Char) (pieces : List String) : Prop :=
  ∃ parts, Text.Cuts spelling.separator.toList text parts ∧
    pieces = parts.map fun part => String.ofList (Text.trim part)

/-- The keywords at the front of some pieces, as the root they stand for, and the pieces after
them. -/
inductive Begins (spelling : Spelling) : List String → Root → List String → Prop
  | root (rest : List String) : Begins spelling (spelling.rootWord :: rest) .absolute rest
  | self (rest : List String) (apart : spelling.selfWord ≠ spelling.rootWord) :
      Begins spelling (spelling.selfWord :: rest) .here rest
  /-- All the words for a level that come first count. -/
  | climb (levels : Nat) (positive : 0 < levels) (rest : List String)
      (rootApart : spelling.superWord ≠ spelling.rootWord)
      (selfApart : spelling.superWord ≠ spelling.selfWord)
      (all : rest.head? ≠ some spelling.superWord) :
      Begins spelling (List.replicate levels spelling.superWord ++ rest) (.up levels positive) rest
  | bare (pieces : List String) (free : ∀ first ∈ pieces.head?, spelling.isKeyword first = false) :
      Begins spelling pieces .here pieces

/-- Where a text starts, the segments that come after, and all pieces of it that must be names. -/
inductive Layout (spelling : Spelling) (text : List Char) :
    Root → List String → List String → Prop
  /-- A separator is taken off at the very beginning of the text only. Behind a blank it divides the
  text as any other does. -/
  | external {body : List Char} {name : String} {segments : List String}
      (marked : text = spelling.separator.toList ++ body)
      (divided : spelling.Divides body (name :: segments)) :
      Layout spelling text (.external name) segments (name :: segments)
  | plain {pieces segments : List String} {root : Root}
      (unmarked : ¬ spelling.separator.toList <+: text)
      (divided : spelling.Divides text pieces) (begins : spelling.Begins pieces root segments) :
      Layout spelling text root segments segments

/-- What a text comes to as a path. -/
inductive Reads (spelling : Spelling) (text : String) : Except PathError Path → Prop
  | blank (blanks : ∀ character ∈ text.toList, Text.isBlank character) :
      Reads spelling text (.error .blank)
  | path {root : Root} {modules names : List Name} {name : Name}
      (unblank : ¬ ∀ character ∈ text.toList, Text.isBlank character)
      (layout : spelling.Layout text.toList root (modules ++ [name]) names)
      (named : ∀ piece ∈ names, spelling.IsName piece) :
      Reads spelling text (.ok ⟨root, modules, name⟩)
  | emptySegment {root : Root} {segments front back : List String}
      (unblank : ¬ ∀ character ∈ text.toList, Text.isBlank character)
      (layout : spelling.Layout text.toList root segments (front ++ "" :: back))
      (named : ∀ piece ∈ front, spelling.IsName piece) :
      Reads spelling text (.error (.emptySegment text))
  | misplacedKeyword {root : Root} {segments front back : List String} {word : String}
      (unblank : ¬ ∀ character ∈ text.toList, Text.isBlank character)
      (layout : spelling.Layout text.toList root segments (front ++ word :: back))
      (named : ∀ piece ∈ front, spelling.IsName piece)
      (present : word ≠ "") (keyword : spelling.isKeyword word) :
      Reads spelling text (.error (.misplacedKeyword word text))
  | noSegment {root : Root} {names : List String}
      (unblank : ¬ ∀ character ∈ text.toList, Text.isBlank character)
      (layout : spelling.Layout text.toList root [] names)
      (named : ∀ piece ∈ names, spelling.IsName piece) :
      Reads spelling text (.error (.noSegment text))

variable {spelling : Spelling} {text : String} {pieces segments names front back : List String}
  {piece word : String} {root : Root} {reason : PathError}

section Faults

theorem mapM_segment_of_fault (named : ∀ piece ∈ front, spelling.IsName piece)
    (fault : spelling.segment text piece = .error reason) :
    (front ++ piece :: back).mapM (spelling.segment text) = .error reason := by
  induction front with
  | nil =>
    rw [List.nil_append, List.mapM_cons, fault]
    rfl
  | cons name front ih =>
    rw [List.cons_append, List.mapM_cons, segment_of_name (named name List.mem_cons_self),
      ih fun other later => named other (List.mem_cons_of_mem _ later)]
    rfl

theorem segment_empty (spelling : Spelling) (text : String) :
    spelling.segment text "" = .error (.emptySegment text) := if_pos rfl

theorem segment_keyword (present : word ≠ "") (keyword : spelling.isKeyword word) (text : String) :
    spelling.segment text word = .error (.misplacedKeyword word text) := by
  rw [segment, if_neg present, if_pos keyword]

/-- Either all pieces are names, or one of them is the first that is not. -/
theorem named_or_fault (spelling : Spelling) (pieces : List String) :
    (∀ piece ∈ pieces, spelling.IsName piece) ∨ ∃ front piece back,
      pieces = front ++ piece :: back ∧ (∀ piece ∈ front, spelling.IsName piece) ∧
        (piece = "" ∨ piece ≠ "" ∧ spelling.isKeyword piece) := by
  induction pieces with
  | nil => exact .inl nofun
  | cons first rest ih =>
    by_cases empty : first = ""
    · exact .inr ⟨[], first, rest, rfl, nofun, .inl empty⟩
    by_cases keyword : spelling.isKeyword first
    · exact .inr ⟨[], first, rest, rfl, nofun, .inr ⟨empty, keyword⟩⟩
    have name : spelling.IsName first := ⟨empty, Bool.eq_false_iff.mpr keyword⟩
    rcases ih with named | ⟨front, piece, back, rfl, named, fault⟩
    · exact .inl (List.forall_mem_cons.mpr ⟨name, named⟩)
    · exact .inr ⟨first :: front, piece, back, rfl, List.forall_mem_cons.mpr ⟨name, named⟩, fault⟩

end Faults

section Begins

theorem takeWhile_levels (all : pieces.head? ≠ some word) (levels : Nat) :
    (List.replicate levels word ++ pieces).takeWhile (· = word) = List.replicate levels word := by
  have stops : pieces.takeWhile (· = word) = [] := by
    cases pieces with
    | nil => rfl
    | cons first rest =>
      have other : first ≠ word := fun same => all (congrArg some same)
      simp [other]
  rw [List.takeWhile_append_of_pos (by simp), stops, List.append_nil]

theorem isKeyword_eq_false_iff : spelling.isKeyword word = false ↔
    word ≠ spelling.rootWord ∧ word ≠ spelling.selfWord ∧ word ≠ spelling.superWord := by
  simp [isKeyword, and_assoc]

theorem Begins.readRoot_eq (begins : spelling.Begins pieces root segments) :
    spelling.readRoot pieces = (root, segments) := by
  cases begins with
  | root rest => exact readRoot_absolute segments
  | self rest apart => rw [readRoot, if_neg apart, if_pos rfl]
  | climb levels positive rest rootApart selfApart all =>
    have counted := takeWhile_levels all levels
    have heads : ∀ first ∈ (List.replicate levels spelling.superWord ++ segments).head?,
        first = spelling.superWord := by
      obtain ⟨fewer, rfl⟩ := Nat.exists_eq_succ_of_ne_zero (Nat.ne_of_gt positive)
      simp [List.replicate_succ]
    rw [readRoot_of_head (fun first begins => heads first begins ▸ rootApart)
      (fun first begins => heads first begins ▸ selfApart), counted, List.length_replicate,
      List.drop_left' List.length_replicate, Root.climb, dif_pos positive]
  | bare _ free =>
    have apart := fun first begins => isKeyword_eq_false_iff.mp (free first begins)
    have counted : pieces.takeWhile (· = spelling.superWord) = [] :=
      takeWhile_levels (fun level => (apart _ level).2.2 rfl) 0
    rw [readRoot_of_head (fun first begins => (apart first begins).1)
      (fun first begins => (apart first begins).2.1), counted]
    rfl

theorem exists_levels (word : String) (pieces : List String) : ∃ levels rest,
    pieces = List.replicate levels word ++ rest ∧ rest.head? ≠ some word := by
  induction pieces with
  | nil => exact ⟨0, [], rfl, nofun⟩
  | cons first rest ih =>
    by_cases level : first = word
    · obtain ⟨levels, others, rfl, all⟩ := ih
      exact ⟨levels + 1, others, by rw [level, List.replicate_succ, List.cons_append], all⟩
    · exact ⟨0, first :: rest, rfl, fun same => level (Option.some.inj same)⟩

theorem exists_begins (spelling : Spelling) (pieces : List String) :
    ∃ root segments, spelling.Begins pieces root segments := by
  cases pieces with
  | nil => exact ⟨.here, [], .bare [] nofun⟩
  | cons first rest =>
    by_cases fromRoot : first = spelling.rootWord
    · exact ⟨.absolute, rest, fromRoot ▸ .root rest⟩
    by_cases fromSelf : first = spelling.selfWord
    · subst fromSelf
      exact ⟨.here, rest, .self rest fromRoot⟩
    obtain ⟨levels, others, same, all⟩ := exists_levels spelling.superWord (first :: rest)
    cases levels with
    | zero =>
      have noLevel : first ≠ spelling.superWord := by
        rintro rfl
        exact all (congrArg List.head? same).symm
      refine ⟨.here, first :: rest, .bare _ fun word begins => ?_⟩
      obtain rfl : first = word := Option.some.inj begins
      exact isKeyword_eq_false_iff.mpr ⟨fromRoot, fromSelf, noLevel⟩
    | succ levels =>
      obtain rfl : first = spelling.superWord := by
        rw [List.replicate_succ, List.cons_append] at same
        exact (List.cons.inj same).1
      rw [same]
      exact ⟨_, others, .climb (levels + 1) (Nat.succ_pos levels) others fromRoot fromSelf all⟩

end Begins

section Layout

variable (separated : spelling.separator ≠ "")

include separated

theorem Divides.pieces_eq {body : List Char} (divided : spelling.Divides body pieces) :
    spelling.pieces body = pieces := by
  obtain ⟨parts, cuts, rfl⟩ := divided
  rw [Spelling.pieces, (Text.split_eq_iff (separator_toList_ne_nil separated)).mpr cuts]

theorem divides_pieces (body : List Char) : spelling.Divides body (spelling.pieces body) :=
  ⟨_, Text.cuts_split (separator_toList_ne_nil separated) body, rfl⟩

theorem exists_layout (text : List Char) :
    ∃ root segments names, spelling.Layout text root segments names := by
  by_cases marked : spelling.separator.toList <+: text
  · obtain ⟨body, joined⟩ := marked
    obtain ⟨parts, cuts, _⟩ := divides_pieces separated body
    obtain ⟨first, rest, rfl⟩ := List.exists_cons_of_ne_nil cuts.ne_nil
    exact ⟨_, _, _, .external joined.symm ⟨_, cuts, rfl⟩⟩
  · obtain ⟨root, segments, begins⟩ := exists_begins spelling (spelling.pieces text)
    exact ⟨root, segments, segments, .plain marked (divides_pieces separated text) begins⟩

theorem readStart_marked {body : List Char} {name : String}
    (marked : text.toList = spelling.separator.toList ++ body)
    (divided : spelling.Divides body (name :: segments)) :
    spelling.readStart text =
      (spelling.segment text name).map fun name => (.external name, segments) := by
  have front : spelling.separator.toList.isPrefixOf text.toList = true :=
    List.isPrefixOf_iff_prefix.mpr (marked ▸ List.prefix_append _ _)
  rw [readStart, if_pos front, marked, List.drop_left, divided.pieces_eq separated]
  rfl

theorem readStart_unmarked (unmarked : ¬ spelling.separator.toList <+: text.toList)
    (divided : spelling.Divides text.toList pieces)
    (begins : spelling.Begins pieces root segments) :
    spelling.readStart text = .ok (root, segments) := by
  have front : ¬ spelling.separator.toList.isPrefixOf text.toList = true :=
    fun found => unmarked (List.isPrefixOf_iff_prefix.mp found)
  rw [readStart, if_neg front, divided.pieces_eq separated, begins.readRoot_eq]

end Layout

section Parse

theorem all_isBlank_eq_false {text : List Char}
    (unblank : ¬ ∀ character ∈ text, Text.isBlank character) : text.all Text.isBlank = false :=
  Bool.eq_false_iff.mpr fun blanks => unblank (List.all_eq_true.mp blanks)

theorem parse_of_blank (blanks : ∀ character ∈ text.toList, Text.isBlank character) :
    Path.parse spelling text = .error .blank := by
  rw [Path.parse, if_pos (List.all_eq_true.mpr blanks)]
  rfl

variable (separated : spelling.separator ≠ "")
  (unblank : ¬ ∀ character ∈ text.toList, Text.isBlank character)

include unblank in
theorem parse_of_start (start : spelling.readStart text = .ok (root, segments)) :
    Path.parse spelling text = (segments.mapM (spelling.segment text)).bind fun segments =>
      (Path.ofSegments? root segments).elim (.error (.noSegment text)) .ok := by
  simp only [Path.parse, all_isBlank_eq_false unblank, start, bind, Except.bind, pure, Except.pure,
    Bool.false_eq_true, if_false]
  cases segments.mapM (spelling.segment text) with
  | error reason => rfl
  | ok segments =>
    dsimp only
    cases Path.ofSegments? root segments <;> rfl

include unblank in
theorem parse_of_start_error (start : spelling.readStart text = .error reason) :
    Path.parse spelling text = .error reason := by
  simp only [Path.parse, all_isBlank_eq_false unblank, start, bind, Except.bind, Bool.false_eq_true,
    if_false]

include separated unblank

/-- Where all that must be names are names, the segments make up the path. -/
theorem Layout.parse_of_named (layout : spelling.Layout text.toList root segments names)
    (named : ∀ piece ∈ names, spelling.IsName piece) :
    Path.parse spelling text =
      (Path.ofSegments? root segments).elim (.error (.noSegment text)) .ok := by
  cases layout with
  | @external body name _ marked divided =>
    have start := readStart_marked separated marked divided
    rw [segment_of_name (named name List.mem_cons_self)] at start
    rw [parse_of_start unblank start,
      mapM_segment_of_named fun piece later => named piece (List.mem_cons_of_mem _ later)]
    rfl
  | plain unmarked divided begins =>
    rw [parse_of_start unblank (readStart_unmarked separated unmarked divided begins),
      mapM_segment_of_named named]
    rfl

/-- The first piece that is at fault decides, whichever pieces come after it. -/
theorem Layout.parse_of_fault (layout : spelling.Layout text.toList root segments names)
    (parted : names = front ++ piece :: back) (named : ∀ piece ∈ front, spelling.IsName piece)
    (fault : spelling.segment text piece = .error reason) :
    Path.parse spelling text = .error reason := by
  cases layout with
  | @external body name _ marked divided =>
    have start := readStart_marked separated marked divided
    cases front with
    | nil =>
      obtain ⟨rfl, rfl⟩ := List.cons.inj parted
      rw [fault] at start
      exact parse_of_start_error unblank start
    | cons first front =>
      rw [List.cons_append] at parted
      obtain ⟨rfl, rfl⟩ := List.cons.inj parted
      rw [segment_of_name (named name List.mem_cons_self)] at start
      rw [parse_of_start unblank start, mapM_segment_of_fault
        (fun other later => named other (List.mem_cons_of_mem _ later)) fault]
      rfl
  | plain unmarked divided begins =>
    subst parted
    rw [parse_of_start unblank (readStart_unmarked separated unmarked divided begins),
      mapM_segment_of_fault named fault]
    rfl

end Parse

section Reads

variable {result : Except PathError Path} (separated : spelling.separator ≠ "")

include separated

theorem reads_parse (text : String) : spelling.Reads text (Path.parse spelling text) := by
  by_cases unblank : ∀ character ∈ text.toList, Text.isBlank character
  · rw [parse_of_blank unblank]
    exact .blank unblank
  obtain ⟨root, segments, names, layout⟩ := exists_layout separated text.toList
  rcases named_or_fault spelling names with
    named | ⟨front, piece, back, rfl, named, rfl | ⟨present, keyword⟩⟩
  · rw [layout.parse_of_named separated unblank named]
    rcases List.eq_nil_or_concat segments with rfl | ⟨modules, name, rfl⟩
    · exact .noSegment unblank layout named
    · rw [List.concat_eq_append] at layout ⊢
      rw [Path.ofSegments?_concat]
      exact .path unblank layout named
  · rw [layout.parse_of_fault separated unblank rfl named (segment_empty spelling text)]
    exact .emptySegment unblank layout named
  · rw [layout.parse_of_fault separated unblank rfl named (segment_keyword present keyword text)]
    exact .misplacedKeyword unblank layout named present keyword

theorem Reads.parse_eq (reads : spelling.Reads text result) :
    Path.parse spelling text = result := by
  cases reads with
  | blank blanks => exact parse_of_blank blanks
  | path unblank layout named =>
    rw [layout.parse_of_named separated unblank named, Path.ofSegments?_concat]
    rfl
  | emptySegment unblank layout named =>
    exact layout.parse_of_fault separated unblank rfl named (segment_empty spelling text)
  | misplacedKeyword unblank layout named present keyword =>
    exact layout.parse_of_fault separated unblank rfl named (segment_keyword present keyword text)
  | noSegment unblank layout named =>
    exact layout.parse_of_named separated unblank named

end Reads

end Spelling

namespace Path

/-- Reading accepts what the grammar says is a path, as that path, and otherwise reports what the
grammar says is at fault first. -/
theorem parse_eq_iff_reads {spelling : Spelling} (separated : spelling.separator ≠ "")
    {text : String} {result : Except PathError Path} :
    Path.parse spelling text = result ↔ spelling.Reads text result := by
  constructor
  · rintro rfl
    exact Spelling.reads_parse separated text
  · exact Spelling.Reads.parse_eq separated

/-- Three dots are a separator and a dot of the name behind it, and a word for a level is at fault
behind a name before an empty piece is. -/
theorem crooked_shelf_read : dotted.separator ≠ "" ∧
    dotted.Reads "up.. up..left aisle...shelf" (.ok ⟨.up 2 Nat.two_pos, ["left aisle"], ".shelf"⟩) ∧
    dotted.Reads "..aisle..up.. " (.error (.misplacedKeyword "up" "..aisle..up.. ")) := by
  have separated : dotted.separator ≠ "" := by decide
  exact ⟨separated, (parse_eq_iff_reads separated).mp (by decide +kernel),
    (parse_eq_iff_reads separated).mp (by decide +kernel)⟩

end Path

end ScopedNames
