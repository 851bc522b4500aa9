import ScopedNames.Proofs.Path.Grammar
import ScopedNames.Proofs.Text.Pieces

set_option autoImplicit false

namespace ScopedNames

namespace Spelling

/-- The text behind the separator it may begin with. -/
def body (spelling : Spelling) (text : List Char) : List Char :=
  if spelling.separator.toList.isPrefixOf text then text.drop spelling.separator.toList.length
  else text

/-- A text that begins with the word for here, and not with a separator. -/
def OpensHere (spelling : Spelling) (text : String) : Prop :=
  ¬ spelling.separator.toList <+: text.toList ∧ spelling.selfWord ≠ spelling.rootWord ∧
    (spelling.pieces text.toList).head? = some spelling.selfWord

instance (spelling : Spelling) (text : String) : Decidable (spelling.OpensHere text) :=
  inferInstanceAs (Decidable (_ ∧ _))

/-- The word for here, where a text begins with it. Printing leaves it out. -/
def passed (spelling : Spelling) (text : String) : List String :=
  if spelling.OpensHere text then [spelling.selfWord] else []

variable {spelling : Spelling} {text : String} {path : Path} {pieces : List String}

theorem body_marked (spelling : Spelling) (rest : List Char) :
    spelling.body (spelling.separator.toList ++ rest) = rest := by
  rw [body, if_pos (List.isPrefixOf_iff_prefix.mpr (List.prefix_append _ _)), List.drop_left]

theorem body_unmarked {text : List Char} (unmarked : ¬ spelling.separator.toList <+: text) :
    spelling.body text = text := by
  rw [body, if_neg fun found => unmarked (List.isPrefixOf_iff_prefix.mp found)]

theorem passed_marked (marked : spelling.separator.toList <+: text.toList) :
    spelling.passed text = [] := if_neg fun opens => opens.1 marked

theorem passed_unmarked (unmarked : ¬ spelling.separator.toList <+: text.toList) :
    spelling.passed text = if spelling.selfWord ≠ spelling.rootWord ∧
      (spelling.pieces text.toList).head? = some spelling.selfWord
      then [spelling.selfWord] else [] := by
  simp only [passed, OpensHere, unmarked, not_false_eq_true, true_and]

/-- Some pieces are the words of the path they are read as, behind the word for here if they begin
with that. -/
theorem Begins.pieces_eq (begins : spelling.Begins pieces path.root path.segments) :
    pieces = (if spelling.selfWord ≠ spelling.rootWord ∧ pieces.head? = some spelling.selfWord
      then [spelling.selfWord] else []) ++ path.words spelling := by
  obtain ⟨root, modules, name⟩ := path
  rw [Path.words, Path.segments]
  rw [Path.segments] at begins
  generalize modules ++ [name] = segments at begins
  cases begins with
  | root rest =>
    have other : ¬ (spelling.selfWord ≠ spelling.rootWord ∧
        (spelling.rootWord :: segments).head? = some spelling.selfWord) :=
      fun found => found.1 (Option.some.inj found.2).symm
    rw [if_neg other]
    rfl
  | self rest apart =>
    rw [if_pos ⟨apart, rfl⟩]
    rfl
  | climb levels positive rest rootApart selfApart all =>
    obtain ⟨fewer, rfl⟩ := Nat.exists_eq_succ_of_ne_zero (Nat.ne_of_gt positive)
    rw [if_neg fun found => selfApart (Option.some.inj found.2)]
    rfl
  | bare _ free =>
    have other : ¬ (spelling.selfWord ≠ spelling.rootWord ∧
        pieces.head? = some spelling.selfWord) :=
      fun found => (isKeyword_eq_false_iff.mp (free _ found.2)).2.1 rfl
    rw [if_neg other]
    rfl

/-- Where keywords stand for the root, no separator leads the path, and its segments are all its
names. -/
theorem Begins.plain (begins : spelling.Begins pieces path.root path.segments) :
    path.lead spelling = "" ∧ path.names = path.segments := by
  rw [Path.lead, Path.names]
  cases start : path.root with
  | absolute | here | up _ _ => exact ⟨rfl, rfl⟩
  | external name =>
    rw [start] at begins
    cases begins

theorem Begins.root_eq_here (begins : spelling.Begins pieces path.root path.segments)
    (first : pieces.head? = some spelling.selfWord)
    (apart : spelling.selfWord ≠ spelling.rootWord) : path.root = .here := by
  obtain ⟨rest, rfl⟩ := List.head?_eq_some_iff.mp first
  have read := begins.readRoot_eq
  rw [readRoot, if_neg apart, if_pos rfl] at read
  exact (Prod.mk.inj read).1.symm

/-- A text that is read as a path holds its words, behind what leads them. -/
theorem Reads.divides_body (separated : spelling.separator ≠ "")
    (reads : spelling.Reads text (.ok path)) :
    text.toList = (path.lead spelling).toList ++ spelling.body text.toList ∧
      spelling.Divides (spelling.body text.toList)
        (spelling.passed text ++ path.words spelling) := by
  cases reads with
  | @path root modules names name unblank layout named =>
    cases layout with
    | @external rest start _ marked divided =>
      rw [passed_marked (marked ▸ List.prefix_append _ _), marked, body_marked]
      exact ⟨rfl, divided⟩
    | @plain pieces _ _ unmarked divided begins =>
      have begins : spelling.Begins pieces (Path.mk root modules name).root
        (Path.mk root modules name).segments := begins
      rw [body_unmarked unmarked, begins.plain.1, passed_unmarked unmarked,
        divided.pieces_eq separated, ← begins.pieces_eq]
      exact ⟨rfl, divided⟩

/-- What a path that was read is written with can be read as where it starts. -/
theorem Begins.words (begins : spelling.Begins pieces path.root path.segments)
    (named : ∀ segment ∈ path.segments, spelling.IsName segment) :
    spelling.Begins (path.words spelling) path.root path.segments := by
  obtain ⟨root, modules, name⟩ := path
  rw [Path.words, Path.segments]
  rw [Path.segments] at begins named
  generalize modules ++ [name] = segments at begins named
  cases begins with
  | root rest => exact .root segments
  | self rest apart =>
    exact .bare segments fun first begins => (named first (List.mem_of_mem_head? begins)).2
  | climb levels positive rest rootApart selfApart all =>
    exact .climb levels positive segments rootApart selfApart all
  | bare _ free => exact .bare _ free

/-- The start of a path that was read is a name behind a separator, or what keywords stand for. -/
theorem Reads.start_cases (reads : spelling.Reads text (.ok path)) :
    (∀ name ∈ path.names, spelling.IsName name) ∧
      ((∃ name, path.root = .external name ∧ spelling.separator.toList <+: text.toList) ∨
        ∃ pieces, spelling.Divides text.toList pieces ∧
          spelling.Begins pieces path.root path.segments) := by
  cases reads with
  | @path root modules names name unblank layout named =>
    cases layout with
    | external marked divided =>
      exact ⟨named, .inl ⟨_, rfl, marked ▸ List.prefix_append _ _⟩⟩
    | @plain pieces _ _ unmarked divided begins =>
      have begins : spelling.Begins pieces (Path.mk root modules name).root
        (Path.mk root modules name).segments := begins
      exact ⟨begins.plain.2 ▸ named, .inr ⟨pieces, divided, begins⟩⟩

section Words

variable (separated : spelling.separator ≠ "") (reads : spelling.Reads text (.ok path))

include separated reads

/-- Every word of a path that was read is what trimming left of a part without separators. -/
theorem Reads.words_trimmed : ∀ word ∈ path.words spelling, Text.IsTrimmed word.toList ∧
    ¬ spelling.separator.toList <:+: word.toList := by
  intro word listed
  obtain ⟨_, parts, cuts, same⟩ := reads.divides_body separated
  have piece : word ∈ spelling.passed text ++ path.words spelling :=
    List.mem_append_right _ listed
  rw [same] at piece
  obtain ⟨part, member, rfl⟩ := List.mem_map.mp piece
  have unmarked := cuts.absent (separator_toList_ne_nil separated) part member
  rw [String.toList_ofList]
  exact ⟨Text.isTrimmed_trim part, fun found => unmarked (found.trans (Text.trim_isInfix part))⟩

/-- The first word of a path has a character that is not blank. -/
theorem Reads.print_unblank (present : ∀ word ∈ path.words spelling, word ≠ "") :
    ¬ ∀ character ∈ (path.print spelling).toList, Text.isBlank character := by
  intro blanks
  obtain ⟨first, rest, several⟩ := List.exists_cons_of_ne_nil (path.words_ne_nil spelling)
  have listed : first ∈ path.words spelling := several ▸ List.mem_cons_self
  obtain ⟨tail, joined⟩ := exists_intercalate spelling.separator first rest
  cases letters : first.toList with
  | nil => exact present first listed (String.toList_eq_nil_iff.mp letters)
  | cons character others =>
    have printed : character ∈ (path.print spelling).toList := by
      rw [Path.print, String.toList_append, several, joined, letters]
      exact List.mem_append_right _ List.mem_cons_self
    have unblank := (reads.words_trimmed separated first listed).1.head character
      (by rw [letters]; rfl)
    exact Bool.false_ne_true (unblank.symm.trans (blanks character printed))

theorem Reads.divides_words (cuts : Text.Cuts spelling.separator.toList
    (spelling.separator.intercalate (path.words spelling)).toList
    ((path.words spelling).map String.toList)) :
    spelling.Divides (spelling.separator.intercalate (path.words spelling)).toList
      (path.words spelling) := by
  refine ⟨_, cuts, ?_⟩
  rw [List.map_map]
  refine (List.map_id' _).symm.trans (List.map_congr_left fun word listed => ?_)
  have trimmed := (reads.words_trimmed separated word listed).1
  rw [Function.comp_apply, Text.trim_of_isTrimmed trimmed, String.ofList_toList]

/-- Where the words of a path that was read are found again between separators, it is read again. -/
theorem Reads.reread (present : ∀ word ∈ path.words spelling, word ≠ "")
    (cuts : Text.Cuts spelling.separator.toList
      (spelling.separator.intercalate (path.words spelling)).toList
      ((path.words spelling).map String.toList)) :
    Path.parse spelling (path.print spelling) = .ok path := by
  have unblank := reads.print_unblank separated present
  have divided := reads.divides_words separated cuts
  have written : (path.print spelling).toList = (path.lead spelling).toList ++
      (spelling.separator.intercalate (path.words spelling)).toList := String.toList_append
  obtain ⟨named, ⟨name, start, _⟩ | ⟨pieces, _, begins⟩⟩ := reads.start_cases
  · obtain ⟨root, modules, last⟩ := path
    obtain rfl : root = .external name := start
    exact Reads.parse_eq separated (.path unblank (.external written divided) named)
  · have unmarked : ¬ spelling.separator.toList <+: (path.print spelling).toList := by
      obtain ⟨first, rest, several⟩ := List.exists_cons_of_ne_nil (path.words_ne_nil spelling)
      have filled : first.toList ≠ [] := fun empty =>
        present first (several ▸ List.mem_cons_self) (String.toList_eq_nil_iff.mp empty)
      rw [written, begins.plain.1]
      rw [several, List.map_cons] at cuts
      exact several ▸ cuts.not_isPrefix filled
    rw [begins.plain.2] at named
    have layout : spelling.Layout (path.print spelling).toList path.root path.segments
        path.segments := by
      refine .plain unmarked ?_ (begins.words named)
      rw [written, begins.plain.1]
      exact divided
    exact Reads.parse_eq separated (.path unblank layout named)

end Words

section Neat

variable (separated : spelling.separator ≠ "") (reads : spelling.Reads text (.ok path))
  (neat : ∀ part ∈ Text.split spelling.separator.toList (spelling.body text.toList),
    Text.IsTrimmed part)

include separated reads neat

/-- Without blanks around them, the parts of a text are the words it is read as. -/
theorem Reads.cuts_of_neat : Text.Cuts spelling.separator.toList (spelling.body text.toList)
    ((spelling.passed text ++ path.words spelling).map String.toList) := by
  obtain ⟨_, parts, cuts, same⟩ := reads.divides_body separated
  rw [(Text.split_eq_iff (separator_toList_ne_nil separated)).mpr cuts] at neat
  have kept : parts.map (String.toList ∘ fun part => String.ofList (Text.trim part)) = parts := by
    refine (List.map_congr_left fun part listed => ?_).trans (List.map_id' parts)
    rw [Function.comp_apply, Text.trim_of_isTrimmed (neat part listed), String.toList_ofList]
  rw [same, List.map_map, kept]
  exact cuts

theorem Reads.text_of_neat : text = (if spelling.OpensHere text then
    spelling.selfWord ++ spelling.separator else "") ++ path.print spelling := by
  have written := (reads.divides_body separated).1
  rw [← (reads.cuts_of_neat separated neat).joined, ← String.toList_intercalate] at written
  by_cases opens : spelling.OpensHere text
  · obtain ⟨_, ⟨_, _, marked⟩ | ⟨_, _, begins⟩⟩ := reads.start_cases
    · exact absurd marked opens.1
    obtain ⟨first, rest, several⟩ := List.exists_cons_of_ne_nil (path.words_ne_nil spelling)
    have unled := begins.plain.1
    rw [passed, if_pos opens, unled, String.toList_empty, List.nil_append, List.singleton_append,
      several, String.intercalate_cons_cons, ← several] at written
    rw [if_pos opens, Path.print, unled, String.empty_append]
    exact String.toList_inj.mp written
  · rw [passed, if_neg opens, List.nil_append, ← String.toList_append] at written
    rw [if_neg opens, String.empty_append]
    exact String.toList_inj.mp written

/-- Behind the word for here the words are parted as they were, and all of them are names. -/
theorem Reads.reread_of_opens (opens : spelling.OpensHere text) :
    Path.parse spelling (path.print spelling) = .ok path := by
  obtain ⟨named, ⟨_, _, marked⟩ | ⟨pieces, divided, begins⟩⟩ := reads.start_cases
  · exact absurd marked opens.1
  have here := begins.root_eq_here (divided.pieces_eq separated ▸ opens.2.2) opens.2.1
  have present : ∀ word ∈ path.words spelling, word ≠ "" := by
    intro word listed
    rw [Path.words, here] at listed
    exact (named word (begins.plain.2 ▸ listed)).1
  obtain ⟨first, rest, several⟩ := List.exists_cons_of_ne_nil (path.words_ne_nil spelling)
  have more : (path.words spelling).map String.toList ≠ [] := by
    rw [several]
    exact List.cons_ne_nil _ _
  have cuts := reads.cuts_of_neat separated neat
  rw [← cuts.joined, passed, if_pos opens, List.singleton_append, List.map_cons, several,
    List.map_cons, List.intercalate_cons_cons, ← List.map_cons, ← several,
    ← String.toList_intercalate] at cuts
  exact reads.reread separated present
    ((Text.cuts_cons_iff (separator_toList_ne_nil separated) more).mp cuts).2

end Neat

/-- Reading a path again finds its words, since no text that holds more than them is as short. -/
theorem cuts_of_parse_print (separated : spelling.separator ≠ "")
    (again : Path.parse spelling (path.print spelling) = .ok path) :
    Text.Cuts spelling.separator.toList
      (spelling.separator.intercalate (path.words spelling)).toList
      ((path.words spelling).map String.toList) := by
  have reread : spelling.Reads (path.print spelling) (.ok path) := again ▸ reads_parse separated _
  obtain ⟨written, parts, cuts, same⟩ := reread.divides_body separated
  have behind : spelling.body (path.print spelling).toList =
      (spelling.separator.intercalate (path.words spelling)).toList := by
    rw [Path.print, String.toList_append] at written ⊢
    exact (List.append_cancel_left written).symm
  have trimmed : (spelling.passed (path.print spelling) ++ path.words spelling).map String.toList =
      parts.map Text.trim := by
    rw [same, List.map_map]
    exact List.map_congr_left fun part _ => String.toList_ofList
  have joined : spelling.separator.toList.intercalate parts =
      spelling.separator.toList.intercalate ((path.words spelling).map String.toList) := by
    rw [cuts.joined, behind, String.toList_intercalate]
  -- Trimming and passing over a word only shorten, and what they leave is the whole text again.
  have shorter := Text.length_intercalate_trim_le spelling.separator.toList parts
  rw [← trimmed, joined] at shorter
  by_cases opens : spelling.OpensHere (path.print spelling)
  · exfalso
    obtain ⟨first, rest, several⟩ := List.exists_cons_of_ne_nil (path.words_ne_nil spelling)
    have positive := List.length_pos_iff.mpr (separator_toList_ne_nil separated)
    rw [passed, if_pos opens, several, List.singleton_append, List.map_cons, List.map_cons,
      List.intercalate_cons_cons, List.length_append, List.length_append] at shorter
    omega
  · have unpassed : spelling.passed (path.print spelling) = [] := if_neg opens
    rw [unpassed, List.nil_append] at trimmed
    have long : (spelling.separator.toList.intercalate parts).length ≤
        (spelling.separator.toList.intercalate (parts.map Text.trim)).length := by
      rw [← trimmed, joined]
    rw [trimmed, Text.map_trim_eq_self long, ← behind]
    exact cuts

end Spelling

namespace Path

variable {spelling : Spelling} {text : String} {path : Path}

/-- Without a separator every text seems to begin with one, and to have an empty piece before its
first character. -/
theorem parse_of_unseparated (unseparated : spelling.separator = "") (text : String) :
    Path.parse spelling text ≠ .ok path := by
  have mark : spelling.separator.toList = [] := by rw [unseparated, String.toList_empty]
  have first : (spelling.pieces text.toList).headD "" = "" := by
    rw [Spelling.pieces, mark, Text.split, if_pos rfl]
    rfl
  have start : spelling.readStart text = .error (.emptySegment text) := by
    have named := Spelling.segment_empty spelling text
    rw [← first] at named
    rw [Spelling.readStart, mark, List.isPrefixOf_nil_left, if_pos rfl, List.length_nil,
      List.drop_zero]
    dsimp only
    rw [named]
    rfl
  intro read
  by_cases unblank : ∀ character ∈ text.toList, Text.isBlank character
  · rw [Spelling.parse_of_blank unblank] at read
    cases read
  · rw [Spelling.parse_of_start_error unblank start] at read
    cases read

/-- A text whose parts have no blanks around them is printed back, but for a word for here at its
beginning, and what is printed is read as the same path. -/
theorem neat_text_printed_back
    (neat : ∀ part ∈ Text.split spelling.separator.toList (spelling.body text.toList),
      Text.IsTrimmed part)
    (read : Path.parse spelling text = .ok path) :
    text = (if spelling.OpensHere text then spelling.selfWord ++ spelling.separator else "") ++
        path.print spelling ∧
      Path.parse spelling (path.print spelling) = .ok path := by
  have separated : spelling.separator ≠ "" :=
    fun unseparated => parse_of_unseparated unseparated text read
  have reads : spelling.Reads text (.ok path) := read ▸ Spelling.reads_parse separated text
  have same := reads.text_of_neat separated neat
  refine ⟨same, ?_⟩
  by_cases opens : spelling.OpensHere text
  · exact reads.reread_of_opens separated neat opens
  · rw [if_neg opens, String.empty_append] at same
    rw [← same]
    exact read

/-- Behind the word for here, a piece that begins with a colon stays one. -/
theorem colon_printed_back :
    (∀ part ∈ Text.split "::".toList (Spelling.standard.body "self::a:::b".toList),
      Text.IsTrimmed part) ∧
    Path.parse .standard "self::a:::b" = .ok ⟨.here, ["a"], ":b"⟩ ∧
    "self::a:::b" = "self" ++ "::" ++ (Path.mk .here ["a"] ":b").print .standard ∧
    Path.parse .standard ((Path.mk .here ["a"] ":b").print .standard) =
      .ok ⟨.here, ["a"], ":b"⟩ := by
  have neat : ∀ part ∈ Text.split "::".toList (Spelling.standard.body "self::a:::b".toList),
      Text.IsTrimmed part := by decide +kernel
  have read : Path.parse .standard "self::a:::b" = .ok ⟨.here, ["a"], ":b"⟩ := by decide +kernel
  have opens : Spelling.standard.OpensHere "self::a:::b" := by decide +kernel
  obtain ⟨same, again⟩ := neat_text_printed_back neat read
  rw [if_pos opens] at same
  exact ⟨neat, read, same, again⟩

section Standard

/-- Behind the words that stand for its root, a path is written with its names. -/
theorem exists_keywords (path : Path) (spelling : Spelling) : ∃ keywords,
    path.words spelling = keywords ++ path.names ∧
      ∀ word ∈ keywords, word = spelling.rootWord ∨ word = spelling.superWord := by
  rw [words, names]
  cases path.root with
  | absolute => exact ⟨[spelling.rootWord], rfl, by simp⟩
  | here => exact ⟨[], rfl, List.forall_mem_nil _⟩
  | up levels _ =>
    exact ⟨List.replicate levels spelling.superWord, rfl,
      fun word listed => .inr (List.eq_of_mem_replicate listed)⟩
  | external name => exact ⟨[], rfl, List.forall_mem_nil _⟩

theorem names_ne_nil (path : Path) : path.names ≠ [] := by
  rw [names, segments]
  cases path.root <;> simp

/-- Only where a colon ends a text without a double one does the colon behind it make one. -/
theorem double_colon_iff {text : List Char} (single : ¬ [':', ':'] <:+: text) :
    [':', ':'] <:+: text ++ [':'] ↔ text.getLast? = some ':' := by
  rw [List.infix_concat_iff, List.getLast?_eq_some_iff]
  constructor
  · rintro (⟨front, joined⟩ | inside)
    · have shorter : front ++ [':'] ++ [':'] = text ++ [':'] := by simpa using joined
      exact ⟨front, (List.append_cancel_right shorter).symm⟩
    · exact absurd inside single
  · rintro ⟨front, rfl⟩
    exact .inl ⟨front, by simp⟩

/-- The words of a path are found again where none but the last ends in a colon. -/
theorem cuts_words_iff (reads : Spelling.standard.Reads text (.ok path)) :
    Text.Cuts Spelling.standard.separator.toList
        (Spelling.standard.separator.intercalate (path.words .standard)).toList
        ((path.words .standard).map String.toList) ↔
      ∀ word ∈ (path.words .standard).dropLast, word.toList.getLast? ≠ some ':' := by
  have separated : Spelling.standard.separator ≠ "" := by decide
  have mark : Spelling.standard.separator.toList = [':', ':'] := by decide
  have single : ∀ word ∈ path.words .standard, ¬ [':', ':'] <:+: word.toList :=
    fun word listed => mark ▸ (reads.words_trimmed separated word listed).2
  have parted := (List.dropLast_concat_getLast (path.words_ne_nil .standard)).symm
  generalize (path.words .standard).getLast _ = last at parted
  generalize (path.words .standard).dropLast = inner at parted ⊢
  rw [parted] at single ⊢
  have glued : ∀ word ∈ inner, [':', ':'] <:+: word.toList ++ [':'] ↔
      word.toList.getLast? = some ':' :=
    fun word listed => double_colon_iff (single word (List.mem_append_left _ listed))
  rw [String.toList_intercalate, List.map_append, List.map_singleton, mark,
    Text.cuts_intercalate_iff (List.cons_ne_nil _ _), List.forall_mem_map]
  constructor
  · rintro ⟨apart, _⟩ word listed ends
    exact apart word listed ((glued word listed).mpr ends)
  · intro closed
    exact ⟨fun word listed found => closed word listed ((glued word listed).mp found),
      single last (List.mem_append_right _ (List.mem_singleton_self last))⟩

/-- A path that was read is read again as it was printed, unless one of its names that something
follows ends in a colon. -/
theorem reprinted_iff (read : Path.parse .standard text = .ok path) :
    Path.parse .standard path.text = .ok path ↔
      ∀ name ∈ path.names.dropLast, name.toList.getLast? ≠ some ':' := by
  have separated : Spelling.standard.separator ≠ "" := by decide
  have reads : Spelling.standard.Reads text (.ok path) :=
    read ▸ Spelling.reads_parse separated text
  obtain ⟨named, _⟩ := reads.start_cases
  obtain ⟨keywords, written, standing⟩ := path.exists_keywords .standard
  have inner : (path.words .standard).dropLast = keywords ++ path.names.dropLast := by
    rw [written, List.dropLast_append_of_ne_nil path.names_ne_nil]
  constructor
  · intro again name listed
    have cuts := Spelling.cuts_of_parse_print separated again
    exact (cuts_words_iff reads).mp cuts name (inner ▸ List.mem_append_right _ listed)
  · intro single
    refine reads.reread separated (fun word listed => ?_)
      ((cuts_words_iff reads).mpr fun word listed => ?_)
    · rcases List.mem_append.mp (written ▸ listed) with stands | name
      · rcases standing word stands with rfl | rfl <;> decide
      · exact (named word name).1
    · rcases List.mem_append.mp (inner ▸ listed) with stands | name
      · rcases standing word stands with rfl | rfl <;> decide
      · exact single word name

/-- Colons at the beginning of names and at the end of the last one are told from separators. -/
theorem colons_reprinted :
    Path.parse .standard "crate:: :shop ::item:" = .ok ⟨.absolute, [":shop"], "item:"⟩ ∧
    (∀ name ∈ (Path.mk .absolute [":shop"] "item:").names.dropLast,
      name.toList.getLast? ≠ some ':') ∧
    Path.parse .standard (Path.mk .absolute [":shop"] "item:").text =
      .ok ⟨.absolute, [":shop"], "item:"⟩ := by
  have read : Path.parse .standard "crate:: :shop ::item:" =
      .ok ⟨.absolute, [":shop"], "item:"⟩ := by decide +kernel
  have closed : ∀ name ∈ (Path.mk .absolute [":shop"] "item:").names.dropLast,
      name.toList.getLast? ≠ some ':' := by decide +kernel
  exact ⟨read, closed, (reprinted_iff read).mpr closed⟩

/-- A blank parts the colon a name ends in from a separator. Printed without it, the path is read as
another one, or as none at all. -/
theorem glued_colon_reprinted :
    Path.parse .standard "a: ::b" = .ok ⟨.here, ["a:"], "b"⟩ ∧
    Path.parse .standard (Path.mk .here ["a:"] "b").text = .ok ⟨.here, ["a"], ":b"⟩ ∧
    Path.parse .standard (Path.mk .here ["a:"] "b").text ≠ .ok ⟨.here, ["a:"], "b"⟩ ∧
    Path.parse .standard ": ::b" = .ok ⟨.here, [":"], "b"⟩ ∧
    Path.parse .standard (Path.mk .here [":"] "b").text = .error (.noSegment ":::b") := by
  decide +kernel

end Standard

end Path

end ScopedNames
