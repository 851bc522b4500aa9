import ScopedNames.Path
import ScopedNames.Proofs.Text.Pieces

set_option autoImplicit false

namespace ScopedNames

variable {spelling : Spelling}

/-- A word that is found again between separators. -/
structure Spelling.Writes (spelling : Spelling) (word : String) : Prop where
  present : word ≠ ""
  trimmed : Text.IsTrimmed word.toList
  apart : ∀ character ∈ word.toList, character ∉ spelling.separator.toList

instance (word : String) : Decidable (spelling.Writes word) :=
  decidable_of_iff (word ≠ "" ∧ Text.IsTrimmed word.toList ∧
      word.toList.all (· ∉ spelling.separator.toList))
    ⟨fun ⟨present, trimmed, apart⟩ => ⟨present, trimmed, by simpa using apart⟩,
      fun writes => ⟨writes.present, writes.trimmed, by simpa using writes.apart⟩⟩

/-- A piece that can name something. -/
def Spelling.IsName (spelling : Spelling) (piece : String) : Prop :=
  piece ≠ "" ∧ spelling.isKeyword piece = false

instance (piece : String) : Decidable (spelling.IsName piece) :=
  inferInstanceAs (Decidable (_ ∧ _))

/-- The names that a path is written with: its segments, behind the name of another tree if it
starts there. -/
def Path.names (path : Path) : List Name :=
  match path.root with
  | .external name => name :: path.segments
  | .absolute | .here | .up _ _ => path.segments

/-- A spelling tells the words of a path apart. -/
structure Path.Writable (path : Path) (spelling : Spelling) : Prop where
  separated : spelling.separator ≠ ""
  rootApart : spelling.superWord ≠ spelling.rootWord
  selfApart : spelling.superWord ≠ spelling.selfWord
  rootWord : spelling.Writes spelling.rootWord
  superWord : spelling.Writes spelling.superWord
  names : ∀ name ∈ path.names, spelling.Writes name ∧ spelling.isKeyword name = false

instance (path : Path) : Decidable (path.Writable spelling) :=
  decidable_of_iff (spelling.separator ≠ "" ∧ spelling.superWord ≠ spelling.rootWord ∧
      spelling.superWord ≠ spelling.selfWord ∧ spelling.Writes spelling.rootWord ∧
      spelling.Writes spelling.superWord ∧
      ∀ name ∈ path.names, spelling.Writes name ∧ spelling.isKeyword name = false)
    ⟨fun ⟨separated, rootApart, selfApart, rootWord, superWord, names⟩ =>
        ⟨separated, rootApart, selfApart, rootWord, superWord, names⟩,
      fun writable => ⟨writable.separated, writable.rootApart, writable.selfApart,
        writable.rootWord, writable.superWord, writable.names⟩⟩

namespace Spelling

theorem separator_toList_ne_nil (separated : spelling.separator ≠ "") :
    spelling.separator.toList ≠ [] :=
  fun empty => separated (String.toList_eq_nil_iff.mp empty)

/-- What words are joined to begins with the first of them. -/
theorem exists_intercalate (separator first : String) (rest : List String) :
    ∃ tail, (separator.intercalate (first :: rest)).toList = first.toList ++ tail := by
  cases rest with
  | nil => exact ⟨[], by simp⟩
  | cons next rest =>
    refine ⟨(separator ++ separator.intercalate (next :: rest)).toList, ?_⟩
    rw [String.intercalate_cons_cons, String.append_assoc, String.toList_append]

section Words

variable {first : String} (writes : spelling.Writes first) (rest : List String)

include writes

/-- What words are joined to begins with a character that is no blank and not of the separator. -/
theorem Writes.exists_front : ∃ character tail,
    (spelling.separator.intercalate (first :: rest)).toList = character :: tail ∧
      Text.isBlank character = false ∧ character ∉ spelling.separator.toList := by
  obtain ⟨others, joined⟩ := exists_intercalate spelling.separator first rest
  cases letters : first.toList with
  | nil => exact absurd (String.toList_eq_nil_iff.mp letters) writes.present
  | cons character tail =>
    have unblank := writes.trimmed.head character (by rw [letters]; rfl)
    have apart := writes.apart character (letters ▸ List.mem_cons_self)
    exact ⟨character, tail ++ others, by rw [joined, letters, List.cons_append], unblank, apart⟩

theorem Writes.not_isPrefixOf (separated : spelling.separator ≠ "") :
    spelling.separator.toList.isPrefixOf
      (spelling.separator.intercalate (first :: rest)).toList = false := by
  obtain ⟨character, tail, begins, _, apart⟩ := writes.exists_front rest
  rw [begins]
  exact Text.isPrefixOf_eq_false (separator_toList_ne_nil separated) apart tail

end Words

theorem pieces_intercalate (separated : spelling.separator ≠ "") {words : List String}
    (some : words ≠ []) (writes : ∀ word ∈ words, spelling.Writes word) :
    spelling.pieces (spelling.separator.intercalate words).toList = words := by
  have apart : ∀ piece ∈ words.map String.toList, ∀ character ∈ piece,
      character ∉ spelling.separator.toList := by
    intro piece listed
    obtain ⟨word, member, rfl⟩ := List.mem_map.mp listed
    exact (writes word member).apart
  have trimmed : ∀ word ∈ words, String.ofList (Text.trim word.toList) = word := by
    intro word listed
    rw [Text.trim_of_isTrimmed (writes word listed).trimmed, String.ofList_toList]
  rw [pieces, String.toList_intercalate,
    Text.split_intercalate (separator_toList_ne_nil separated) (by simpa using some) apart,
    List.map_map]
  exact (List.map_congr_left trimmed).trans (List.map_id' words)

theorem segment_of_name {name : Name} (named : spelling.IsName name) (text : String) :
    spelling.segment text name = .ok name := by
  rw [segment, if_neg named.1, named.2]
  rfl

theorem mapM_segment_of_named {names : List Name} (named : ∀ name ∈ names, spelling.IsName name)
    (text : String) : names.mapM (spelling.segment text) = .ok names := by
  induction names with
  | nil => rfl
  | cons name names ih =>
    rw [List.mapM_cons, segment_of_name (named name List.mem_cons_self),
      ih fun other later => named other (List.mem_cons_of_mem _ later)]
    rfl

theorem mapM_segment {names : List Name}
    (named : ∀ name ∈ names, spelling.Writes name ∧ spelling.isKeyword name = false)
    (text : String) : names.mapM (spelling.segment text) = .ok names := by
  refine mapM_segment_of_named (fun name listed => ?_) text
  obtain ⟨writes, free⟩ := named name listed
  exact ⟨writes.present, free⟩

section Root

theorem readRoot_absolute (rest : List String) :
    spelling.readRoot (spelling.rootWord :: rest) = (.absolute, rest) := if_pos rfl

theorem readRoot_of_head {pieces : List String}
    (fromRoot : ∀ first ∈ pieces.head?, first ≠ spelling.rootWord)
    (fromSelf : ∀ first ∈ pieces.head?, first ≠ spelling.selfWord) :
    spelling.readRoot pieces = (.climb (pieces.takeWhile (· = spelling.superWord)).length,
      pieces.drop (pieces.takeWhile (· = spelling.superWord)).length) := by
  cases pieces with
  | nil => rfl
  | cons first rest => rw [readRoot, if_neg (fromRoot first rfl), if_neg (fromSelf first rfl)]

/-- The words that stand for a level are counted up to the first name. -/
theorem readRoot_climb (rootApart : spelling.superWord ≠ spelling.rootWord)
    (selfApart : spelling.superWord ≠ spelling.selfWord) (levels : Nat) {first : Name}
    (free : spelling.isKeyword first = false) (rest : List Name) :
    spelling.readRoot (List.replicate levels spelling.superWord ++ first :: rest) =
      (.climb levels, first :: rest) := by
  obtain ⟨⟨fromRoot, fromSelf⟩, fromSuper⟩ : (first ≠ spelling.rootWord ∧
      first ≠ spelling.selfWord) ∧ first ≠ spelling.superWord := by
    simpa [isKeyword] using free
  have counted : (List.replicate levels spelling.superWord ++ first :: rest).takeWhile
      (· = spelling.superWord) = List.replicate levels spelling.superWord := by
    rw [List.takeWhile_append_of_pos (by simp), List.takeWhile_cons_of_neg (by simp [fromSuper]),
      List.append_nil]
  have head : ∀ word ∈ (List.replicate levels spelling.superWord ++ first :: rest).head?,
      word = spelling.superWord ∨ word = first := by
    cases levels <;> simp [List.replicate_succ]
  have read := readRoot_of_head
    (fun word begins => (head word begins).elim (· ▸ rootApart) (· ▸ fromRoot))
    (fun word begins => (head word begins).elim (· ▸ selfApart) (· ▸ fromSelf))
  rw [read, counted, List.length_replicate, List.drop_left' List.length_replicate]

end Root

section Start

variable {first : String} {rest : List String} (separated : spelling.separator ≠ "")
  (writes : ∀ word ∈ first :: rest, spelling.Writes word)

include separated writes

theorem readStart_of_words :
    spelling.readStart (spelling.separator.intercalate (first :: rest)) =
      .ok (spelling.readRoot (first :: rest)) := by
  have unmarked := (writes first List.mem_cons_self).not_isPrefixOf rest separated
  rw [readStart, unmarked, if_neg Bool.false_ne_true,
    pieces_intercalate separated (List.cons_ne_nil first rest) writes]

theorem readStart_external (free : spelling.isKeyword first = false) :
    spelling.readStart (spelling.separator ++ spelling.separator.intercalate (first :: rest)) =
      .ok (.external first, rest) := by
  have marked : spelling.separator.toList.isPrefixOf
      (spelling.separator ++ spelling.separator.intercalate (first :: rest)).toList = true := by
    rw [String.toList_append, List.isPrefixOf_iff_prefix]
    exact List.prefix_append _ _
  have read := segment_of_name ⟨(writes first List.mem_cons_self).present, free⟩
  rw [readStart, if_pos marked, String.toList_append, List.drop_left,
    pieces_intercalate separated (List.cons_ne_nil first rest) writes]
  change (spelling.segment _ first >>= fun name => pure (Root.external name, rest)) = _
  rw [read]
  rfl

end Start

end Spelling

namespace Path

variable {path : Path}

theorem segments_eq_cons (path : Path) : ∃ first rest, path.segments = first :: rest := by
  rw [segments]
  cases path.modules with
  | nil => exact ⟨path.name, [], rfl⟩
  | cons module modules => exact ⟨module, modules ++ [path.name], rfl⟩

theorem words_ne_nil (path : Path) (spelling : Spelling) : path.words spelling ≠ [] := by
  obtain ⟨first, rest, same⟩ := path.segments_eq_cons
  rw [words, same]
  split <;> simp

namespace Writable

variable (writable : path.Writable spelling)

include writable

theorem segments : ∀ name ∈ path.segments,
    spelling.Writes name ∧ spelling.isKeyword name = false := by
  intro name listed
  refine writable.names name ?_
  rw [Path.names]
  split
  · exact List.mem_cons_of_mem _ listed
  · exact listed
  · exact listed
  · exact listed

theorem words : ∀ word ∈ path.words spelling, spelling.Writes word := by
  intro word listed
  rw [Path.words] at listed
  split at listed
  · rcases List.mem_cons.mp listed with rfl | segment
    · exact writable.rootWord
    · exact (writable.segments word segment).1
  · exact (writable.segments word listed).1
  · rcases List.mem_append.mp listed with level | segment
    · exact List.eq_of_mem_replicate level ▸ writable.superWord
    · exact (writable.segments word segment).1
  · rename_i external
    refine (writable.names word ?_).1
    rw [Path.names, external]
    exact listed

/-- With nothing written before them, all words are looked at for the start. -/
theorem readStart_of_lead (unled : path.lead spelling = "") :
    spelling.readStart (path.print spelling) = .ok (spelling.readRoot (path.words spelling)) := by
  have writes := writable.words
  obtain ⟨word, words, begins⟩ := List.exists_cons_of_ne_nil (path.words_ne_nil spelling)
  rw [begins] at writes
  rw [print, unled, String.empty_append, begins,
    Spelling.readStart_of_words writable.separated writes]

/-- The words that a path starts with are read as its root, and the others as its segments. -/
theorem readStart_print :
    spelling.readStart (path.print spelling) = .ok (path.root, path.segments) := by
  obtain ⟨first, rest, same⟩ := path.segments_eq_cons
  obtain ⟨_, free⟩ := writable.segments first (same ▸ List.mem_cons_self)
  cases start : path.root with
  | absolute =>
    have written : path.words spelling = spelling.rootWord :: path.segments := by
      rw [Path.words, start]
    rw [writable.readStart_of_lead (by rw [lead, start]), written, Spelling.readRoot_absolute]
  | here =>
    have written : path.words spelling = first :: rest := by rw [Path.words, start, same]
    have read := Spelling.readRoot_climb writable.rootApart writable.selfApart 0 free rest
    rw [writable.readStart_of_lead (by rw [lead, start]), written, same]
    exact congrArg Except.ok read
  | up levels positive =>
    have written : path.words spelling =
        List.replicate levels spelling.superWord ++ first :: rest := by
      rw [Path.words, start, same]
    have climbs : Root.climb levels = .up levels positive := dif_pos positive
    have read := Spelling.readRoot_climb writable.rootApart writable.selfApart levels free rest
    rw [writable.readStart_of_lead (by rw [lead, start]), written, same, read, climbs]
  | external name =>
    have writes := writable.words
    have written : path.words spelling = name :: path.segments := by rw [Path.words, start]
    obtain ⟨_, named⟩ := writable.names name (by rw [Path.names, start]; exact List.mem_cons_self)
    rw [written] at writes
    rw [print, lead, start, written]
    exact Spelling.readStart_external writable.separated writes named

theorem print_not_blank : (path.print spelling).toList.all Text.isBlank = false := by
  obtain ⟨word, words, begins⟩ := List.exists_cons_of_ne_nil (path.words_ne_nil spelling)
  have written := writable.words word (begins ▸ List.mem_cons_self)
  obtain ⟨character, tail, front, unblank, _⟩ := written.exists_front words
  refine List.all_eq_false.mpr ⟨character, ?_, by simp [unblank]⟩
  rw [print, begins, String.toList_append, front]
  exact List.mem_append_right _ List.mem_cons_self

end Writable

/-- A text is the path that its start and the names after that make up. -/
theorem parse_of_reads {text : String} {root : Root} {pieces segments : List Name}
    (unblank : text.toList.all Text.isBlank = false)
    (starts : spelling.readStart text = .ok (root, pieces))
    (named : pieces.mapM (spelling.segment text) = .ok segments)
    (whole : ofSegments? root segments = some path) : Path.parse spelling text = .ok path := by
  simp [parse, unblank, starts, named, whole, bind, Except.bind, pure, Except.pure]

/-- A path that a spelling tells the words of apart is read back as it was. -/
theorem parse_print (writable : path.Writable spelling) :
    Path.parse spelling (path.print spelling) = .ok path := by
  have named := Spelling.mapM_segment writable.segments (path.print spelling)
  have whole : ofSegments? path.root path.segments = some path :=
    ofSegments?_concat path.root path.modules path.name
  exact parse_of_reads writable.print_not_blank writable.readStart_print named whole

/-- Words with dots between them, and no word for here. -/
def dotted : Spelling := ⟨"..", "root", "", "up"⟩

/-- Two levels up, through a module whose name has a blank in it. -/
def uncle : Path := ⟨.up 2 Nat.two_pos, ["left aisle"], "shelf"⟩

theorem uncle_read_back : uncle.Writable dotted ∧
    Path.parse dotted (uncle.print dotted) = .ok uncle := by
  have writable : uncle.Writable dotted := by decide +kernel
  exact ⟨writable, parse_print writable⟩

end Path

end ScopedNames
