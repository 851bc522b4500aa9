import ScopedNames.Proofs.Path.Grammar
import ScopedNames.Proofs.Text.Pieces

set_option autoImplicit false

/- Blanks around a text. Pieces are read without the blanks around them, so blanks at either end of
a text change nothing but the text that a fault is told of. The one exception is a separator at the
beginning, which makes the first piece the name of another tree. Behind a blank it is a separator
like any other, and nothing but blanks stands before it. -/
namespace ScopedNames

/-- The same fault, found in another text. -/
def PathError.foundIn (text : String) : PathError → PathError
  | .blank => .blank
  | .emptySegment _ => .emptySegment text
  | .misplacedKeyword keyword _ => .misplacedKeyword keyword text
  | .noSegment _ => .noSegment text

namespace Spelling

variable {spelling : Spelling} (separated : spelling.separator ≠ "")
  (solid : ∀ character ∈ spelling.separator.toList, Text.isBlank character = false)

section Layout

variable {before after text : List Char} {pieces segments names : List String} {root : Root}

include solid in
theorem apart_of_blank (blanks : ∀ character ∈ before, Text.isBlank character) :
    ∀ character ∈ before, character ∉ spelling.separator.toList := by
  intro character listed inside
  exact Bool.false_ne_true ((solid character inside).symm.trans (blanks character listed))

include separated solid

theorem Divides.indent (blankBefore : ∀ character ∈ before, Text.isBlank character)
    (divided : spelling.Divides text pieces) : spelling.Divides (before ++ text) pieces := by
  obtain ⟨parts, cuts, rfl⟩ := divided
  obtain ⟨first, rest, rfl⟩ := List.exists_cons_of_ne_nil cuts.ne_nil
  have same := Text.trim_surrounded blankBefore (List.forall_mem_nil _) first
  rw [List.append_nil] at same
  have indented := cuts.prepend (separator_toList_ne_nil separated)
    (apart_of_blank solid blankBefore)
  exact ⟨_, indented, by rw [List.map_cons, List.map_cons, same]⟩

theorem Divides.trail (blankAfter : ∀ character ∈ after, Text.isBlank character)
    (divided : spelling.Divides text pieces) : spelling.Divides (text ++ after) pieces := by
  obtain ⟨parts, cuts, rfl⟩ := divided
  obtain ⟨inner, last, rfl⟩ : ∃ inner last, parts = inner ++ [last] :=
    ⟨_, _, (List.dropLast_concat_getLast cuts.ne_nil).symm⟩
  have same := Text.trim_surrounded (List.forall_mem_nil _) blankAfter last
  rw [List.nil_append] at same
  have trailed := cuts.append (separator_toList_ne_nil separated)
    (apart_of_blank solid blankAfter)
  exact ⟨_, trailed, by rw [List.map_append, List.map_append, List.map_singleton,
    List.map_singleton, same]⟩

/-- A text behind a blank does not begin with a separator. -/
theorem not_marked_of_indented (blankBefore : ∀ character ∈ before, Text.isBlank character)
    (indented : before ≠ []) (text : List Char) :
    ¬ spelling.separator.toList <+: before ++ text := by
  intro marked
  cases before with
  | nil => exact indented rfl
  | cons character before =>
    have front := Text.isPrefixOf_eq_false (separator_toList_ne_nil separated)
      (apart_of_blank solid blankBefore character List.mem_cons_self) (before ++ text)
    exact Bool.false_ne_true (front.symm.trans (List.isPrefixOf_iff_prefix.mpr marked))

variable (blankBefore : ∀ character ∈ before, Text.isBlank character)
  (blankAfter : ∀ character ∈ after, Text.isBlank character)

include blankBefore blankAfter

theorem Layout.surround (kept : before = [] ∨ ¬ spelling.separator.toList <+: text)
    (layout : spelling.Layout text root segments names) :
    spelling.Layout (before ++ text ++ after) root segments names := by
  cases layout with
  | @external body _ _ marked divided =>
    -- A leading separator stays the first thing in the text, since no blank may stand before it.
    obtain rfl : before = [] := kept.resolve_right fun other => other ⟨body, marked.symm⟩
    refine .external ?_ (divided.trail separated solid blankAfter)
    rw [marked, List.nil_append, List.append_assoc]
  | plain unmarked divided begins =>
    refine .plain ?_ ((divided.indent separated solid blankBefore).trail separated solid blankAfter)
      begins
    rw [Text.prefix_append_iff (separator_toList_ne_nil separated)
      (apart_of_blank solid blankAfter)]
    by_cases indented : before = []
    · rw [indented]
      exact unmarked
    · exact not_marked_of_indented separated solid blankBefore indented text

/-- Behind a blank, the separator at the beginning ends an empty piece. -/
theorem exists_layout_of_indented (unnamed : spelling.isKeyword "" = false)
    (indented : before ≠ []) (marked : spelling.separator.toList <+: text) :
    ∃ pieces, spelling.Layout (before ++ text ++ after) .here ("" :: pieces) ("" :: pieces) := by
  obtain ⟨body, rfl⟩ := marked
  obtain ⟨parts, cuts, _⟩ := divides_pieces separated body
  have divided : spelling.Divides (spelling.separator.toList ++ body)
      ("" :: parts.map fun part => String.ofList (Text.trim part)) :=
    ⟨[] :: parts, @Text.Cuts.cut _ [] _ _ (fun front _ => Nat.zero_le front.length) cuts, rfl⟩
  refine ⟨_, .plain ?_ ((divided.indent separated solid blankBefore).trail separated solid
    blankAfter) (.bare _ ?_)⟩
  · rw [List.append_assoc]
    exact not_marked_of_indented separated solid blankBefore indented _
  · intro first begins
    exact Option.some.inj begins ▸ unnamed

end Layout

section Reads

variable {before text after : String} {result : Except PathError Path}
  (blankBefore : ∀ character ∈ before.toList, Text.isBlank character)
  (blankAfter : ∀ character ∈ after.toList, Text.isBlank character)

theorem unblank_surrounded (unblank : ¬ ∀ character ∈ text.toList, Text.isBlank character) :
    ¬ ∀ character ∈ (before ++ text ++ after).toList, Text.isBlank character := by
  intro blanks
  apply unblank
  intro character listed
  apply blanks
  rw [String.toList_append, String.toList_append]
  exact List.mem_append_left _ (List.mem_append_right _ listed)

include separated solid blankBefore blankAfter

theorem Reads.surround
    (kept : before = "" ∨ ¬ spelling.separator.toList <+: text.toList)
    (reads : spelling.Reads text result) : spelling.Reads (before ++ text ++ after)
      (result.mapError fun reason => reason.foundIn (before ++ text ++ after)) := by
  have written : (before ++ text ++ after).toList =
      before.toList ++ text.toList ++ after.toList := by
    rw [String.toList_append, String.toList_append]
  have around : ∀ {root segments names}, spelling.Layout text.toList root segments names →
      spelling.Layout (before ++ text ++ after).toList root segments names :=
    fun layout => written ▸ layout.surround separated solid blankBefore blankAfter
      (kept.imp_left String.toList_eq_nil_iff.mpr)
  cases reads with
  | blank blanks =>
    refine .blank ?_
    rw [written]
    exact List.forall_mem_append.mpr ⟨List.forall_mem_append.mpr ⟨blankBefore, blanks⟩, blankAfter⟩
  | path unblank layout named => exact .path (unblank_surrounded unblank) (around layout) named
  | emptySegment unblank layout named =>
    exact .emptySegment (unblank_surrounded unblank) (around layout) named
  | misplacedKeyword unblank layout named present keyword =>
    exact .misplacedKeyword (unblank_surrounded unblank) (around layout) named present keyword
  | noSegment unblank layout named =>
    exact .noSegment (unblank_surrounded unblank) (around layout) named

end Reads

end Spelling

namespace Path

section Surrounded

variable {spelling : Spelling} {before text after : String}
  (separated : spelling.separator ≠ "")
  (solid : ∀ character ∈ spelling.separator.toList, Text.isBlank character = false)
  (blankBefore : ∀ character ∈ before.toList, Text.isBlank character)
  (blankAfter : ∀ character ∈ after.toList, Text.isBlank character)

include separated solid blankBefore blankAfter

/-- Blanks around a text that does not begin with a separator are passed over. -/
theorem parse_surrounded (kept : before = "" ∨ ¬ spelling.separator.toList <+: text.toList) :
    Path.parse spelling (before ++ text ++ after) = (Path.parse spelling text).mapError
      fun reason => reason.foundIn (before ++ text ++ after) :=
  ((Spelling.reads_parse separated text).surround separated solid blankBefore blankAfter
    kept).parse_eq separated

/-- Blanks before a separator at the beginning are an empty piece. -/
theorem parse_indented (unnamed : spelling.isKeyword "" = false) (indented : before ≠ "")
    (marked : spelling.separator.toList <+: text.toList) :
    Path.parse spelling (before ++ text ++ after) =
      .error (.emptySegment (before ++ text ++ after)) := by
  have unblank : ¬ ∀ character ∈ (before ++ text ++ after).toList, Text.isBlank character := by
    apply Spelling.unblank_surrounded
    intro blanks
    obtain ⟨character, others, same⟩ :=
      List.exists_cons_of_ne_nil (Spelling.separator_toList_ne_nil separated)
    have inside : character ∈ spelling.separator.toList := same ▸ List.mem_cons_self
    have blank := blanks character (marked.subset inside)
    exact Bool.false_ne_true ((solid character inside).symm.trans blank)
  obtain ⟨pieces, layout⟩ := Spelling.exists_layout_of_indented separated solid blankBefore
    blankAfter unnamed (fun empty => indented (String.toList_eq_nil_iff.mp empty)) marked
  rw [← String.toList_append, ← String.toList_append] at layout
  have reads : spelling.Reads (before ++ text ++ after)
      (.error (.emptySegment (before ++ text ++ after))) :=
    @Spelling.Reads.emptySegment _ _ _ _ [] pieces unblank layout nofun
  exact reads.parse_eq separated

end Surrounded

/-- Blanks around a text make no difference to the path it is read as, except before a separator at
the beginning: with blanks there no text is a path. -/
theorem surrounding_blanks_passed {before after : String}
    (blankBefore : ∀ character ∈ before.toList, Text.isBlank character)
    (blankAfter : ∀ character ∈ after.toList, Text.isBlank character) (text : String) :
    ((before = "" ∨ ¬ "::".toList <+: text.toList) → ∀ path,
      Path.parse .standard text = .ok path ↔
        Path.parse .standard (before ++ text ++ after) = .ok path) ∧
    (before ≠ "" → "::".toList <+: text.toList →
      Path.parse .standard (before ++ text ++ after) =
        .error (.emptySegment (before ++ text ++ after))) := by
  have separated : Spelling.standard.separator ≠ "" := by decide
  have solid : ∀ character ∈ Spelling.standard.separator.toList,
      Text.isBlank character = false := by
    have colons : ∀ character ∈ Spelling.standard.separator.toList, character = ':' := by
      simp [Spelling.standard]
    intro character listed
    rw [colons character listed]
    decide
  refine ⟨fun kept path => ?_, fun indented marked => ?_⟩
  · rw [parse_surrounded separated solid blankBefore blankAfter kept]
    cases Path.parse .standard text with
    | ok found => rfl
    | error reason => exact ⟨nofun, nofun⟩
  · exact parse_indented separated solid blankBefore blankAfter (by decide) indented marked

/-- Blanks before a keyword are passed over, and those before the name of another tree are not. -/
theorem blank_before_other_tree :
    (∀ character ∈ " ".toList, Text.isBlank character) ∧
    (∀ character ∈ "\n".toList, Text.isBlank character) ∧
    Path.parse .standard (" " ++ "super::shelf" ++ "\n") = .ok ⟨.up 1 Nat.one_pos, [], "shelf"⟩ ∧
    Path.parse .standard "::other::a" = .ok ⟨.external "other", [], "a"⟩ ∧
    Path.parse .standard (" " ++ "::other::a" ++ "\n") =
      .error (.emptySegment " ::other::a\n") := by
  have blankBefore : ∀ character ∈ " ".toList, Text.isBlank character :=
    List.all_eq_true.mp (by decide +kernel)
  have blankAfter : ∀ character ∈ "\n".toList, Text.isBlank character :=
    List.all_eq_true.mp (by decide +kernel)
  have unmarked : ¬ "::".toList <+: "super::shelf".toList := by decide +kernel
  have marked : "::".toList <+: "::other::a".toList := by decide +kernel
  have climbing := (surrounding_blanks_passed blankBefore blankAfter "super::shelf").1
    (.inr unmarked) ⟨.up 1 Nat.one_pos, [], "shelf"⟩
  have elsewhere := (surrounding_blanks_passed blankBefore blankAfter "::other::a").2
    (by decide) marked
  exact ⟨blankBefore, blankAfter, climbing.mp (by decide +kernel), by decide +kernel, elsewhere⟩

end Path

end ScopedNames
