import Mathlib.Data.List.DropRight
import Mathlib.Data.List.Induction
import ScopedNames.Text

set_option autoImplicit false

namespace ScopedNames.Text

section Split

variable {mark : List Char}

theorem splitPast_skip (front text : List Char) :
    splitPast mark front.length (front ++ text) = splitPast mark 0 text := by
  induction front with
  | nil => rfl
  | cons character front ih => exact ih

theorem foldr_extend (piece first : List Char) (rest : List (List Char)) :
    piece.foldr extend (first :: rest) = (piece ++ first) :: rest := by
  induction piece with
  | nil => rfl
  | cons character piece ih => rw [List.foldr_cons, ih, extend, List.cons_append]

theorem isPrefixOf_eq_false (present : mark ≠ []) {character : Char} (apart : character ∉ mark)
    (text : List Char) : mark.isPrefixOf (character :: text) = false := by
  cases mark with
  | nil => exact absurd rfl present
  | cons first rest =>
    have differ : first ≠ character := fun same => apart (same ▸ List.mem_cons_self)
    simp [List.isPrefixOf, differ]

/-- Characters that the mark does not have go to the piece that begins with them. -/
theorem splitPast_piece (present : mark ≠ []) {piece : List Char}
    (apart : ∀ character ∈ piece, character ∉ mark) (text : List Char) :
    splitPast mark 0 (piece ++ text) = piece.foldr extend (splitPast mark 0 text) := by
  induction piece with
  | nil => rfl
  | cons character piece ih =>
    have unmarked :=
      isPrefixOf_eq_false present (apart character List.mem_cons_self) (piece ++ text)
    rw [List.cons_append, splitPast, unmarked, if_neg Bool.false_ne_true,
      ih fun other later => apart other (List.mem_cons_of_mem _ later), List.foldr_cons]

/-- A mark ends a piece, and the next piece begins behind all of the mark. -/
theorem splitPast_mark (present : mark ≠ []) (text : List Char) :
    splitPast mark 0 (mark ++ text) = [] :: splitPast mark 0 text := by
  cases mark with
  | nil => exact absurd rfl present
  | cons first rest =>
    have found : (first :: rest).isPrefixOf (first :: (rest ++ text)) = true := by
      simp [List.isPrefixOf_iff_prefix]
    rw [List.cons_append, splitPast, if_pos found, List.length_cons, Nat.add_sub_cancel,
      splitPast_skip]

theorem split_intercalate (present : mark ≠ []) {pieces : List (List Char)} (some : pieces ≠ [])
    (apart : ∀ piece ∈ pieces, ∀ character ∈ piece, character ∉ mark) :
    split mark (mark.intercalate pieces) = pieces := by
  rw [split, if_neg present]
  induction pieces with
  | nil => exact absurd rfl some
  | cons piece pieces ih =>
    have first := apart piece List.mem_cons_self
    cases pieces with
    | nil =>
      have last := splitPast_piece present first []
      rw [List.append_nil, splitPast, foldr_extend, List.append_nil] at last
      rw [List.intercalate_singleton, last]
    | cons next rest =>
      have later := ih (by simp) fun other listed => apart other (List.mem_cons_of_mem _ listed)
      rw [List.intercalate_cons_cons, List.append_assoc, splitPast_piece present first,
        splitPast_mark present, later, foldr_extend, List.append_nil]

end Split

/-- A text that neither begins nor ends with a blank. -/
structure IsTrimmed (text : List Char) : Prop where
  head : ∀ character ∈ text.head?, isBlank character = false
  last : ∀ character ∈ text.getLast?, isBlank character = false

theorem isTrimmed_iff {text : List Char} : IsTrimmed text ↔
    text.head?.all (!isBlank ·) ∧ text.getLast?.all (!isBlank ·) := by
  simp only [Option.all_eq_true, Bool.not_eq_true']
  exact ⟨fun trimmed => ⟨trimmed.head, trimmed.last⟩, fun ⟨head, last⟩ => ⟨head, last⟩⟩

instance (text : List Char) : Decidable (IsTrimmed text) := decidable_of_iff' _ isTrimmed_iff

theorem trimLeft_of_head {text : List Char}
    (unblank : ∀ character ∈ text.head?, isBlank character = false) : trimLeft text = text := by
  cases text with
  | nil => rfl
  | cons character text =>
    have kept := unblank character rfl
    rw [trimLeft, List.dropWhile_cons_of_neg (by simp [kept])]

theorem trim_of_isTrimmed {text : List Char} (trimmed : IsTrimmed text) : trim text = text := by
  have reversed : ∀ character ∈ text.reverse.head?, isBlank character = false := by
    rw [List.head?_reverse]
    exact trimmed.last
  rw [trim, trimLeft_of_head trimmed.head, trimRight, trimLeft_of_head reversed,
    List.reverse_reverse]

/-- The parts of a text between the places where a mark is found, from the left and without
overlap. -/
inductive Cuts (mark : List Char) : List Char → List (List Char) → Prop
  | whole {text : List Char} (absent : ¬ mark <:+: text) : Cuts mark text [text]
  /-- Nowhere before the end of the first part does the mark begin. -/
  | cut {part text : List Char} {parts : List (List Char)}
      (first : ∀ front, front ++ mark <+: part ++ mark ++ text → part.length ≤ front.length)
      (rest : Cuts mark text parts) : Cuts mark (part ++ mark ++ text) (part :: parts)

section Cutting

variable {mark text part : List Char} {parts : List (List Char)}

/-- Whether the mark is found early depends on no text behind it: an early one would end before
this one does. -/
theorem first_iff (present : mark ≠ []) :
    (∀ front, front ++ mark <+: part ++ mark ++ text → part.length ≤ front.length) ↔
      ¬ mark <:+: part ++ mark.dropLast := by
  have shorter : part ++ mark.dropLast <+: part ++ mark ++ text := by
    rw [List.append_assoc, List.prefix_append_right_inj]
    exact (List.dropLast_prefix mark).trans (List.prefix_append mark text)
  have positive := List.length_pos_iff.mpr present
  constructor
  · rintro first ⟨front, back, joined⟩
    have early : front ++ mark <+: part ++ mark ++ text :=
      List.IsPrefix.trans ⟨back, joined⟩ shorter
    have late := first front early
    have lengths := congrArg List.length joined
    simp only [List.length_append, List.length_dropLast] at lengths
    omega
  · intro absent front early
    refine Nat.le_of_not_lt fun earlier => ?_
    have fits : (front ++ mark).length ≤ (part ++ mark.dropLast).length := by
      simp only [List.length_append, List.length_dropLast]
      omega
    obtain ⟨back, joined⟩ := List.prefix_of_prefix_length_le early shorter fits
    exact absent ⟨front, back, joined⟩

namespace Cuts

theorem ne_nil (cuts : Cuts mark text parts) : parts ≠ [] := by
  cases cuts <;> exact List.cons_ne_nil _ _

/-- Nothing is lost: the parts with marks between them are the text. -/
theorem joined (cuts : Cuts mark text parts) : mark.intercalate parts = text := by
  induction cuts with
  | whole absent => exact List.intercalate_singleton
  | @cut part text parts first rest ih =>
    obtain ⟨next, others, same⟩ := List.exists_cons_of_ne_nil rest.ne_nil
    rw [same] at ih
    rw [same, List.intercalate_cons_cons, ih]

/-- No part holds the mark. -/
theorem absent (present : mark ≠ []) (cuts : Cuts mark text parts) :
    ∀ part ∈ parts, ¬ mark <:+: part := by
  induction cuts with
  | whole absent =>
    intro part listed
    exact List.mem_singleton.mp listed ▸ absent
  | @cut first text parts early rest ih =>
    intro part listed
    rcases List.mem_cons.mp listed with rfl | later
    · have unmarked := (first_iff present).mp early
      exact fun found => unmarked (found.trans (List.prefix_append _ _).isInfix)
    · exact ih part later

/-- A text whose first part is not empty does not begin with the mark. -/
theorem not_isPrefix (cuts : Cuts mark text (part :: parts)) (filled : part ≠ []) :
    ¬ mark <+: text := by
  intro begins
  cases cuts with
  | whole absent => exact absent begins.isInfix
  | cut first rest =>
    have none := first [] begins
    exact filled (List.length_eq_zero_iff.mp (Nat.le_zero.mp none))

/-- A character in front goes to the first part, unless it makes the text begin with the mark. -/
theorem extend {character : Char} (unmarked : ¬ mark <+: character :: text)
    (cuts : Cuts mark text parts) :
    Cuts mark (character :: text) (Text.extend character parts) := by
  cases cuts with
  | whole absent =>
    refine .whole fun found => ?_
    rcases List.infix_cons_iff.mp found with begins | later
    · exact unmarked begins
    · exact absent later
  | @cut part text parts first rest =>
    refine @Cuts.cut mark (character :: part) text parts (fun front early => ?_) rest
    cases front with
    | nil => exact absurd early unmarked
    | cons other front =>
      have inside := (List.cons_prefix_cons.mp early).2
      exact Nat.succ_le_succ (first front inside)

end Cuts

/-- By induction on the length of the text, since a mark is passed at once. -/
theorem cuts_splitPast (present : mark ≠ []) (text : List Char) :
    Cuts mark text (splitPast mark 0 text) := by
  cases text with
  | nil => exact .whole fun found => present (List.infix_nil.mp found)
  | cons character text =>
    by_cases begins : mark <+: character :: text
    · obtain ⟨rest, joined⟩ := begins
      have shorter : rest.length < (character :: text).length := by
        have positive := List.length_pos_iff.mpr present
        rw [← joined, List.length_append]
        omega
      rw [← joined, splitPast_mark present]
      exact @Cuts.cut mark [] rest _ (fun front _ => Nat.zero_le front.length)
        (cuts_splitPast present rest)
    · have unmarked : ¬ mark.isPrefixOf (character :: text) = true :=
        fun found => begins (List.isPrefixOf_iff_prefix.mp found)
      rw [splitPast, if_neg unmarked]
      exact (cuts_splitPast present text).extend begins
termination_by text.length
decreasing_by
  · exact shorter
  · exact Nat.lt_succ_self _

theorem cuts_split (present : mark ≠ []) (text : List Char) :
    Cuts mark text (split mark text) := by
  rw [split, if_neg present]
  exact cuts_splitPast present text

namespace Cuts

theorem splitPast_eq (present : mark ≠ []) (cuts : Cuts mark text parts) :
    splitPast mark 0 text = parts := by
  induction cuts with
  | @whole text absent =>
    induction text with
    | nil => rfl
    | cons character text ih =>
      have unmarked : ¬ mark.isPrefixOf (character :: text) = true :=
        fun found => absent (List.isPrefixOf_iff_prefix.mp found).isInfix
      have later : ¬ mark <:+: text := fun found => absent (List.infix_cons found)
      rw [splitPast, if_neg unmarked, ih later, Text.extend]
  | @cut part text parts first rest ih =>
    induction part with
    | nil => rw [List.nil_append, splitPast_mark present, ih]
    | cons character part inner =>
      have unmarked : ¬ mark.isPrefixOf (character :: (part ++ mark ++ text)) = true := by
        intro found
        have none := first [] (List.isPrefixOf_iff_prefix.mp found)
        simp at none
      have later : ∀ front, front ++ mark <+: part ++ mark ++ text →
          part.length ≤ front.length := by
        intro front early
        have wide := first (character :: front) (List.cons_prefix_cons.mpr ⟨rfl, early⟩)
        exact Nat.le_of_succ_le_succ wide
      rw [List.cons_append, List.cons_append, splitPast, if_neg unmarked, inner later, Text.extend]

end Cuts

theorem split_eq_iff (present : mark ≠ []) : split mark text = parts ↔ Cuts mark text parts := by
  constructor
  · rintro rfl
    exact cuts_split present text
  · intro cuts
    rw [split, if_neg present]
    exact cuts.splitPast_eq present

/-- A part and the mark behind it can be taken off a text that is cut in more parts than one. -/
theorem cuts_cons_iff (present : mark ≠ []) (more : parts ≠ []) :
    Cuts mark (part ++ mark ++ text) (part :: parts) ↔
      ¬ mark <:+: part ++ mark.dropLast ∧ Cuts mark text parts := by
  constructor
  · generalize whole : part ++ mark ++ text = joined
    intro cuts
    cases cuts with
    | whole absent => exact absurd rfl more
    | @cut part other parts first rest =>
      have same : text = other := List.append_cancel_left whole
      exact ⟨(first_iff present).mp first, same ▸ rest⟩
  · rintro ⟨absent, rest⟩
    exact .cut ((first_iff present).mpr absent) rest

theorem intercalate_cons_concat (mark part : List Char) (parts : List (List Char))
    (last : List Char) : mark.intercalate (part :: parts ++ [last]) =
      part ++ mark ++ mark.intercalate (parts ++ [last]) := by
  obtain ⟨next, others, same⟩ :=
    List.exists_cons_of_ne_nil (List.append_ne_nil_of_right_ne_nil parts (List.cons_ne_nil last []))
  rw [List.cons_append, same, List.intercalate_cons_cons]

/-- Parts are found again between marks if none of them, not even with the next mark up to its last
character, holds the mark. -/
theorem cuts_intercalate_iff (present : mark ≠ []) (parts : List (List Char)) (last : List Char) :
    Cuts mark (mark.intercalate (parts ++ [last])) (parts ++ [last]) ↔
      (∀ part ∈ parts, ¬ mark <:+: part ++ mark.dropLast) ∧ ¬ mark <:+: last := by
  induction parts with
  | nil =>
    have alone : Cuts mark last [last] ↔ ¬ mark <:+: last :=
      ⟨fun cuts => cuts.absent present last (List.mem_singleton_self last), .whole⟩
    simpa using alone
  | cons part parts ih =>
    have more : parts ++ [last] ≠ [] := by simp
    rw [intercalate_cons_concat, List.cons_append, cuts_cons_iff present more, ih,
      List.forall_mem_cons, and_assoc]

theorem intercalate_concat_append (mark : List Char) (parts : List (List Char))
    (last back : List Char) :
    mark.intercalate (parts ++ [last ++ back]) = mark.intercalate (parts ++ [last]) ++ back := by
  induction parts with
  | nil => simp
  | cons part parts ih =>
    rw [intercalate_cons_concat, intercalate_cons_concat, ih, List.append_assoc _ _ back]

section Apart

variable {front back : List Char} (present : mark ≠ [])

include present

/-- By induction on the end of the text: a mark that ends there ends in one of its characters. -/
theorem infix_append_iff (apart : ∀ character ∈ back, character ∉ mark) :
    mark <:+: text ++ back ↔ mark <:+: text := by
  induction back using List.reverseRecOn with
  | nil => rw [List.append_nil]
  | append_singleton back character ih =>
    have other : ¬ mark <:+ text ++ back ++ [character] := by
      intro ends
      obtain empty | ⟨others, rfl, _⟩ := List.suffix_concat_iff.mp ends
      · exact present empty
      · exact apart character (by simp) (by simp)
    rw [← List.append_assoc, List.infix_concat_iff,
      ih fun other listed => apart other (List.mem_append_left _ listed)]
    exact or_iff_right other

theorem prefix_append_iff (apart : ∀ character ∈ back, character ∉ mark) :
    mark <+: text ++ back ↔ mark <+: text := by
  induction back using List.reverseRecOn with
  | nil => rw [List.append_nil]
  | append_singleton back character ih =>
    have other : mark ≠ text ++ back ++ [character] := by
      rintro rfl
      exact apart character (by simp) (by simp)
    rw [← List.append_assoc, List.prefix_concat_iff,
      ih fun other listed => apart other (List.mem_append_left _ listed)]
    exact or_iff_right other

theorem Cuts.prepend (apart : ∀ character ∈ front, character ∉ mark)
    (cuts : Cuts mark text (part :: parts)) :
    Cuts mark (front ++ text) ((front ++ part) :: parts) := by
  rw [← split_eq_iff present, split, if_neg present, splitPast_piece present apart,
    cuts.splitPast_eq present, foldr_extend]

theorem Cuts.append {last : List Char} (apart : ∀ character ∈ back, character ∉ mark)
    (cuts : Cuts mark text (parts ++ [last])) :
    Cuts mark (text ++ back) (parts ++ [last ++ back]) := by
  obtain rfl := cuts.joined
  rw [cuts_intercalate_iff present] at cuts
  rw [← intercalate_concat_append, cuts_intercalate_iff present]
  exact ⟨cuts.1, fun found => cuts.2 ((infix_append_iff present apart).mp found)⟩

end Apart

end Cutting

variable {text before after : List Char}

theorem head_trimLeft (text : List Char) :
    ∀ character ∈ (trimLeft text).head?, isBlank character = false := by
  intro character begins
  have stopped := List.head?_dropWhile_not isBlank text
  rw [show (text.dropWhile isBlank).head? = some character from begins] at stopped
  exact stopped

theorem trimRight_isPrefix (text : List Char) : trimRight text <+: text :=
  List.rdropWhile_prefix isBlank text

theorem isTrimmed_trim (text : List Char) : IsTrimmed (trim text) := by
  constructor
  · intro character begins
    obtain ⟨rest, joined⟩ := trimRight_isPrefix (trimLeft text)
    refine head_trimLeft text character ?_
    rw [← joined, List.head?_append_of_ne_nil]
    · exact begins
    · intro empty
      simp [trim, empty] at begins
  · intro character ends
    rw [trim, trimRight, List.getLast?_reverse] at ends
    exact head_trimLeft _ character ends

/-- What trimming takes away is blank and stands at the ends. -/
theorem exists_margins (text : List Char) : ∃ before after,
    (∀ character ∈ before, isBlank character) ∧ (∀ character ∈ after, isBlank character) ∧
      text = before ++ trim text ++ after := by
  refine ⟨text.takeWhile isBlank, (trimLeft text).rtakeWhile isBlank,
    fun _ => List.mem_takeWhile_imp, fun _ => List.mem_rtakeWhile_imp, ?_⟩
  have right : trim text ++ (trimLeft text).rtakeWhile isBlank = trimLeft text :=
    List.rdropWhile_append_rtakeWhile
  rw [List.append_assoc, right, trimLeft, List.takeWhile_append_dropWhile]

theorem trim_isInfix (text : List Char) : trim text <:+: text := by
  obtain ⟨before, after, _, _, joined⟩ := exists_margins text
  exact ⟨before, after, joined.symm⟩

section Margins

variable (blankBefore : ∀ character ∈ before, isBlank character)
  (blankAfter : ∀ character ∈ after, isBlank character)

include blankBefore blankAfter

theorem trim_of_margins (trimmed : IsTrimmed text) : trim (before ++ text ++ after) = text := by
  have front : trimLeft (before ++ text ++ after) = trimLeft (text ++ after) := by
    rw [List.append_assoc, trimLeft, List.dropWhile_append_of_pos blankBefore, ← trimLeft]
  rw [trim, front]
  cases text with
  | nil =>
    have gone : trimLeft after = [] := List.dropWhile_eq_nil_iff.mpr blankAfter
    rw [List.nil_append, gone]
    rfl
  | cons character text =>
    have begins : trimLeft (character :: text ++ after) = character :: text ++ after :=
      trimLeft_of_head trimmed.head
    have back : trimLeft (after.reverse ++ (character :: text).reverse) =
        trimLeft (character :: text).reverse :=
      List.dropWhile_append_of_pos (by simpa using blankAfter)
    have kept := trim_of_isTrimmed trimmed
    rw [trim, trimLeft_of_head trimmed.head, trimRight] at kept
    rw [begins, trimRight, List.reverse_append, back, kept]

/-- The blanks around a text are not among what is left of it. -/
theorem trim_surrounded (text : List Char) : trim (before ++ text ++ after) = trim text := by
  obtain ⟨front, back, blankFront, blankBack, joined⟩ := exists_margins text
  have wide : before ++ text ++ after = before ++ front ++ trim text ++ (back ++ after) := by
    conv_lhs => rw [joined]
    simp only [List.append_assoc]
  rw [wide]
  refine trim_of_margins ?_ ?_ (isTrimmed_trim text)
  · intro character listed
    exact (List.mem_append.mp listed).elim (blankBefore character) (blankFront character)
  · intro character listed
    exact (List.mem_append.mp listed).elim (blankBack character) (blankAfter character)

end Margins

theorem length_intercalate_trim_le (mark : List Char) (parts : List (List Char)) :
    (mark.intercalate (parts.map trim)).length ≤ (mark.intercalate parts).length := by
  induction parts with
  | nil => exact Nat.le_refl _
  | cons part parts ih =>
    have shorter := (trim_isInfix part).length_le
    cases parts with
    | nil => simpa using shorter
    | cons next rest =>
      rw [List.map_cons] at ih
      rw [List.map_cons, List.map_cons, List.intercalate_cons_cons, List.intercalate_cons_cons]
      simp only [List.length_append]
      omega

/-- If parts joined by a mark are no longer than they are trimmed, nothing was taken off them. -/
theorem map_trim_eq_self {mark : List Char} {parts : List (List Char)}
    (long : (mark.intercalate parts).length ≤ (mark.intercalate (parts.map trim)).length) :
    parts.map trim = parts := by
  induction parts with
  | nil => rfl
  | cons part parts ih =>
    have shorter := (trim_isInfix part).length_le
    cases parts with
    | nil =>
      have same : (trim part).length = part.length :=
        Nat.le_antisymm shorter (by simpa using long)
      rw [List.map_cons, (trim_isInfix part).eq_of_length same]
      rfl
    | cons next rest =>
      have others := length_intercalate_trim_le mark (next :: rest)
      rw [List.map_cons, List.map_cons, List.intercalate_cons_cons,
        List.intercalate_cons_cons] at long
      rw [List.map_cons] at ih others
      simp only [List.length_append] at long
      have same : (trim part).length = part.length := by omega
      rw [List.map_cons, (trim_isInfix part).eq_of_length same, List.map_cons, ih (by omega)]

end ScopedNames.Text
