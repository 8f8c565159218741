import ScannerGen.Emit
import ScannerGen.Proofs.Emit.Interface

/-!
# Flags in the banner

A source begins with a banner that has a comment for each flag of the user.  A flag may be any text, so
what would end the comment is taken apart in it: a blank comes between the star and the slash.  Nothing
else is changed, and nothing that ends a comment arises by that, neither within the flag nor at its
ends, where it meets the words of the comment.

* `Code.not_infix_splitCommentEnds` — taking the ends of comments apart leaves none.
* `Code.exists_parts` — the text before and after is cut at the same places.
* `Emit.flagComments_closed` — every flag stays within its comment.
-/

namespace ScannerGen

namespace Code

/-- What ends a comment. -/
abbrev commentEnd : List Char := ['*', '/']

/-! ## Ends of comments -/

theorem prefix_of_prefix_append_cons {α : Type} {piece front back : List α} {c : α} (other : c ∉ piece)
    (begins : piece <+: front ++ c :: back) : piece <+: front := by
  rcases List.prefix_or_prefix_of_prefix begins (List.prefix_append front (c :: back)) with whole | ⟨rest, rfl⟩
  · exact whole
  · -- What is left of the piece begins with the character that it does not have.
    rw [List.prefix_append_right_inj] at begins
    cases rest with
    | nil => simp
    | cons d rest =>
      obtain ⟨rfl, _⟩ := List.cons_prefix_cons.1 begins
      simp at other

/-- A piece of text is on one side of a character that it does not have. -/
theorem infix_append_cons_iff {α : Type} {piece front back : List α} {c : α} (other : c ∉ piece) :
    piece <:+: front ++ c :: back ↔ piece <:+: front ∨ piece <:+: back := by
  constructor
  · induction front with
    | nil =>
      intro inside
      rcases List.infix_cons_iff.1 inside with begins | inBack
      · have none : piece <+: [] := prefix_of_prefix_append_cons other begins
        exact .inl none.isInfix
      · exact .inr inBack
    | cons d front ih =>
      intro inside
      rcases List.infix_cons_iff.1 inside with begins | later
      · have whole : piece <+: d :: front := prefix_of_prefix_append_cons other begins
        exact .inl whole.isInfix
      · rcases ih later with inFront | inBack
        · exact .inl (List.infix_cons inFront)
        · exact .inr inBack
  · rintro (inFront | inBack)
    · exact inFront.trans (List.prefix_append _ _).isInfix
    · exact inBack.trans ((List.suffix_cons c back).trans (List.suffix_append _ _)).isInfix

theorem head?_splitCommentEnds (chars : List Char) : (splitCommentEnds chars).head? = chars.head? := by
  fun_cases splitCommentEnds chars with
  | case1 => rfl
  | case2 c => rfl
  | case3 c d rest ended => simp [ended.1]
  | case4 c d rest => rfl

/-- A star is followed by the slash of an end, or the end is further behind. -/
theorem commentEnd_infix_cons {c : Char} {chars : List Char} (inside : commentEnd <:+: c :: chars) :
    (c = '*' ∧ chars.head? = some '/') ∨ commentEnd <:+: chars := by
  rcases List.infix_cons_iff.1 inside with begins | later
  · obtain ⟨rfl, slash⟩ := List.cons_prefix_cons.1 begins
    exact .inl ⟨rfl, List.singleton_prefix_iff_head?_eq_some.1 slash⟩
  · exact .inr later

/-- Where the ends of comments are taken apart, none is left. -/
theorem not_infix_splitCommentEnds (chars : List Char) : ¬ commentEnd <:+: splitCommentEnds chars := by
  fun_induction splitCommentEnds chars with
  | case1 => decide
  | case2 c =>
    intro inside
    have length := inside.length_le
    simp at length
  | case3 c d rest ended ih =>
    -- The blank has no end on either side of it.
    intro inside
    have blank : commentEnd <:+: ['*'] ++ ' ' :: '/' :: splitCommentEnds rest := inside
    rcases (infix_append_cons_iff (by decide)).1 blank with before | behind
    · exact absurd before (by decide)
    · rcases commentEnd_infix_cons behind with ⟨star, _⟩ | later
      · cases star
      · exact ih later
  | case4 c d rest other ih =>
    intro inside
    rcases commentEnd_infix_cons inside with ⟨star, slash⟩ | later
    · rw [head?_splitCommentEnds] at slash
      -- What comes first is as it was, so the end would have been there before.
      exact other ⟨star, Option.some.inj slash⟩
    · exact ih later

/-! ## What is kept -/

theorem intercalate_cons_part {α : Type} (between : List α) (c : α) (part : List α) (parts : List (List α)) :
    between.intercalate ((c :: part) :: parts) = c :: between.intercalate (part :: parts) := by
  cases parts with
  | nil => simp
  | cons other parts => simp [List.intercalate_cons_cons]

/-- A text is cut at the ends of comments in it, and its parts are put together again with the ends taken
apart. -/
theorem exists_parts (chars : List Char) :
    ∃ part parts, (∀ p ∈ part :: parts, ¬ commentEnd <:+: p) ∧
      chars = commentEnd.intercalate (part :: parts) ∧
      splitCommentEnds chars = ['*', ' ', '/'].intercalate (part :: parts) := by
  fun_induction splitCommentEnds chars with
  | case1 => exact ⟨[], [], by decide, by simp, by simp⟩
  | case2 c =>
    refine ⟨[c], [], ?_, by simp, by simp⟩
    intro p member inside
    obtain rfl := List.mem_singleton.1 member
    have length := inside.length_le
    simp at length
  | case3 c d rest ended ih =>
    obtain ⟨part, parts, endless, same, split⟩ := ih
    obtain ⟨rfl, rfl⟩ := ended
    refine ⟨[], part :: parts, List.forall_mem_cons.2 ⟨by decide, endless⟩, ?_, ?_⟩
    · rw [List.intercalate_cons_cons, ← same]
      rfl
    · rw [List.intercalate_cons_cons, ← split]
      rfl
  | case4 c d rest other ih =>
    obtain ⟨part, parts, endless, same, split⟩ := ih
    obtain ⟨first, others⟩ := List.forall_mem_cons.1 endless
    refine ⟨c :: part, parts, List.forall_mem_cons.2 ⟨?_, others⟩, ?_, ?_⟩
    · -- A part that begins with a slash would make the next character one.
      intro inside
      rcases commentEnd_infix_cons inside with ⟨star, slash⟩ | later
      · obtain ⟨part, rfl⟩ := List.head?_eq_some_iff.1 slash
        rw [intercalate_cons_part] at same
        exact other ⟨star, (List.cons.inj same).1⟩
      · exact first later
    · rw [intercalate_cons_part, ← same]
    · rw [intercalate_cons_part, ← split]

theorem intercalate_ofList (between : String) (parts : List (List Char)) :
    between.intercalate (parts.map String.ofList) = String.ofList (between.toList.intercalate parts) := by
  rw [← String.toList_inj, String.toList_intercalate, List.map_map, String.toList_ofList]
  congr 1
  simp [Function.comp_def]

theorem exists_parts_commentSafe (text : String) :
    ∃ parts, (∀ part ∈ parts, ¬ Occurs "*/" part) ∧ text = "*/".intercalate parts ∧
      commentSafe text = "* /".intercalate parts := by
  obtain ⟨part, parts, endless, same, split⟩ := exists_parts text.toList
  refine ⟨(part :: parts).map String.ofList, ?_, ?_, ?_⟩
  · intro piece member
    obtain ⟨chars, among, rfl⟩ := List.mem_map.1 member
    show ¬ commentEnd <:+: (String.ofList chars).toList
    rw [String.toList_ofList]
    exact endless chars among
  · rw [intercalate_ofList, ← String.toList_inj, same, String.toList_ofList]
    rfl
  · rw [intercalate_ofList, commentSafe, split]
    rfl

theorem fileText_comment (text : String) : fileText [.comment text] = "/* " ++ text ++ " */\n" := by
  show String.join ["/* " ++ text ++ " */\n"] = _
  simp

end Code

namespace Emit

open Code

/-! ## The comments of flags -/

/-- The comment for a flag. -/
def flagText (flag : String) : String := s!"/* option: {commentSafe flag} */"

theorem pieces_flagComment (flag : String) : (flagComment flag).pieces = [flagText flag ++ "\n"] := by
  show ["/* " ++ ("option: " ++ commentSafe flag) ++ " */\n"] =
    ["/* option: " ++ commentSafe flag ++ " */" ++ "\n"]
  simp [← String.toList_inj]

theorem fileText_flagComments (flags : List String) :
    fileText (flags.map flagComment) = String.join (flags.map fun flag => flagText flag ++ "\n") := by
  simp only [fileText, List.flatMap_map, pieces_flagComment, ← List.map_eq_flatMap]

theorem toList_flagText (flag : String) :
    (flagText flag).toList =
      "/* option:".toList ++ ' ' :: (splitCommentEnds flag.toList ++ ' ' :: commentEnd) := by
  show ("/* option: " ++ String.ofList (splitCommentEnds flag.toList) ++ " */").toList = _
  simp

/-- An end of a comment within the comment of a flag is the end of that comment. -/
theorem eq_nil_of_flagText {flag : String} {front back : List Char}
    (found : (flagText flag).toList = front ++ commentEnd ++ back) : back = [] := by
  -- Without its last character the comment has no end in it.
  have endless : ¬ commentEnd <:+: "/* option:".toList ++ ' ' :: (splitCommentEnds flag.toList ++ ' ' :: ['*']) := by
    rw [infix_append_cons_iff (by decide), infix_append_cons_iff (by decide)]
    rintro (words | inFlag | star)
    · exact absurd words (by decide)
    · exact not_infix_splitCommentEnds _ inFlag
    · exact absurd star (by decide)
  rcases List.eq_nil_or_concat back with rfl | ⟨rest, last, rfl⟩
  · rfl
  · rw [toList_flagText] at found
    have ends : "/* option:".toList ++ ' ' :: (splitCommentEnds flag.toList ++ ' ' :: commentEnd) =
        ("/* option:".toList ++ ' ' :: (splitCommentEnds flag.toList ++ ' ' :: ['*'])) ++ ['/'] := by
      simp
    rw [ends, List.concat_eq_append, ← List.append_assoc] at found
    have same := (List.append_inj' found rfl).1
    exact absurd ⟨front, rest, same.symm⟩ endless

/-- The banner of a source has a comment for each flag, in their order, whatever the flags are.  The two
characters that end a comment are at the end of such a comment, and nowhere else in it.  What it says is the
flag, where the ends of comments in it, and nothing but these, are taken apart by a blank. -/
theorem flagComments_closed (base : String) (tables : Tables) (tokens : TokenTable) (options : Options) :
    (∃ back, (emit base tables tokens options).source =
      fileText (userText options.sourceTop) ++
        ("/* " ++ s!"{base}.c: generated by {generatorName} {generatorVersion}. Do not edit." ++ " */\n") ++
        String.join (options.flags.map fun flag => flagText flag ++ "\n") ++ back) ∧
    ∀ flag : String,
      commentEnd <:+ (flagText flag).toList ∧
      (∀ front back, (flagText flag).toList = front ++ commentEnd ++ back → back = []) ∧
      ∃ parts, (∀ part ∈ parts, ¬ Occurs "*/" part) ∧ flag = "*/".intercalate parts ∧
        flagText flag = "/* option: " ++ "* /".intercalate parts ++ " */" := by
  refine ⟨?_, fun flag => ⟨?_, fun front back => eq_nil_of_flagText, ?_⟩⟩
  · have layout : ∃ rest, sourceItems base tables tokens options =
        userText options.sourceTop ++
          [.comment s!"{base}.c: generated by {generatorName} {generatorVersion}. Do not edit."] ++
          options.flags.map flagComment ++ rest := by
      simp [sourceItems, banner]
    obtain ⟨rest, items⟩ := layout
    refine ⟨fileText rest, ?_⟩
    rw [emit, items, fileText_append, fileText_append, fileText_append, fileText_comment,
      fileText_flagComments]
  · rw [toList_flagText]
    exact (List.suffix_cons ' ' commentEnd).trans
      ((List.suffix_append _ _).trans ((List.suffix_cons _ _).trans (List.suffix_append _ _)))
  · obtain ⟨parts, endless, same, split⟩ := exists_parts_commentSafe flag
    refine ⟨parts, endless, same, ?_⟩
    rw [← split]
    rfl

end Emit

end ScannerGen
