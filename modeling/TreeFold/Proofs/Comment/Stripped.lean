import TreeFold.Proofs.Comment.Dissection
import TreeFold.Proofs.Comment.Offset

/-!
# What stripping leaves

Stripping is told without its scans: the text is cut at its blocks, and each line of what stands
outside them is cut at its first comment outside quotes and loses its blanks at the end. The lines
that are not empty then are the lines of the stripped text, and none of them has a comment left.
-/

namespace TreeFold.Comment

open Text

/-- The bytes that are looked at are those before the offset of the comment. -/
theorem encodeUtf8_codeOf (line : Text) :
    encodeUtf8 (codeOf line) =
      match commentOffset? line with
      | some i => (encodeUtf8 line).take i
      | none => encodeUtf8 line := by
  rw [codeOf, commentOffset?]
  cases commentIndex? line with
  | none => rfl
  | some i =>
      have hbytes : encodeUtf8 line = encodeUtf8 (line.take i) ++ encodeUtf8 (line.drop i) := by
        rw [← encodeUtf8_append, List.take_append_drop]
      simp only [Option.map_some, hbytes, ← length_encodeUtf8, List.take_left]

/-- What is kept of lines is what is left of each, empty lines aside. -/
theorem filterMap_keptLine? (parts : List Text) :
    parts.filterMap keptLine? = (parts.map fun line => trimEnd (codeOf line)).filter (· ≠ []) := by
  induction parts with
  | nil => rfl
  | cons line parts ih =>
      rw [List.filterMap_cons, List.map_cons, List.filter_cons, ih, keptLine?]
      cases trimEnd (codeOf line) <;> rfl

/-- Trimmed text does not end in a blank. -/
theorem isBlank_of_getLast?_trimEnd {text : Text} {c : Char}
    (h : c ∈ (trimEnd text).getLast?) : isBlank c = false := by
  rw [trimEnd, trimEndWhile, List.getLast?_reverse] at h
  have hhead := List.head?_dropWhile_not isBlank text.reverse
  rw [Option.mem_def.mp h] at hhead
  exact hhead

/-- A line of stripped text: it is not empty, it holds no break and no comment, and it does not end
in a blank. -/
structure IsStrippedLine (line : Text) : Prop where
  ne_nil : line ≠ []
  plain : ∀ c ∈ line, isLineBreak c = false
  trimmed : ∀ c ∈ line.getLast?, isBlank c = false
  code : ∀ front, ¬CommentBehind line front

theorem isStrippedLine_of_mem {text line : Text} (h : line ∈ lines (strip text)) :
    IsStrippedLine line := by
  have hplain := isLineBreak_of_mem_lines h
  rw [lines_strip] at h
  obtain ⟨whole, -, hkept⟩ := List.mem_filterMap.mp h
  obtain ⟨rfl, hne⟩ := keptLine?_eq_some.mp hkept
  constructor
  · exact hne
  · exact hplain
  · exact fun c hc => isBlank_of_getLast?_trimEnd hc
  · exact not_commentBehind_of_isPrefix (trimEnd_isPrefix _)

/-- A text is cut at its blocks in exactly one way. Stripping takes the lines of what stands outside
them, each up to the offset of its comment and without blanks at its end, and joins those that are
not empty; so no comment outside quotes is left in any line. -/
theorem strip_of_dissects (text : Text) :
    (∃! cut : List (Text × Text) × Text, Dissects text cut.1 cut.2) ∧
      (∀ parts rest, Dissects text parts rest →
        strip text = joinWith ['\n'] (((lines (outsideBlocks parts rest)).map fun line =>
          trimEnd (codeOf line)).filter (· ≠ []))) ∧
      (∀ line, encodeUtf8 (codeOf line) =
        match commentOffset? line with
        | some i => (encodeUtf8 line).take i
        | none => encodeUtf8 line) ∧
      ∀ line ∈ lines (strip text), IsStrippedLine line := by
  refine ⟨existsUnique_dissects text, ?_, encodeUtf8_codeOf, fun line => isStrippedLine_of_mem⟩
  intro parts rest h
  rw [strip, removeBlocks_of_dissects h, filterMap_keptLine?]

/-- A block with code on both sides. The first closing token would share a star with the opening
one. -/
def sharedStar : Text :=
  ['a', '/', '*', '*', '/', '*', '/', 'b', ' ', '\r', '/', '/', '\n']

theorem sharedStar_dissects :
    Dissects sharedStar [(['a'], ['/', '*', '*', '/', '*', '/'])]
      ['b', ' ', '\r', '/', '/', '\n'] := by
  apply @Dissects.block ['a'] ['/', '*', '*', '/', '*', '/']
  · exact ⟨['/'], rfl, .cons (by decide) .nil⟩
  · exact .cons (by decide) .nil
  · apply Dissects.rest
    rintro ⟨front, body, hblock⟩
    exact absurd (hblock.subset (by simp [opening] : '*' ∈ _)) (by decide)

/-- The block goes up to the second closing token, and the line comment behind it makes no line. -/
theorem sharedStar_strip :
    strip sharedStar =
        joinWith ['\n'] (((lines ['a', 'b', ' ', '\r', '/', '/', '\n']).map fun line =>
          trimEnd (codeOf line)).filter (· ≠ [])) ∧
      strip sharedStar = ['a', 'b'] ∧ IsStrippedLine ['a', 'b'] := by
  obtain ⟨-, hstrip, -, hlines⟩ := strip_of_dissects sharedStar
  exact ⟨hstrip _ _ sharedStar_dissects, by decide, hlines _ (by decide)⟩

end TreeFold.Comment
