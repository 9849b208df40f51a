import Mathlib.Algebra.Ring.Parity
import Mathlib.Data.List.DropRight
import Pageweave.Proofs.Returns
import Pageweave.Proofs.Templates

/-!
# Constructs without an end

Cutting a script fails just if it comes to an opening delimiter of a construct that has no end, and
the failure names that construct and the line of its delimiter (`minify_failure_located`).

Whether a construct has an end is said here of places in the text: a character is escaped if an odd
number of backslashes stands directly before it, and it is in a character class if a bracket before
it has not been closed. The functions that measure lexemes go through the text from the left
instead and never look back. `exists_escaped` and `exists_isPattern` join the two: the first place
where a literal may end is the one they find.
-/

namespace Pageweave.Script

/-! ## Places in a literal -/

/-- A character behind the text is escaped: the number of backslashes directly before it is odd. -/
def EndsInEscape (text : Text) : Prop :=
  Odd (text.rtakeWhile (· = '\\')).length

/-- A character stands in a text, not escaped, before the rest of it. -/
def StandsFree (c : Char) (text after : Text) : Prop :=
  ∃ before, text = before ++ c :: after ∧ ¬EndsInEscape before

/-- A character stands somewhere in a text without being escaped. -/
def HasFree (c : Char) (text : Text) : Prop :=
  ∃ after, StandsFree c text after

/-- A character behind the text is in a character class: a bracket opens a class, or the text begins
in one, and no bracket closes it. -/
def EndsInClass (inClass : Bool) (text : Text) : Prop :=
  (inClass = true ∧ ¬HasFree ']' text) ∨ ∃ after, StandsFree '[' text after ∧ ¬HasFree ']' after

section Places

variable {c d : Char} {text after : Text} {inClass : Bool}

theorem not_endsInEscape_nil : ¬EndsInEscape [] := by
  simp [EndsInEscape]

theorem endsInEscape_backslash : EndsInEscape ['\\'] := by
  simp [EndsInEscape, List.rtakeWhile]

theorem endsInEscape_cons (other : c ≠ '\\') : EndsInEscape (c :: text) ↔ EndsInEscape text := by
  have same : (c :: text).rtakeWhile (· = '\\') = text.rtakeWhile (· = '\\') := by
    simp only [List.rtakeWhile, List.reverse_cons, List.takeWhile_append]
    split
    · next all =>
        rw [(List.takeWhile_prefix _).eq_of_length all]
        simp [other]
    · rfl
  rw [EndsInEscape, EndsInEscape, same]

theorem endsInEscape_escape : EndsInEscape ('\\' :: c :: text) ↔ EndsInEscape text := by
  simp only [EndsInEscape, List.rtakeWhile, List.reverse_cons, List.append_assoc,
    List.takeWhile_append, List.length_reverse]
  split
  · next all =>
      -- The backslashes go back to the start, and so over both characters of the pair or over none.
      by_cases backslash : c = '\\'
      · simp [backslash, all, Nat.odd_add]
      · simp [backslash, all]
  · rfl

theorem not_standsFree_nil : ¬StandsFree c [] after := by
  simp [StandsFree]

theorem standsFree_cons (other : d ≠ '\\') : StandsFree c (d :: text) after ↔
    (d = c ∧ text = after) ∨ StandsFree c text after := by
  constructor
  · rintro ⟨before, same, unescaped⟩
    rcases before with _ | ⟨b, before⟩
    · exact Or.inl (List.cons.inj same)
    · rcases List.cons.inj same with ⟨rfl, rfl⟩
      exact Or.inr ⟨before, rfl, (not_congr (endsInEscape_cons other)).mp unescaped⟩
  · rintro (⟨rfl, rfl⟩ | ⟨before, rfl, unescaped⟩)
    · exact ⟨[], rfl, not_endsInEscape_nil⟩
    · exact ⟨d :: before, rfl, (not_congr (endsInEscape_cons other)).mpr unescaped⟩

theorem standsFree_escape (other : c ≠ '\\') :
    StandsFree c ('\\' :: d :: text) after ↔ StandsFree c text after := by
  constructor
  · rintro ⟨before, same, unescaped⟩
    rcases before with _ | ⟨b, _ | ⟨b', before⟩⟩
    · exact absurd (List.cons.inj same).1.symm other
    · rcases List.cons.inj same with ⟨rfl, -⟩
      exact absurd endsInEscape_backslash unescaped
    · simp only [List.cons_append, List.cons.injEq] at same
      rcases same with ⟨rfl, rfl, rfl⟩
      exact ⟨before, rfl, (not_congr endsInEscape_escape).mp unescaped⟩
  · rintro ⟨before, rfl, unescaped⟩
    exact ⟨'\\' :: d :: before, rfl, (not_congr endsInEscape_escape).mpr unescaped⟩

theorem not_hasFree_nil : ¬HasFree c [] :=
  fun ⟨_, stands⟩ => not_standsFree_nil stands

theorem hasFree_cons (other : d ≠ '\\') : HasFree c (d :: text) ↔ d = c ∨ HasFree c text := by
  simp [HasFree, standsFree_cons other, exists_or]

theorem hasFree_escape (other : c ≠ '\\') : HasFree c ('\\' :: d :: text) ↔ HasFree c text := by
  simp [HasFree, standsFree_escape other]

theorem endsInClass_nil : EndsInClass inClass [] ↔ inClass = true := by
  simp [EndsInClass, not_hasFree_nil, not_standsFree_nil]

theorem endsInClass_escape :
    EndsInClass inClass ('\\' :: d :: text) ↔ EndsInClass inClass text := by
  simp [EndsInClass, hasFree_escape, standsFree_escape]

theorem endsInClass_opens : EndsInClass inClass ('[' :: text) ↔ EndsInClass true text := by
  simp only [EndsInClass, hasFree_cons (show '[' ≠ '\\' by decide),
    standsFree_cons (show '[' ≠ '\\' by decide)]
  grind

theorem endsInClass_closes : EndsInClass inClass (']' :: text) ↔ EndsInClass false text := by
  simp [EndsInClass, hasFree_cons, standsFree_cons]

theorem endsInClass_cons (plain : c ∉ ['\\', '[', ']']) :
    EndsInClass inClass (c :: text) ↔ EndsInClass inClass text := by
  simp only [List.mem_cons, List.not_mem_nil, or_false, not_or] at plain
  simp [EndsInClass, hasFree_cons, standsFree_cons, plain]

/-- A text is taken apart into escaped pairs, a backslash at its end and other characters. -/
@[elab_as_elim]
theorem escape_induction {motive : Text → Prop} (nil : motive []) (backslash : motive ['\\'])
    (escape : ∀ c text, motive text → motive ('\\' :: c :: text))
    (plain : ∀ c text, c ≠ '\\' → motive text → motive (c :: text)) : ∀ text, motive text
  | [] => nil
  | [c] => by
      by_cases slash : c = '\\'
      · exact slash ▸ backslash
      · exact plain c [] slash nil
  | c :: d :: text => by
      by_cases slash : c = '\\'
      · exact slash ▸ escape d text (escape_induction nil backslash escape plain text)
      · exact plain c (d :: text) slash (escape_induction nil backslash escape plain (d :: text))

end Places

/-! ## Ends of literals -/

section Ends

variable {plain : Char → Bool} {c : Char} {body text rest : Text} {inClass : Bool}

/-- Characters of one kind and escaped pairs hold no other character that is not escaped. -/
theorem Escaped.places (noBackslash : plain '\\' = false) (escaped : Escaped plain text) :
    ¬EndsInEscape text ∧ ∀ c, c ≠ '\\' → HasFree c text → plain c = true := by
  induction escaped with
  | nil => exact ⟨not_endsInEscape_nil, fun c _ free => absurd free not_hasFree_nil⟩
  | @plain d text isPlain later ih =>
      have other : d ≠ '\\' := by
        rintro rfl
        rw [noBackslash] at isPlain
        cases isPlain
      refine ⟨(not_congr (endsInEscape_cons other)).mpr ih.1, ?_⟩
      intro c notBackslash free
      rcases (hasFree_cons other).mp free with rfl | free
      · exact isPlain
      · exact ih.2 c notBackslash free
  | @escape d text later ih =>
      refine ⟨(not_congr endsInEscape_escape).mpr ih.1, ?_⟩
      intro c notBackslash free
      exact ih.2 c notBackslash ((hasFree_escape notBackslash).mp free)

/-- If a literal may end at some place, there is a first one. -/
theorem exists_escaped {close : Char} (unescaped : ¬EndsInEscape body)
    (others : ∀ c, c ≠ '\\' → c ≠ close → HasFree c body → plain c = true) (rest : Text) :
    ∃ inner back, body ++ close :: rest = inner ++ close :: back ∧ Escaped plain inner := by
  induction body using escape_induction with
  | nil => exact ⟨[], rest, rfl, .nil⟩
  | backslash => exact absurd endsInEscape_backslash unescaped
  | escape d body ih =>
      have later := ih ((not_congr endsInEscape_escape).mp unescaped)
        fun c notBackslash differs free =>
          others c notBackslash differs ((hasFree_escape notBackslash).mpr free)
      rcases later with ⟨inner, back, same, escaped⟩
      exact ⟨'\\' :: d :: inner, back, by simp [same], .escape escaped⟩
  | plain d body other ih =>
      by_cases closes : d = close
      · exact ⟨[], body ++ close :: rest, by simp [closes], .nil⟩
      have later := ih ((not_congr (endsInEscape_cons other)).mp unescaped)
        fun c notBackslash differs free =>
          others c notBackslash differs ((hasFree_cons other).mpr (Or.inr free))
      rcases later with ⟨inner, back, same, escaped⟩
      have isPlain := others d other closes ((hasFree_cons other).mpr (Or.inl rfl))
      exact ⟨d :: inner, back, by simp [same], .plain isPlain escaped⟩

/-- Behind what stands between the slashes of a regular expression literal, a slash ends it. -/
theorem IsPattern.places (pattern : IsPattern inClass text) :
    ¬EndsInEscape text ∧ ¬EndsInClass inClass text ∧ ¬HasFree '\n' text := by
  induction pattern with
  | nil => exact ⟨not_endsInEscape_nil, by simp [endsInClass_nil], not_hasFree_nil⟩
  | escape later ih =>
      rwa [endsInEscape_escape, endsInClass_escape, hasFree_escape (by decide)]
  | opens later ih =>
      rw [endsInEscape_cons (by decide), endsInClass_opens, hasFree_cons (by decide)]
      simpa using ih
  | closes later ih =>
      rw [endsInEscape_cons (by decide), endsInClass_closes, hasFree_cons (by decide)]
      simpa using ih
  | @plain inClass c text isPlain inside later ih =>
      simp only [List.mem_cons, List.not_mem_nil, or_false, not_or] at isPlain
      rw [endsInEscape_cons isPlain.1, endsInClass_cons (by simp [isPlain]),
        hasFree_cons isPlain.1]
      simpa [isPlain] using ih

/-- If a regular expression literal may end at some place, there is a first one. -/
theorem exists_isPattern (unescaped : ¬EndsInEscape body) (outside : ¬EndsInClass inClass body)
    (unbroken : ¬HasFree '\n' body) (rest : Text) :
    ∃ inner back, body ++ '/' :: rest = inner ++ '/' :: back ∧ IsPattern inClass inner := by
  induction body using escape_induction generalizing inClass with
  | nil =>
      rw [endsInClass_nil, Bool.not_eq_true] at outside
      exact ⟨[], rest, rfl, outside ▸ .nil⟩
  | backslash => exact absurd endsInEscape_backslash unescaped
  | escape d body ih =>
      rw [endsInEscape_escape] at unescaped
      rw [endsInClass_escape] at outside
      rw [hasFree_escape (by decide)] at unbroken
      rcases ih unescaped outside unbroken with ⟨inner, back, same, pattern⟩
      exact ⟨'\\' :: d :: inner, back, by simp [same], .escape pattern⟩
  | plain d body other ih =>
      rw [endsInEscape_cons other] at unescaped
      rw [hasFree_cons other, not_or] at unbroken
      by_cases opens : d = '['
      · subst opens
        rcases ih unescaped ((not_congr endsInClass_opens).mp outside) unbroken.2 with
          ⟨inner, back, same, pattern⟩
        exact ⟨'[' :: inner, back, by simp [same], .opens pattern⟩
      by_cases closes : d = ']'
      · subst closes
        rcases ih unescaped ((not_congr endsInClass_closes).mp outside) unbroken.2 with
          ⟨inner, back, same, pattern⟩
        exact ⟨']' :: inner, back, by simp [same], .closes pattern⟩
      by_cases ends : d = '/' ∧ inClass = false
      · -- The literal ends here already, before the given place.
        rcases ends with ⟨rfl, rfl⟩
        exact ⟨[], body ++ '/' :: rest, rfl, .nil⟩
      · rw [endsInClass_cons (by simp [other, opens, closes])] at outside
        rcases ih unescaped outside unbroken.2 with ⟨inner, back, same, pattern⟩
        refine ⟨d :: inner, back, by simp [same], .plain ?_ ?_ pattern⟩
        · simp [other, unbroken.1, opens, closes]
        · exact fun slash => by simpa [slash] using ends

end Ends

/-! ## Opening delimiters and ends -/

/-- The rest of a script begins with an opening delimiter of a construct. For a slash it matters
which minified text stands before it. -/
def Construct.Opens (construct : Construct) (minified after : Text) : Prop :=
  match construct with
  | .blockComment => ['/', '*'] <+: after
  | .string => after.head? = some '\x27' ∨ after.head? = some '\x22'
  | .template => after.head? = some '\x60'
  | .regex => after.head? = some '/' ∧ after.tail.head? ≠ some '/' ∧ after.tail.head? ≠ some '*' ∧
      regexAllowed minified.reverse = true

/-- A construct at the start of a text has an end in it. A comment ends with `*/`, and a literal
with its closing delimiter where that is not escaped: a string and a regular expression only before
the first line feed that is not escaped, and a regular expression only outside its classes. -/
def Construct.HasEnd (construct : Construct) (text : Text) : Prop :=
  match construct with
  -- The star that opens a comment cannot close it as well.
  | .blockComment => ['*', '/'] <:+: text.drop 2
  | .string => ∃ quote body rest, text = quote :: (body ++ quote :: rest) ∧
      ¬EndsInEscape body ∧ ¬HasFree '\n' body
  | .template => ∃ body rest, text = '\x60' :: (body ++ '\x60' :: rest) ∧ ¬EndsInEscape body
  | .regex => ∃ body rest, text = '/' :: (body ++ '/' :: rest) ∧
      ¬EndsInEscape body ∧ ¬EndsInClass false body ∧ ¬HasFree '\n' body

section Opening

variable {construct : Construct} {minified written text rest : Text} {c : Char}

theorem stringExtent_eq_none_iff {quote : Char} (quotes : quote = '\x27' ∨ quote = '\x22') :
    stringExtent quote 0 text = none ↔ ¬Construct.HasEnd .string (quote :: text) := by
  rw [← Option.not_isSome_iff_eq_none, Option.isSome_iff_exists]
  apply not_congr
  constructor
  · rintro ⟨n, found⟩
    rcases exists_of_stringExtent found with ⟨body, rest, rfl, -, escaped⟩
    have places := escaped.places (by simp [inString])
    refine ⟨quote, body, rest, rfl, places.1, ?_⟩
    intro feed
    simpa [inString] using places.2 '\n' (by decide) feed
  · rintro ⟨_, body, rest, same, unescaped, unbroken⟩
    rcases List.cons.inj same with ⟨rfl, rfl⟩
    have others : ∀ c, c ≠ '\\' → c ≠ quote → HasFree c body → inString quote c = true := by
      intro c notBackslash differs free
      have notFeed : c ≠ '\n' := fun feed => unbroken (feed ▸ free)
      simp [inString, notBackslash, differs, notFeed]
    rcases exists_escaped unescaped others rest with ⟨inner, back, same, escaped⟩
    exact ⟨_, same ▸ stringExtent_of_escaped quotes escaped back⟩

theorem templateExtent_eq_none_iff :
    templateExtent 0 text = none ↔ ¬Construct.HasEnd .template ('\x60' :: text) := by
  rw [← Option.not_isSome_iff_eq_none, Option.isSome_iff_exists]
  apply not_congr
  constructor
  · rintro ⟨n, found⟩
    rcases exists_of_templateExtent found with ⟨body, rest, rfl, -, escaped⟩
    exact ⟨body, rest, rfl, (escaped.places (by decide)).1⟩
  · rintro ⟨body, rest, same, unescaped⟩
    rcases List.cons.inj same with ⟨-, rfl⟩
    have others : ∀ c, c ≠ '\\' → c ≠ '\x60' → HasFree c body → inTemplate c = true := by
      intro c notBackslash differs free
      simp [inTemplate, notBackslash, differs]
    rcases exists_escaped unescaped others rest with ⟨inner, back, same, escaped⟩
    exact ⟨_, same ▸ templateExtent_of_escaped escaped back⟩

theorem regexExtent_eq_none_iff :
    regexExtent false 0 text = none ↔ ¬Construct.HasEnd .regex ('/' :: text) := by
  rw [← Option.not_isSome_iff_eq_none, Option.isSome_iff_exists]
  apply not_congr
  constructor
  · rintro ⟨n, found⟩
    rcases exists_of_regexExtent found with ⟨body, rest, rfl, -, pattern⟩
    exact ⟨body, rest, rfl, pattern.places⟩
  · rintro ⟨body, rest, same, unescaped, outside, unbroken⟩
    rcases List.cons.inj same with ⟨-, rfl⟩
    rcases exists_isPattern unescaped outside unbroken rest with ⟨inner, back, same, pattern⟩
    exact ⟨_, same ▸ regexExtent_of_isPattern pattern back⟩

theorem Construct.Opens.exists_head {after : Text} (opens : construct.Opens minified after) :
    ∃ c rest, after = c :: rest := by
  cases after with
  | nil => cases construct <;> simp [Opens] at opens
  | cons c rest => exact ⟨c, rest, rfl⟩

/-- Cutting off a lexeme fails just where an opening delimiter stands whose construct has no end. -/
theorem measure_eq_error_iff : Lexeme.measure written c rest = .error construct ↔
    construct.Opens written.reverse (c :: rest) ∧ ¬construct.HasEnd (c :: rest) := by
  constructor
  · intro failed
    unfold Lexeme.measure at failed
    split_ifs at failed with blank line block quote backtick parenthesis slash
    · rcases closed_eq_error_iff.mp failed with ⟨rfl, endless⟩
      simp only [Bool.and_eq_true, decide_eq_true_eq] at block
      rcases List.head?_eq_some_iff.mp block.2 with ⟨body, rfl⟩
      rw [blockCommentExtent_eq_none_iff] at endless
      exact ⟨block.1 ▸ ⟨body, rfl⟩, endless⟩
    · rcases closed_eq_error_iff.mp failed with ⟨rfl, endless⟩
      simp only [Bool.or_eq_true, decide_eq_true_eq] at quote
      rw [stringExtent_eq_none_iff quote] at endless
      exact ⟨by simpa [Construct.Opens] using quote, endless⟩
    · rcases closed_eq_error_iff.mp failed with ⟨rfl, endless⟩
      subst backtick
      rw [templateExtent_eq_none_iff] at endless
      exact ⟨rfl, endless⟩
    · split at failed <;> cases failed
    · rcases closed_eq_error_iff.mp failed with ⟨rfl, endless⟩
      simp only [Bool.and_eq_true, decide_eq_true_eq] at slash
      rcases slash with ⟨rfl, allowed⟩
      rw [regexExtent_eq_none_iff] at endless
      exact ⟨⟨rfl, by simpa using line, by simpa using block, by simpa using allowed⟩, endless⟩
  · rintro ⟨opens, endless⟩
    cases construct with
    | blockComment =>
        rcases opens with ⟨body, same⟩
        simp only [List.cons_append, List.nil_append, List.cons.injEq] at same
        rcases same with ⟨rfl, rfl⟩
        exact closed_eq_error_iff.mpr ⟨rfl, blockCommentExtent_eq_none_iff.mpr endless⟩
    | string =>
        have quote : c = '\x27' ∨ c = '\x22' := by simpa [Construct.Opens] using opens
        rw [← stringExtent_eq_none_iff quote] at endless
        rcases quote with rfl | rfl <;> exact closed_eq_error_iff.mpr ⟨rfl, endless⟩
    | template =>
        obtain rfl : c = '\x60' := by simpa [Construct.Opens] using opens
        rw [← templateExtent_eq_none_iff] at endless
        exact closed_eq_error_iff.mpr ⟨rfl, endless⟩
    | regex =>
        rcases opens with ⟨slash, apart, apart', allowed⟩
        obtain rfl : c = '/' := by simpa using slash
        rw [List.tail_cons] at apart apart'
        rw [List.reverse_reverse] at allowed
        rw [← regexExtent_eq_none_iff] at endless
        have dark : Pageweave.isBlank '/' = false := by decide
        simp [Lexeme.measure, dark, apart, apart', allowed, endless, Lexeme.measure.closed]

end Opening

/-! ## Cutting up to a delimiter -/

section Cutting

variable {lexeme : Lexeme} {lexemes : List Lexeme} {progress : Progress} {written front rest : Text}

/-- A lexeme that is complete before a text is complete before any beginning of it. -/
theorem Lexeme.IsComplete.of_append (complete : lexeme.IsComplete (front ++ rest)) :
    lexeme.IsComplete front := by
  rcases lexeme with ⟨shape, text⟩
  cases shape with
  | space | blockComment | string | template | regex | directive => exact complete
  | lineComment =>
      rcases complete with ⟨body, text_eq, unbroken, ends⟩
      refine ⟨body, text_eq, unbroken, ?_⟩
      cases front with
      | nil => exact Or.inl rfl
      | cons c front => exact Or.inr (by simpa using ends)
  | code =>
      rcases complete with ⟨c, text_eq, dark, quotes, apart, noTag⟩
      refine ⟨c, text_eq, dark, quotes, ?_, ?_⟩
      · cases front with
        | nil => simp
        | cons d front => exact apart
      · intro tag isTag here
        exact noTag tag isTag (here.trans (List.prefix_append (c :: front) rest))

theorem Lexeme.Reads.of_append (reads : lexeme.Reads written (front ++ rest)) :
    lexeme.Reads written front := by
  rw [Lexeme.reads_iff] at reads ⊢
  exact ⟨reads.1.of_append, reads.2⟩

/-- Lexemes of a script are recognised as well if the script ends behind them. -/
theorem ReadsAll.of_rest (reads : ReadsAll progress lexemes rest) :
    ReadsAll progress lexemes [] := by
  induction lexemes generalizing progress with
  | nil => trivial
  | cons lexeme lexemes ih =>
      rcases reads with ⟨here, later⟩
      refine ⟨?_, ih later⟩
      rw [List.append_nil]
      exact here.of_append

theorem exists_segment_of_readsAll (reads : ReadsAll {} lexemes rest) :
    ∃ segmentation, segment (lexemes.flatMap Lexeme.text) = .ok segmentation ∧
      segmentation.lexemes = lexemes := by
  rcases exists_areCut_of_readsAll rfl reads.of_rest with ⟨pieces, trailing, rfl, areCut⟩
  exact ⟨⟨pieces, trailing⟩, segment_eq_ok_iff.mpr ⟨flatMap_lexemes _, areCut⟩, rfl⟩

end Cutting

/-- Cutting a script comes to an opening delimiter of a construct: what stands before it is cut
without failing, into lexemes that are recognised before the rest of the script as well. -/
def Meets (construct : Construct) (before after : Text) : Prop :=
  ∃ segmentation, segment before = .ok segmentation ∧ ReadsAll {} segmentation.lexemes after ∧
    construct.Opens segmentation.minified after

section Meets

variable {construct : Construct} {before after source : Text} {failure : Unterminated}

/-- A script fails where it meets an opening delimiter without an end. -/
theorem Meets.minify_eq_error (meets : Meets construct before after)
    (endless : ¬construct.HasEnd after) :
    minify (before ++ after) = .error ⟨construct, 1 + before.count '\n'⟩ := by
  rcases meets with ⟨segmentation, cut, reads, opens⟩
  rcases opens.exists_head with ⟨c, rest, rfl⟩
  rw [minified_eq_writtenBy cut] at opens
  have failed := measure_eq_error_iff.mpr ⟨opens, endless⟩
  have before_eq := (segment_eq_ok_iff.mp cut).1
  rw [← flatMap_lexemes] at before_eq
  rw [minify, segment, before_eq, segmentFrom_append_of_readsAll reads, segmentFrom_of_error failed,
    line_foldl_add]
  rfl

/-- A script that fails meets an opening delimiter without an end. -/
theorem exists_meets_of_error (failed : minify source = .error failure) :
    ∃ before after, source = before ++ after ∧ Meets failure.construct before after ∧
      ¬failure.construct.HasEnd after ∧ failure.line = 1 + before.count '\n' := by
  rcases exists_lexemes_of_error (segment_error_of_minify failed) with
    ⟨lexemes, c, rest, source_eq, reads, measured, line_eq⟩
  rcases exists_segment_of_readsAll reads with ⟨segmentation, cut, rfl⟩
  rcases measure_eq_error_iff.mp measured with ⟨opens, endless⟩
  refine ⟨_, c :: rest, source_eq, ⟨segmentation, cut, reads, ?_⟩, endless, line_eq⟩
  rwa [minified_eq_writtenBy cut]

end Meets

/-- Minifying a script fails just if cutting it comes to an opening delimiter without an end, and
then with the construct and the line of that delimiter. It succeeds just if each delimiter that
cutting comes to has an end. -/
theorem minify_failure_located (source : Text) :
    (∀ failure, minify source = .error failure ↔
      ∃ before after, source = before ++ after ∧ Meets failure.construct before after ∧
        ¬failure.construct.HasEnd after ∧ failure.line = 1 + before.count '\n') ∧
    ((∃ minified, minify source = .ok minified) ↔
      ∀ construct before after, source = before ++ after → Meets construct before after →
        construct.HasEnd after) := by
  refine ⟨fun failure => ⟨exists_meets_of_error, ?_⟩, ?_, ?_⟩
  · rintro ⟨before, after, rfl, meets, endless, line_eq⟩
    rw [meets.minify_eq_error endless, ← line_eq]
  · rintro ⟨minified, done⟩ construct before after rfl meets
    by_contra endless
    rw [meets.minify_eq_error endless] at done
    cases done
  · intro ended
    cases done : minify source with
    | ok minified => exact ⟨minified, rfl⟩
    | error failure =>
        rcases exists_meets_of_error done with ⟨before, after, source_eq, meets, endless, -⟩
        exact absurd (ended _ before after source_eq meets) endless

/-- An escaped line feed does not end the string, and a slash in a class not the literal. -/
theorem minify_failure_located_class :
    (∃ before after, "a = 1;\n'b\\\n' + /[/]\nc/".toList = before ++ after ∧
      Meets .regex before after ∧ ¬Construct.HasEnd .regex after ∧ 3 = 1 + before.count '\n') ∧
    ∀ construct before after, "a = 1;\n'b\\\n' + /[/]/\nc".toList = before ++ after →
      Meets construct before after → construct.HasEnd after :=
  ⟨((minify_failure_located _).1 ⟨.regex, 3⟩).mp (by decide +kernel),
    (minify_failure_located _).2.mp ⟨"a=1;'b\\\n'+/[/]/\nc".toList, by decide +kernel⟩⟩

end Pageweave.Script
