import Mathlib.Data.List.Chain
import Mathlib.Data.List.Infix
import Pageweave.Proofs.Segments
import Pageweave.Proofs.Tokens

/-!
# What is left of a minified script

A lexeme is complete before a text if it goes on to the end of what it is and no further: a literal
to its closing delimiter, a comment to `*/` or the end of its line. These are rules for texts, given
without the functions that measure lexemes.

A script that can be minified consists of complete lexemes. Its tokens are left in their order, and
in place of the blanks between two tokens stands nothing, a space or a line feed
(`exists_pieces_of_minify`).
-/

namespace Pageweave.Script

/-! ## Complete lexemes -/

/-- A text of characters of one kind, and of pairs of a backslash and any other character. -/
inductive Escaped (plain : Char → Bool) : Text → Prop
  | nil : Escaped plain []
  | plain {c : Char} {text : Text} (isPlain : plain c = true) (later : Escaped plain text) :
      Escaped plain (c :: text)
  | escape {c : Char} {text : Text} (later : Escaped plain text) :
      Escaped plain ('\\' :: c :: text)

theorem Escaped.append {plain : Char → Bool} {first second : Text} (escaped : Escaped plain first)
    (escaped' : Escaped plain second) : Escaped plain (first ++ second) := by
  induction escaped with
  | nil => exact escaped'
  | plain isPlain later ih => exact .plain isPlain ih
  | escape later ih => exact .escape ih

/-- A character that stands for itself in a string literal with this quote. -/
def inString (quote c : Char) : Bool :=
  c ≠ '\\' && c ≠ '\n' && c ≠ quote

/-- A character that stands for itself in a template literal. -/
def inTemplate (c : Char) : Bool :=
  c ≠ '\\' && c ≠ '\x60'

/-- What stands between the slashes of a regular expression literal, from a place inside or outside
a character class on. -/
inductive IsPattern : (inClass : Bool) → Text → Prop
  | nil : IsPattern false []
  | escape {inClass : Bool} {c : Char} {text : Text} (later : IsPattern inClass text) :
      IsPattern inClass ('\\' :: c :: text)
  | opens {inClass : Bool} {text : Text} (later : IsPattern true text) :
      IsPattern inClass ('[' :: text)
  | closes {inClass : Bool} {text : Text} (later : IsPattern false text) :
      IsPattern inClass (']' :: text)
  | plain {inClass : Bool} {c : Char} {text : Text} (isPlain : c ∉ ['\\', '\n', '[', ']'])
      (inside : c = '/' → inClass = true) (later : IsPattern inClass text) :
      IsPattern inClass (c :: text)

/-- A lexeme goes on to the end of what it is and no further when a text follows it. -/
def Lexeme.IsComplete (lexeme : Lexeme) (rest : Text) : Prop :=
  match lexeme.shape with
  | .space => ∃ c, lexeme.text = [c] ∧ Pageweave.isBlank c = true
  | .lineComment => ∃ body, lexeme.text = '/' :: '/' :: body ∧ '\n' ∉ body ∧
      (rest = [] ∨ rest.head? = some '\n')
  | .blockComment => ∃ body, lexeme.text = '/' :: '*' :: (body ++ ['*', '/']) ∧
      ¬['*', '/'] <:+: body ++ ['*']
  | .string => ∃ quote body, (quote = '\x27' ∨ quote = '\x22') ∧
      lexeme.text = quote :: (body ++ [quote]) ∧ Escaped (inString quote) body
  | .template => ∃ body, lexeme.text = '\x60' :: (body ++ ['\x60']) ∧ Escaped inTemplate body
  | .regex => ∃ body, lexeme.text = '/' :: (body ++ ['/']) ∧ body ≠ [] ∧ body.head? ≠ some '*' ∧
      IsPattern false body
  | .directive => IsTag lexeme.text
  | .code => ∃ c, lexeme.text = [c] ∧ Pageweave.isBlank c = false ∧ c ∉ ['\x27', '\x22', '\x60'] ∧
      (c = '/' → rest.head? ≠ some '/' ∧ rest.head? ≠ some '*') ∧
      ∀ tag, IsTag tag → ¬tag <+: c :: rest

section Extents

variable {taken n : Nat} {text : Text}

theorem exists_of_stringExtent {quote : Char} (found : stringExtent quote taken text = some n) :
    ∃ body rest, text = body ++ quote :: rest ∧ n = taken + body.length + 1 ∧
      Escaped (inString quote) body := by
  fun_induction stringExtent quote taken text with
  | case1 => cases found
  | case2 => cases found
  | case3 taken c rest ih =>
      rcases ih found with ⟨body, rest, rfl, rfl, escaped⟩
      exact ⟨'\\' :: c :: body, rest, rfl, by simp; omega, .escape escaped⟩
  | case4 => cases found
  | case5 taken rest =>
      cases found
      exact ⟨[], rest, rfl, rfl, .nil⟩
  | case6 taken c rest unescaped unbroken goesOn ih =>
      rcases ih found with ⟨body, rest, rfl, rfl, escaped⟩
      refine ⟨c :: body, rest, rfl, by simp; omega, .plain ?_ escaped⟩
      simp [inString, unescaped, unbroken, goesOn]

theorem exists_of_templateExtent (found : templateExtent taken text = some n) :
    ∃ body rest, text = body ++ '\x60' :: rest ∧ n = taken + body.length + 1 ∧
      Escaped inTemplate body := by
  fun_induction templateExtent taken text with
  | case1 => cases found
  | case2 => cases found
  | case3 taken c rest ih =>
      rcases ih found with ⟨body, rest, rfl, rfl, escaped⟩
      exact ⟨'\\' :: c :: body, rest, rfl, by simp; omega, .escape escaped⟩
  | case4 taken rest =>
      cases found
      exact ⟨[], rest, rfl, rfl, .nil⟩
  | case5 taken c rest unescaped goesOn ih =>
      rcases ih found with ⟨body, rest, rfl, rfl, escaped⟩
      refine ⟨c :: body, rest, rfl, by simp; omega, .plain ?_ escaped⟩
      simp [inTemplate, unescaped, goesOn]

theorem exists_of_regexExtent {inClass : Bool} (found : regexExtent inClass taken text = some n) :
    ∃ body rest, text = body ++ '/' :: rest ∧ n = taken + body.length + 1 ∧
      IsPattern inClass body := by
  fun_induction regexExtent inClass taken text with
  | case1 => cases found
  | case2 => cases found
  | case3 => cases found
  | case4 inClass taken c rest _ ih =>
      rcases ih found with ⟨body, rest, rfl, rfl, pattern⟩
      exact ⟨'\\' :: c :: body, rest, rfl, by simp; omega, .escape pattern⟩
  | case5 inClass taken rest _ _ ih =>
      rcases ih found with ⟨body, rest, rfl, rfl, pattern⟩
      exact ⟨'[' :: body, rest, rfl, by simp; omega, .opens pattern⟩
  | case6 inClass taken rest _ _ _ ih =>
      rcases ih found with ⟨body, rest, rfl, rfl, pattern⟩
      exact ⟨']' :: body, rest, rfl, by simp; omega, .closes pattern⟩
  | case7 inClass taken c rest _ _ _ _ ends =>
      cases found
      simp only [Bool.and_eq_true, decide_eq_true_eq, Bool.not_eq_true'] at ends
      rcases ends with ⟨rfl, rfl⟩
      exact ⟨[], rest, rfl, rfl, .nil⟩
  | case8 inClass taken c rest unbroken unescaped notOpening notClosing goesOn ih =>
      rcases ih found with ⟨body, rest, rfl, rfl, pattern⟩
      refine ⟨c :: body, rest, rfl, by simp; omega, .plain ?_ ?_ pattern⟩
      · simp [unbroken, unescaped, notOpening, notClosing]
      · rintro rfl
        simpa using goesOn

theorem exists_of_blockCommentExtent (found : blockCommentExtent taken text = some n) :
    ∃ body rest, text = body ++ '*' :: '/' :: rest ∧ n = taken + body.length + 2 ∧
      ¬['*', '/'] <:+: body ++ ['*'] := by
  fun_induction blockCommentExtent taken text with
  | case1 => cases found
  | case2 taken c rest ends =>
      cases found
      simp only [Bool.and_eq_true, decide_eq_true_eq] at ends
      rcases ends with ⟨rfl, head⟩
      rcases List.head?_eq_some_iff.mp head with ⟨rest, rfl⟩
      exact ⟨[], rest, rfl, rfl, by decide⟩
  | case3 taken c rest goesOn ih =>
      rcases ih found with ⟨body, rest, rfl, rfl, first⟩
      refine ⟨c :: body, rest, rfl, by simp; omega, ?_⟩
      intro inside
      rcases List.infix_cons_iff.mp inside with here | later
      · apply goesOn
        rcases List.cons_prefix_cons.mp here with ⟨rfl, next⟩
        cases body with
        | nil => simp at next
        | cons d body =>
            obtain rfl : d = '/' := by simpa [eq_comm] using next
            rfl
      · exact first later

theorem stringExtent_of_escaped {quote : Char} {body : Text}
    (quotes : quote = '\x27' ∨ quote = '\x22') (escaped : Escaped (inString quote) body)
    (rest : Text) :
    stringExtent quote taken (body ++ quote :: rest) = some (taken + body.length + 1) := by
  induction escaped generalizing taken with
  | nil =>
      rw [List.nil_append, stringExtent.eq_def]
      rcases quotes with rfl | rfl <;> rfl
  | @plain c body isPlain later ih =>
      simp only [inString, Bool.and_eq_true, decide_eq_true_eq] at isPlain
      rw [List.cons_append, stringExtent.eq_def]
      simp only [isPlain.1.1, isPlain.1.2, isPlain.2, if_false]
      rw [ih, List.length_cons]
      congr 1
      omega
  | @escape c body later ih =>
      rw [List.cons_append, List.cons_append, stringExtent.eq_def]
      simp only [if_true]
      rw [ih, List.length_cons, List.length_cons]
      congr 1
      omega

theorem templateExtent_of_escaped {body : Text} (escaped : Escaped inTemplate body) (rest : Text) :
    templateExtent taken (body ++ '\x60' :: rest) = some (taken + body.length + 1) := by
  induction escaped generalizing taken with
  | nil =>
      rw [List.nil_append, templateExtent.eq_def]
      rfl
  | @plain c body isPlain later ih =>
      simp only [inTemplate, Bool.and_eq_true, decide_eq_true_eq] at isPlain
      rw [List.cons_append, templateExtent.eq_def]
      simp only [isPlain.1, isPlain.2, if_false]
      rw [ih, List.length_cons]
      congr 1
      omega
  | @escape c body later ih =>
      rw [List.cons_append, List.cons_append, templateExtent.eq_def]
      simp only [if_true]
      rw [ih, List.length_cons, List.length_cons]
      congr 1
      omega

theorem regexExtent_of_isPattern {inClass : Bool} {body : Text} (pattern : IsPattern inClass body)
    (rest : Text) :
    regexExtent inClass taken (body ++ '/' :: rest) = some (taken + body.length + 1) := by
  induction pattern generalizing taken with
  | nil =>
      rw [List.nil_append, regexExtent.eq_def]
      rfl
  | @escape inClass c body later ih =>
      rw [List.cons_append, List.cons_append, regexExtent.eq_def]
      simp [ih]
      omega
  | @opens inClass body later ih =>
      rw [List.cons_append, regexExtent.eq_def]
      simp [ih]
      omega
  | @closes inClass body later ih =>
      rw [List.cons_append, regexExtent.eq_def]
      simp [ih]
      omega
  | @plain inClass c body isPlain inside later ih =>
      simp only [List.mem_cons, List.not_mem_nil, or_false, not_or] at isPlain
      have goesOn : (decide (c = '/') && !inClass) = false := by
        by_cases slash : c = '/'
        · simp [inside slash]
        · simp [slash]
      rw [List.cons_append, regexExtent.eq_def]
      simp [isPlain, goesOn, ih]
      omega

theorem blockCommentExtent_of_first {body : Text} (first : ¬['*', '/'] <:+: body ++ ['*'])
    (rest : Text) :
    blockCommentExtent taken (body ++ '*' :: '/' :: rest) = some (taken + body.length + 2) := by
  induction body generalizing taken with
  | nil => rfl
  | cons c body ih =>
      have goesOn : ¬(c = '*' ∧ (body ++ '*' :: '/' :: rest).head? = some '/') := by
        rintro ⟨rfl, head⟩
        cases body with
        | nil => cases head
        | cons d body =>
            cases head
            exact first ⟨[], body ++ ['*'], rfl⟩
      have later := @ih (taken + 1) fun inside => first (List.infix_cons inside)
      rw [List.cons_append, blockCommentExtent, if_neg (by simpa using goesOn), later,
        List.length_cons]
      congr 1
      omega

end Extents

section Reads

variable {lexeme : Lexeme} {written rest : Text}

/-- A construct takes its inner part and what closes it. -/
theorem body_eq_of_closed {body inner closing back : Text}
    (same : body ++ rest = inner ++ (closing ++ back))
    (length_eq : body.length = inner.length + closing.length) : body = inner ++ closing := by
  rw [← List.append_assoc] at same
  exact (List.append_inj same (by simpa using length_eq)).1

theorem not_isTag_prefix_of_ne {c : Char} (differs : c ≠ '(') (tag : Text) (isTag : IsTag tag) :
    ¬tag <+: c :: rest := by
  intro here
  have opening := (Tag.begins_with_opening isTag).trans here
  exact differs (List.cons_prefix_cons.mp opening).1.symm

theorem not_isTag_prefix_of_directiveExtent (absent : directiveExtent rest = none) (tag : Text)
    (isTag : IsTag tag) : ¬tag <+: '(' :: rest := by
  rintro ⟨after, same⟩
  have found := Tag.atStart?_append isTag after
  rw [same] at found
  simp [directiveExtent_eq, found] at absent

theorem Lexeme.Reads.isComplete (reads : lexeme.Reads written rest) : lexeme.IsComplete rest := by
  have line_ends := reads.line_ends
  have isTag := reads.isTag
  rcases lexeme with ⟨shape, text⟩
  rcases reads with ⟨c, body, rfl, measures⟩
  dsimp only at measures line_ends isTag
  generalize following_eq : body ++ rest = following at measures
  generalize length_eq : body.length = n at measures
  cases measures with
  | space blank =>
      obtain rfl := List.length_eq_zero_iff.mp length_eq
      exact ⟨c, rfl, blank⟩
  | @lineComment following =>
      have front : body <+: '/' :: following := ⟨rest, following_eq⟩
      have body_eq : body = ('/' :: following).takeWhile (· ≠ '\n') :=
        (List.prefix_of_prefix_length_le front (List.takeWhile_prefix _)
          length_eq.le).eq_of_length length_eq
      rw [List.takeWhile_cons_of_pos (by decide)] at body_eq
      refine ⟨following.takeWhile (· ≠ '\n'), by rw [body_eq], ?_, line_ends rfl⟩
      intro feed
      simpa using List.mem_takeWhile_imp feed
  | @blockComment following n extent =>
      rcases exists_of_blockCommentExtent extent with ⟨inner, back, rfl, rfl, first⟩
      have body_eq := @body_eq_of_closed rest body ('*' :: inner) ['*', '/'] back
        (by simpa using following_eq) (by simp; omega)
      exact ⟨inner, by rw [body_eq]; rfl, first⟩
  | string quote extent =>
      rcases exists_of_stringExtent extent with ⟨inner, back, rfl, rfl, escaped⟩
      have body_eq := @body_eq_of_closed rest body inner [c] back following_eq (by simp; omega)
      exact ⟨c, inner, quote, by rw [body_eq], escaped⟩
  | template extent =>
      rcases exists_of_templateExtent extent with ⟨inner, back, rfl, rfl, escaped⟩
      have body_eq := @body_eq_of_closed rest body inner ['\x60'] back following_eq
        (by simp; omega)
      exact ⟨inner, by rw [body_eq], escaped⟩
  | directive extent => exact isTag rfl
  | regex apart allowed extent =>
      rcases exists_of_regexExtent extent with ⟨inner, back, rfl, rfl, pattern⟩
      have body_eq := @body_eq_of_closed rest body inner ['/'] back following_eq (by simp; omega)
      refine ⟨inner, by rw [body_eq], ?_, ?_, pattern⟩
      · rintro rfl
        exact apart.1 rfl
      · intro star
        rcases List.head?_eq_some_iff.mp star with ⟨inner, rfl⟩
        exact apart.2 rfl
  | ordinary plain =>
      obtain rfl := List.length_eq_zero_iff.mp length_eq
      simp only [isOrdinary, Bool.and_eq_true, Bool.not_eq_true', List.contains_eq_mem,
        List.mem_cons, List.not_mem_nil, decide_eq_false_iff_not, or_false, not_or] at plain
      rcases plain with ⟨dark, single, double, backtick, parenthesis, slash⟩
      refine ⟨c, rfl, dark, by simp [single, double, backtick], fun same => absurd same slash, ?_⟩
      exact not_isTag_prefix_of_ne parenthesis
  | parenthesis absent =>
      obtain rfl := List.length_eq_zero_iff.mp length_eq
      rw [List.nil_append] at following_eq
      refine ⟨'(', rfl, by decide, by decide, fun same => absurd same (by decide), ?_⟩
      exact not_isTag_prefix_of_directiveExtent (following_eq ▸ absent)
  | division apart refused =>
      obtain rfl := List.length_eq_zero_iff.mp length_eq
      rw [List.nil_append] at following_eq
      refine ⟨'/', rfl, by decide, by decide, fun _ => following_eq ▸ apart, ?_⟩
      exact not_isTag_prefix_of_ne (by decide)

theorem directiveExtent_eq_none (noTag : ∀ tag, IsTag tag → ¬tag <+: '(' :: rest) :
    directiveExtent rest = none := by
  rw [directiveExtent_eq, Option.map_eq_none_iff]
  cases found : Tag.atStart? ('(' :: rest) with
  | none => rfl
  | some parts =>
      have here : parts.1 <+: '(' :: rest := ⟨parts.2, (Tag.append_of_atStart? found).symm⟩
      exact absurd here (noTag _ (Tag.isTag_of_atStart? found))

theorem Lexeme.Reads.allowed (reads : lexeme.Reads written rest) (regex : lexeme.shape = .regex) :
    regexAllowed written = true := by
  rcases reads with ⟨c, body, -, measures⟩
  rw [regex] at measures
  generalize body ++ rest = following at measures
  cases measures with
  | regex apart allowed extent => exact allowed

theorem Lexeme.Reads.refused (reads : lexeme.Reads written rest) (code : lexeme.shape = .code)
    (slash : lexeme.text = ['/']) : regexAllowed written = false := by
  rcases reads with ⟨c, body, text_eq, measures⟩
  rw [slash] at text_eq
  cases text_eq
  rw [code] at measures
  cases measures with
  | ordinary plain => exact absurd plain (by decide)
  | division apart refused => exact refused

theorem measures_regex {body : Text} (pattern : IsPattern false body) (nonempty : body ≠ [])
    (notComment : body.head? ≠ some '*') (allowed : regexAllowed written = true) :
    Measures written '/' (body ++ ['/'] ++ rest) .regex (body ++ ['/']).length := by
  have extent := @regexExtent_of_isPattern 0 _ _ pattern rest
  have notLine : body.head? ≠ some '/' := by
    cases pattern with
    | nil => exact absurd rfl nonempty
    | escape | opens | closes => simp
    | plain _ inside _ =>
        intro slash
        exact absurd (inside (Option.some.inj slash)) Bool.false_ne_true
  refine .regex ?_ allowed (by simpa using extent)
  rw [List.append_assoc, List.head?_append_of_ne_nil _ nonempty]
  exact ⟨notLine, notComment⟩

theorem measures_code {c : Char} (dark : Pageweave.isBlank c = false)
    (quotes : c ∉ ['\x27', '\x22', '\x60'])
    (apart : c = '/' → rest.head? ≠ some '/' ∧ rest.head? ≠ some '*')
    (noTag : ∀ tag, IsTag tag → ¬tag <+: c :: rest)
    (refused : c = '/' → regexAllowed written = false) : Measures written c rest .code 0 := by
  -- Only a slash and a parenthesis depend on what stands around them.
  by_cases slash : c = '/'
  · have split := apart slash
    have refused' := refused slash
    subst slash
    exact .division split refused'
  · by_cases parenthesis : c = '('
    · subst parenthesis
      exact .parenthesis (directiveExtent_eq_none noTag)
    · apply Measures.ordinary
      simp only [List.mem_cons, List.not_mem_nil, or_false, not_or] at quotes
      simp [isOrdinary, dark, quotes, slash, parenthesis]

theorem Lexeme.IsComplete.reads (complete : lexeme.IsComplete rest)
    (allowed : lexeme.shape = .regex → regexAllowed written = true)
    (refused : lexeme.shape = .code → lexeme.text = ['/'] → regexAllowed written = false) :
    lexeme.Reads written rest := by
  rcases lexeme with ⟨shape, text⟩
  cases shape with
  | space =>
      rcases complete with ⟨c, rfl, blank⟩
      exact ⟨c, [], rfl, .space blank⟩
  | lineComment =>
      rcases complete with ⟨body, rfl, unbroken, ends⟩
      refine ⟨'/', '/' :: body, rfl, measures_lineComment rfl ?_ ends⟩
      simp only [List.forall_mem_cons, decide_eq_true_eq]
      exact ⟨by decide, fun d d_mem same => unbroken (same ▸ d_mem)⟩
  | blockComment =>
      rcases complete with ⟨body, rfl, first⟩
      have extent := @blockCommentExtent_of_first 1 _ first rest
      have length_eq : ('*' :: (body ++ ['*', '/'])).length = 1 + body.length + 2 := by
        simp
        omega
      refine ⟨'/', '*' :: (body ++ ['*', '/']), rfl, ?_⟩
      rw [length_eq]
      apply Measures.blockComment
      simpa using extent
  | string =>
      rcases complete with ⟨quote, body, quotes, rfl, escaped⟩
      have extent := @stringExtent_of_escaped 0 _ _ quotes escaped rest
      exact ⟨quote, body ++ [quote], rfl, .string quotes (by simpa using extent)⟩
  | template =>
      rcases complete with ⟨body, rfl, escaped⟩
      have extent := @templateExtent_of_escaped 0 _ escaped rest
      exact ⟨'\x60', body ++ ['\x60'], rfl, .template (by simpa using extent)⟩
  | regex =>
      rcases complete with ⟨body, rfl, nonempty, notComment, pattern⟩
      exact ⟨'/', body ++ ['/'], rfl, measures_regex pattern nonempty notComment (allowed rfl)⟩
  | directive =>
      have isTag : IsTag text := complete
      rcases Tag.begins_with_opening isTag with ⟨body, rfl⟩
      exact ⟨'(', ':' :: body, rfl, .directive (directiveExtent_of_isTag isTag rest)⟩
  | code =>
      rcases complete with ⟨c, rfl, dark, quotes, apart, noTag⟩
      refine ⟨c, [], rfl, measures_code dark quotes apart noTag ?_⟩
      rintro rfl
      exact refused rfl rfl

/-- A lexeme is recognised just if it is complete and, where it is a slash of code or a regular
expression literal, the text written so far says so. -/
theorem Lexeme.reads_iff : lexeme.Reads written rest ↔ lexeme.IsComplete rest ∧
    (lexeme.shape = .regex → regexAllowed written = true) ∧
    (lexeme.shape = .code → lexeme.text = ['/'] → regexAllowed written = false) := by
  constructor
  · intro reads
    exact ⟨reads.isComplete, reads.allowed, reads.refused⟩
  · rintro ⟨complete, allowed, refused⟩
    exact complete.reads allowed refused

/-- The characters that a lexeme of a shape can begin with. -/
def Shape.opensWith (shape : Shape) (c : Char) : Bool :=
  match shape with
  | .space => Pageweave.isBlank c
  | .lineComment | .blockComment | .regex => c = '/'
  | .string => c = '\x27' || c = '\x22'
  | .template => c = '\x60'
  | .directive => c = '('
  | .code => !Pageweave.isBlank c

theorem Lexeme.IsComplete.exists_head (complete : lexeme.IsComplete rest) :
    ∃ c text, lexeme.text = c :: text ∧ lexeme.shape.opensWith c = true := by
  rcases lexeme with ⟨shape, text⟩
  cases shape with
  | space =>
      rcases complete with ⟨c, text_eq, blank⟩
      exact ⟨c, [], text_eq, blank⟩
  | lineComment | blockComment | regex | template =>
      rcases complete with ⟨body, text_eq, -⟩
      exact ⟨_, _, text_eq, rfl⟩
  | string =>
      rcases complete with ⟨quote, body, quotes, text_eq, -⟩
      exact ⟨quote, _, text_eq, by simpa [Shape.opensWith] using quotes⟩
  | directive =>
      rcases Tag.begins_with_opening complete with ⟨body, text_eq⟩
      exact ⟨'(', _, text_eq.symm, rfl⟩
  | code =>
      rcases complete with ⟨c, text_eq, dark, -⟩
      exact ⟨c, [], text_eq, by simp [Shape.opensWith, dark]⟩

end Reads

/-! ## Complete scripts -/

/-- A script is cut into blanks and tokens that are complete where they stand. -/
structure Segmentation.IsComplete (segmentation : Segmentation) : Prop where
  /-- Each lexeme is complete before the lexemes behind it. -/
  complete : ∀ before lexeme after, segmentation.lexemes = before ++ lexeme :: after →
    lexeme.IsComplete (after.flatMap Lexeme.text)
  /-- Between two tokens, and before the first one, stand blanks. -/
  gaps : ∀ piece ∈ segmentation.pieces,
    (∀ lexeme ∈ piece.gap, lexeme.shape.isBlank = true) ∧ piece.token.shape.isBlank = false
  /-- Behind the last token stand blanks. -/
  trailing : ∀ lexeme ∈ segmentation.trailing, lexeme.shape.isBlank = true

/-- What is written between the tokens of two pieces that follow each other. -/
structure IsSpaced (first second : Piece) : Prop where
  /-- It is nothing, a space or a line feed. -/
  kind : second.separator = [] ∨ second.separator = [' '] ∨ second.separator = ['\n']
  /-- It is nothing if the tokens touch. -/
  touching : second.gap = [] → second.separator = []
  /-- It is a line feed if there was a line break where a statement may end and another begin. -/
  broken : second.gap.any Lexeme.breaksLine = true →
    first.token.text.getLast?.any endsStatement = true →
    second.token.text.head?.any startsStatement = true → second.separator = ['\n']

theorem separator_nil_left (gap : List Lexeme) (lexeme : Lexeme) : separator [] gap lexeme = [] :=
  rfl

theorem separator_eq_feed {written : Text} {gap : List Lexeme} {lexeme : Lexeme}
    (breaks : gap.any Lexeme.breaksLine = true) (ends : written.head?.any endsStatement = true)
    (starts : lexeme.text.head?.any startsStatement = true) :
    separator written gap lexeme = ['\n'] := by
  rcases Option.any_eq_true .. |>.mp ends with ⟨previous, last, ends'⟩
  rcases Option.any_eq_true .. |>.mp starts with ⟨first, head, starts'⟩
  rcases List.head?_eq_some_iff.mp last with ⟨written, rfl⟩
  rcases List.head?_eq_some_iff.mp head with ⟨text, text_eq⟩
  have nonempty : gap.isEmpty = false := by
    cases gap with
    | nil => cases breaks
    | cons lexeme gap => rfl
  rw [separator.eq_def, text_eq]
  simp [nonempty, breaks, ends', starts']

theorem isSpaced_of_separator {first second : Piece} {before : Text}
    (nonempty : first.token.text ≠ [])
    (separator_eq : second.separator =
      separator (first.token.text.reverse ++ before) second.gap second.token) :
    IsSpaced first second where
  kind := by
    rw [separator_eq]
    exact separator_cases _ _ _
  touching := by
    intro touches
    rw [separator_eq, touches, separator_nil]
  broken := by
    intro breaks ends starts
    rw [separator_eq]
    apply separator_eq_feed breaks _ starts
    rwa [head?_append_of_ne_nil (by simpa using nonempty) [] before, List.append_nil,
      List.head?_reverse]

theorem isChain_isSpaced {written : Text} {pieces : List Piece} {trailing : List Lexeme}
    (areCut : AreCut written pieces trailing) : pieces.IsChain IsSpaced := by
  induction pieces generalizing written with
  | nil => exact .nil
  | cons piece pieces ih =>
      rcases areCut with ⟨-, -, reads, -, later⟩
      refine List.isChain_cons.mpr ⟨?_, ih later⟩
      intro next next_mem
      cases pieces with
      | nil => cases next_mem
      | cons second pieces =>
          cases next_mem
          rcases later with ⟨-, -, -, separator_eq, -⟩
          exact isSpaced_of_separator reads.ne_nil separator_eq

theorem isBlank_of_areCut {written : Text} {pieces : List Piece} {trailing : List Lexeme}
    (areCut : AreCut written pieces trailing) :
    (∀ piece ∈ pieces, (∀ lexeme ∈ piece.gap, lexeme.shape.isBlank = true) ∧
        piece.token.shape.isBlank = false) ∧
      ∀ lexeme ∈ trailing, lexeme.shape.isBlank = true := by
  induction pieces generalizing written with
  | nil =>
      refine ⟨by simp, ?_⟩
      exact (@readsGap_iff { written := written } _ _ |>.mp areCut).1
  | cons piece pieces ih =>
      rcases areCut with ⟨gapReads, token, -, -, later⟩
      rcases ih later with ⟨tokens, blanks⟩
      have gap := (@readsGap_iff { written := written } _ _ |>.mp gapReads).1
      exact ⟨List.forall_mem_cons.mpr ⟨⟨gap, token⟩, tokens⟩, blanks⟩

theorem ReadsAll.isComplete {progress : Progress} {before after : List Lexeme} {lexeme : Lexeme}
    (reads : ReadsAll progress (before ++ lexeme :: after) []) :
    lexeme.IsComplete (after.flatMap Lexeme.text) := by
  have here := (readsAll_append.mp reads).2.1
  rw [List.append_nil] at here
  exact here.isComplete

theorem isComplete_of_segment {source : Text} {segmentation : Segmentation}
    (cut : segment source = .ok segmentation) : segmentation.IsComplete := by
  have areCut := (segment_eq_ok_iff.mp cut).2
  rcases isBlank_of_areCut areCut with ⟨gaps, trailing⟩
  refine ⟨?_, gaps, trailing⟩
  intro before lexeme after lexemes_eq
  have reads := (@readsAll_of_areCut {} _ _ rfl areCut).1
  rw [lexemes_eq] at reads
  exact reads.isComplete

theorem exists_segment_of_minify {source minified : Text} (done : minify source = .ok minified) :
    ∃ segmentation, segment source = .ok segmentation ∧ minified = segmentation.minified := by
  rw [minify] at done
  cases cut : segment source with
  | error failure =>
      rw [cut] at done
      cases done
  | ok segmentation =>
      rw [cut] at done
      cases done
      exact ⟨segmentation, rfl, rfl⟩

/-- A script that can be minified consists of complete lexemes, and minifying it leaves the tokens
as they are, with a separator or nothing in place of the blanks between them. -/
theorem exists_pieces_of_minify {source minified : Text} (done : minify source = .ok minified) :
    ∃ segmentation : Segmentation,
      source = segmentation.source ∧ minified = segmentation.minified ∧
        segmentation.IsComplete ∧ (∀ first ∈ segmentation.pieces.head?, first.separator = []) ∧
        segmentation.pieces.IsChain IsSpaced := by
  rcases exists_segment_of_minify done with ⟨segmentation, cut, minified_eq⟩
  rcases segment_eq_ok_iff.mp cut with ⟨source_eq, areCut⟩
  refine ⟨segmentation, source_eq, minified_eq, isComplete_of_segment cut, ?_,
    isChain_isSpaced areCut⟩
  intro first first_mem
  rcases segmentation with ⟨pieces, trailing⟩
  cases pieces with
  | nil => cases first_mem
  | cons piece pieces =>
      cases first_mem
      rcases areCut with ⟨-, -, -, separator_eq, -⟩
      rw [separator_eq, separator_nil_left]

theorem exists_pieces_of_minify_pattern :
    ∃ segmentation : Segmentation,
      "var p = /[/]'/g // slash\n(a /* b */ + (:= n:))".toList = segmentation.source ∧
        "var p=/[/]'/g\n(a+(:= n:))".toList = segmentation.minified ∧
        segmentation.IsComplete ∧ (∀ first ∈ segmentation.pieces.head?, first.separator = []) ∧
        segmentation.pieces.IsChain IsSpaced :=
  exists_pieces_of_minify (by decide +kernel)

end Pageweave.Script
