import Mathlib.Data.List.Chain
import Pageweave.Proofs.Occurrences
import Pageweave.Proofs.Segments
import Pageweave.Proofs.Tokens

/-!
# Resolving directives in minified scripts

A scan puts values in the places of the directives of a script, whether the script was minified
before or not. In both cases what it leaves consists of the same lexemes, with what the minifier
writes in a gap in one case and the gap itself in the other. It has the same tokens in both cases
if the values are words and numbers and nothing else changes its meaning (`tokens?_run_minified`).

The minifier takes a directive for a word, but a negative number begins with a sign: behind a minus
the two signs then meet (`tokens?_run_minified_negative`).
-/

namespace Pageweave.Script

/-! ## Scanning a script -/

/-- The directives of a script, in their order. -/
def Segmentation.directives (segmentation : Segmentation) : List Text :=
  segmentation.pieces.filterMap fun piece =>
    if piece.token.shape = .directive then some piece.token.text else none

/-- A piece of a script and what a scan leaves of its token. -/
structure Filled where
  /-- The piece. -/
  piece : Piece
  /-- The token, or the value in its place as characters of code. -/
  lexemes : List Lexeme

/-- The text that a scan leaves of a token. -/
def Filled.text (filled : Filled) : Text :=
  filled.lexemes.flatMap Lexeme.text

/-- The value that a context has for a token. -/
def Lexeme.valueIn? (lexeme : Lexeme) (context : Context) : Option Value :=
  if lexeme.shape = .directive then context.valueFor? lexeme.text else none

/-- A text as characters of code. -/
def codeOf (text : Text) : List Lexeme :=
  text.map fun c => ⟨.code, [c]⟩

/-- The pieces of a script with the values of the first `limit` directives that have one. -/
def fill (context : Context) : (limit : Nat) → List Piece → List Filled
  | _, [] => []
  | limit, piece :: pieces =>
      match limit, piece.token.valueIn? context with
      | limit + 1, some value =>
          ⟨piece, codeOf value.interpolated⟩ :: fill context limit pieces
      | limit, _ => ⟨piece, [piece.token]⟩ :: fill context limit pieces

/-- A text with the tokens of a script in it, cut at the directives; `blank` is what stands before a
token. -/
def parts (blank : Piece → Text) (pieces : List Piece) (trailing : Text) :
    List Pageweave.Piece :=
  match pieces with
  | [] => [.literal trailing]
  | piece :: pieces =>
      .literal (blank piece) ::
        (if piece.token.shape = .directive then .tag piece.token.text
          else .literal piece.token.text) :: parts blank pieces trailing

section Parts

variable {context : Context} {limit : Nat} {blank : Piece → Text} {pieces : List Piece}
  {trailing : Text}

theorem fill_cons_of_some {piece : Piece} {value : Value}
    (found : piece.token.valueIn? context = some value) :
    fill context (limit + 1) (piece :: pieces) =
      ⟨piece, codeOf value.interpolated⟩ :: fill context limit pieces := by
  simp [fill, found]

theorem fill_cons_of_none {piece : Piece}
    (stays : limit = 0 ∨ piece.token.valueIn? context = none) :
    fill context limit (piece :: pieces) = ⟨piece, [piece.token]⟩ :: fill context limit pieces := by
  rcases stays with rfl | absent
  · simp [fill]
  · simp [fill, absent]

theorem codeOf_text (text : Text) : (codeOf text).flatMap Lexeme.text = text := by
  simp [codeOf, List.flatMap_map]

theorem assemble_parts : Piece.assemble (parts blank pieces trailing) =
    pieces.flatMap (fun piece => blank piece ++ piece.token.text) ++ trailing := by
  induction pieces with
  | nil => simp [parts, Pageweave.Piece.text]
  | cons piece pieces ih =>
      rw [parts, Piece.assemble_cons, Piece.assemble_cons, ih]
      split <;> simp [Pageweave.Piece.text]

theorem tags_parts (trailing' : List Lexeme) :
    Piece.tags (parts blank pieces trailing) = Segmentation.directives ⟨pieces, trailing'⟩ := by
  induction pieces with
  | nil => rfl
  | cons piece pieces ih =>
      rw [parts, Piece.tags_literal]
      by_cases directive : piece.token.shape = .directive
      · rw [if_pos directive, Piece.tags_tag, ih]
        simp [Segmentation.directives, directive]
      · rw [if_neg directive, Piece.tags_literal, ih]
        simp [Segmentation.directives, directive]

/-- Substituting in a text with the tokens of a script fills its pieces. -/
theorem assemble_substitute_parts :
    Piece.assemble (Piece.substitute context limit (parts blank pieces trailing)) =
      (fill context limit pieces).flatMap (fun filled => blank filled.piece ++ filled.text) ++
        trailing := by
  induction pieces generalizing limit with
  | nil => simp [parts, fill, Piece.substitute, Pageweave.Piece.text]
  | cons piece pieces ih =>
      rw [parts, Piece.substitute, Piece.assemble_cons]
      by_cases directive : piece.token.shape = .directive
      · have value_eq : piece.token.valueIn? context = context.valueFor? piece.token.text :=
          if_pos directive
        rw [if_pos directive]
        rcases exists_or_stays context limit piece.token.text with
          ⟨limit, value, rfl, found⟩ | stays
        · rw [Piece.substitute_tag_of_some found, Piece.assemble_cons, ih,
            fill_cons_of_some (value_eq.trans found)]
          simp [Pageweave.Piece.text, Filled.text, codeOf_text]
        · rw [Piece.substitute_tag_of_none stays, Piece.assemble_cons, ih,
            fill_cons_of_none (value_eq ▸ stays)]
          simp [Pageweave.Piece.text, Filled.text]
      · rw [if_neg directive, Piece.substitute, Piece.assemble_cons, ih,
          fill_cons_of_none (Or.inr (if_neg directive))]
        simp [Pageweave.Piece.text, Filled.text]

/-- A scan of a text with the tokens of a script fills its pieces, if the text has no tags but the
directives and no tag begins in a value. -/
theorem text_run_parts
    (isTags : ∀ tag ∈ Segmentation.directives ⟨pieces, []⟩, IsTag tag)
    (only : Tag.all (pieces.flatMap (fun piece => blank piece ++ piece.token.text) ++ trailing) =
      Segmentation.directives ⟨pieces, []⟩)
    (values : ∀ tag ∈ Segmentation.directives ⟨pieces, []⟩, ∀ value,
      context.valueFor? tag = some value → '(' ∉ value.interpolated) :
    (Scan.run context limit
      (pieces.flatMap (fun piece => blank piece ++ piece.token.text) ++ trailing)).text =
      (fill context limit pieces).flatMap (fun filled => blank filled.piece ++ filled.text) ++
        trailing := by
  rw [← @tags_parts blank pieces trailing []] at isTags only values
  rw [← assemble_parts] at only ⊢
  rw [Scan.text_run_assemble isTags only values, assemble_substitute_parts]

end Parts

/-! ## What a scan leaves, cut again -/

/-- A word or a number: word characters, perhaps behind a minus. -/
def IsNumberOrWord (text : Text) : Prop :=
  ∃ word, word ≠ [] ∧ (∀ c ∈ word, isWord c = true ∧ Pageweave.isBlank c = false) ∧
    (text = word ∨ text = '-' :: word)

/-- The token is left, or a word or a number stands in the place of a directive. -/
def Filled.IsProper (filled : Filled) : Prop :=
  filled.lexemes = [filled.piece.token] ∨
    filled.piece.token.shape = .directive ∧
      ∃ value, IsNumberOrWord value ∧ filled.lexemes = codeOf value

/-- The lexemes with a gap before the first one. -/
def slotsOf (gap : List Lexeme) : List Lexeme → List (List Lexeme × Lexeme)
  | [] => []
  | lexeme :: lexemes => (gap, lexeme) :: lexemes.map fun lexeme => ([], lexeme)

/-- The pieces of tokens with gaps before them, behind the text written so far. -/
def place : (written : Text) → List (List Lexeme × Lexeme) → List Piece
  | _, [] => []
  | written, (gap, token) :: slots =>
      ⟨gap, separator written gap token, token⟩ ::
        place (token.text.reverse ++ ((separator written gap token).reverse ++ written)) slots

/-- The lexemes that a scan leaves of pieces, with `gapOf` before each token. -/
def slots (gapOf : Piece → List Lexeme) (fills : List Filled) : List (List Lexeme × Lexeme) :=
  fills.flatMap fun filled => slotsOf (gapOf filled.piece) filled.lexemes

theorem source_place (written : Text) (slots : List (List Lexeme × Lexeme))
    (trailing : List Lexeme) :
    Segmentation.source ⟨place written slots, trailing⟩ =
      slots.flatMap (fun slot => slot.1.flatMap Lexeme.text ++ slot.2.text) ++
        trailing.flatMap Lexeme.text := by
  induction slots generalizing written with
  | nil => rfl
  | cons slot slots ih =>
      rw [place, source_cons, ih]
      simp

theorem tokens_place (written : Text) (slots : List (List Lexeme × Lexeme))
    (trailing : List Lexeme) :
    Segmentation.tokens ⟨place written slots, trailing⟩ =
      tokensOf (slots.map fun slot => (slot.1.isEmpty, slot.2.text)) := by
  rw [Segmentation.tokens]
  congr 1
  induction slots generalizing written with
  | nil => rfl
  | cons slot slots ih => simp [place, ih]

theorem flatMap_slotsOf {gap lexemes : List Lexeme} (nonempty : lexemes ≠ []) :
    (slotsOf gap lexemes).flatMap (fun slot => slot.1.flatMap Lexeme.text ++ slot.2.text) =
      gap.flatMap Lexeme.text ++ lexemes.flatMap Lexeme.text := by
  cases lexemes with
  | nil => exact absurd rfl nonempty
  | cons lexeme lexemes => simp [slotsOf, List.flatMap_map]

section Reads

variable {written written' following following' : Text} {gap : List Lexeme}

/-- A gap before a token is recognised before any other token, behind any text. -/
theorem ReadsGap.transfer (reads : ReadsGap written gap following)
    (before : following' = following ∨ ∃ c, following.head? = some c ∧ c ≠ '\n') :
    ReadsGap written' gap following' := by
  induction gap with
  | nil => trivial
  | cons lexeme gap ih =>
      rcases reads with ⟨blank, reads, later⟩
      refine ⟨blank, reads.transfer ?_ ?_ ?_ ?_, ih later⟩
      · intro token
        rw [blank] at token
        cases token
      · intro line
        have ended := reads.line_ends line
        rcases gap with _ | ⟨next, gap⟩
        · rcases before with rfl | ⟨c, head, differs⟩
          · exact ended
          · rw [List.flatMap_nil, List.nil_append] at ended
            rcases ended with rfl | ended
            · cases head
            · rw [head] at ended
              exact absurd (Option.some.inj ended) differs
        · have nonempty : (next :: gap).flatMap Lexeme.text ≠ [] := by simp [later.2.1.ne_nil]
          rw [head?_append_of_ne_nil nonempty following following']
          exact Or.inr (ended.resolve_left (by simp [later.2.1.ne_nil]))
      · intro code
        rw [code] at blank
        cases blank
      · intro code
        rw [code] at blank
        cases blank

theorem ReadsGap.text_ne_nil (reads : ReadsGap written gap following) (nonempty : gap ≠ []) :
    gap.flatMap Lexeme.text ≠ [] := by
  cases gap with
  | nil => exact absurd rfl nonempty
  | cons lexeme gap => simp [reads.2.1.ne_nil]

/-- What is written for a gap, as blank lexemes. -/
def separatorLexemes (separator : Text) : List Lexeme :=
  if separator = [] then [] else [⟨.space, separator⟩]

theorem readsGap_separatorLexemes (before : Text) (lexeme : Lexeme) :
    ReadsGap written (separatorLexemes (separator before gap lexeme)) following := by
  rcases separator_cases before gap lexeme with none | space | feed
  · rw [none]
    trivial
  · rw [space]
    exact ⟨rfl, ⟨' ', [], rfl, .space (by decide)⟩, trivial⟩
  · rw [feed]
    exact ⟨rfl, ⟨'\n', [], rfl, .space (by decide)⟩, trivial⟩

theorem reads_code {c : Char} (plain : isOrdinary c = true) :
    (⟨.code, [c]⟩ : Lexeme).Reads written following :=
  ⟨c, [], rfl, .ordinary plain⟩

theorem isOrdinary_of_word {c : Char} (word : isWord c = true)
    (dark : Pageweave.isBlank c = false) :
    isOrdinary c = true := by
  rw [isOrdinary, dark, Bool.not_false, Bool.true_and, Bool.not_eq_true', List.contains_eq_mem,
    decide_eq_false_iff_not]
  intro c_mem
  simp only [List.mem_cons, List.not_mem_nil, or_false] at c_mem
  rcases c_mem with rfl | rfl | rfl | rfl | rfl <;> exact absurd word (by decide)

theorem IsNumberOrWord.isOrdinary {text : Text} (isNumberOrWord : IsNumberOrWord text) :
    ∀ c ∈ text, Script.isOrdinary c = true := by
  rcases isNumberOrWord with ⟨word, -, isWords, rfl | rfl⟩
  · exact fun c c_mem => isOrdinary_of_word (isWords c c_mem).1 (isWords c c_mem).2
  · intro c c_mem
    rcases List.mem_cons.mp c_mem with rfl | c_mem
    · decide
    · exact isOrdinary_of_word (isWords c c_mem).1 (isWords c c_mem).2

theorem IsNumberOrWord.ne_nil {text : Text} (isNumberOrWord : IsNumberOrWord text) : text ≠ [] := by
  rcases isNumberOrWord with ⟨word, nonempty, -, rfl | rfl⟩
  · exact nonempty
  · simp

theorem isNumberOrWord_integer (value : Int) :
    IsNumberOrWord (Value.number (.integer value)).interpolated := by
  have digit : ∀ c ∈ Text.ofNat value.natAbs, c.isDigit = true := by
    intro c c_mem
    exact Nat.isDigit_of_mem_toDigits (by decide) (by decide) c_mem
  refine ⟨Text.ofNat value.natAbs, Nat.toDigits_ne_nil, fun c c_mem => ⟨?_, ?_⟩, ?_⟩
  · simp [isWord, Char.isAlphanum, digit c c_mem]
  · have range := digit c c_mem
    simp only [Char.isDigit, Bool.and_eq_true, decide_eq_true_eq, UInt32.le_iff_toNat_le] at range
    rcases range with ⟨low, high⟩
    change 48 ≤ c.toNat at low
    change c.toNat ≤ 57 at high
    simp only [Pageweave.isBlank, Bool.or_eq_false_iff, Bool.and_eq_false_iff,
      decide_eq_false_iff_not]
    omega
  · change Number.print (.integer value) = _ ∨ Number.print (.integer value) = _
    rw [Number.print]
    split
    · exact Or.inr rfl
    · exact Or.inl rfl

/-- Characters of code that are tokens wherever they stand are recognised one after the other. -/
theorem areCut_place_code {value : Text} (plain : ∀ c ∈ value, isOrdinary c = true)
    {slots : List (List Lexeme × Lexeme)} {trailing : List Lexeme}
    (later : AreCut (value.reverse ++ written) (place (value.reverse ++ written) slots) trailing) :
    AreCut written
      (place written ((codeOf value).map (fun lexeme => ([], lexeme)) ++ slots)) trailing := by
  induction value generalizing written with
  | nil => exact later
  | cons c value ih =>
      rcases List.forall_mem_cons.mp plain with ⟨here, plain'⟩
      refine ⟨trivial, rfl, reads_code here, rfl, ?_⟩
      rw [separator_nil]
      apply ih plain'
      simpa using later

end Reads

/-! ## The same lexemes in both -/

/-- What stands before a token in a script, minified or not. -/
def gapIn (minified : Bool) (piece : Piece) : List Lexeme :=
  if minified then separatorLexemes piece.separator else piece.gap

/-- The text written so far ends in the same character as its resolved form, or in a directive. -/
def EndsAlike (written resolved : Text) : Prop :=
  resolved.head? = written.head? ∨ [')', ':'] <+: written

section GapIn

variable {minified : Bool} {written resolved laid : Text} {piece : Piece}

theorem gapIn_eq_nil (separator_eq : piece.separator = separator written piece.gap piece.token)
    (touches : piece.gap = []) : gapIn minified piece = [] := by
  cases minified with
  | false => exact touches
  | true =>
      rw [touches, separator_nil] at separator_eq
      rw [gapIn, if_pos rfl, separatorLexemes, if_pos separator_eq]

theorem separator_eq_nil (separator_eq : piece.separator = separator written piece.gap piece.token)
    (touches : gapIn minified piece = []) : piece.separator = [] := by
  cases minified with
  | false =>
      have gap_eq : piece.gap = [] := touches
      rw [separator_eq, gap_eq, separator_nil]
  | true =>
      by_contra nonempty
      rw [gapIn, if_pos rfl, separatorLexemes, if_neg nonempty] at touches
      cases touches

/-- Behind a token, or what is left of it, the script ends in the same word with each way to write
the gap before it. -/
theorem SameEnd.add (same : SameEnd laid resolved) (alike : EndsAlike written resolved)
    (separator_eq : piece.separator = separator written piece.gap piece.token) {lexeme : Lexeme}
    {text : Text} (nonempty : text ≠ []) (head : lexeme.text.head? = text.head?)
    (begins : text.head?.any isWord = true → piece.token.text.head?.any isWord = true ∨
      piece.token.shape = .directive ∧ piece.token.text ≠ []) :
    SameEnd (text.reverse ++ ((separator laid (gapIn minified piece) lexeme).reverse ++ laid))
      (text.reverse ++ (piece.separator.reverse ++ resolved)) := by
  refine ⟨head?_append_of_ne_nil (by simpa using nonempty) _ _, ?_⟩
  by_cases isWords : ∀ c ∈ text, isWord c = true
  · have word : text.head?.any isWord = true := by
      cases text with
      | nil => exact absurd rfl nonempty
      | cons c text => exact isWords c List.mem_cons_self
    rw [lastWord_append_of_word isWords, lastWord_append_of_word isWords]
    congr 1
    -- A separator on one side only means that there was no word to go on with on the other.
    by_cases left : separator laid (gapIn minified piece) lexeme = []
    · by_cases right : piece.separator = []
      · rw [left, right]
        exact same.2
      · have apart : gapIn minified piece ≠ [] := fun touches =>
          right (separator_eq_nil separator_eq touches)
        have other : laid.head?.any isWord = false := by
          by_contra ends
          rw [Bool.not_eq_false] at ends
          exact separator_ne_nil_of_words apart (Or.inl ends) (Or.inl (head ▸ word)) left
        rw [left, separator_eq, lastWord_separator_append (separator_eq ▸ right)]
        exact lastWord_eq_nil other
    · rw [lastWord_separator_append left]
      by_cases right : piece.separator = []
      · have apart : piece.gap ≠ [] := fun touches => by
          rw [gapIn_eq_nil separator_eq touches, separator_nil] at left
          exact left rfl
        have other : resolved.head?.any isWord = false := by
          by_contra ends
          rw [Bool.not_eq_false] at ends
          rw [separator_eq] at right
          rcases alike with head_eq | closing
          · exact separator_ne_nil_of_words apart (Or.inl (head_eq ▸ ends)) (begins word) right
          · exact separator_ne_nil_of_words apart (Or.inr closing) (begins word) right
        rw [right, List.reverse_nil, List.nil_append, lastWord_eq_nil other]
      · rw [separator_eq, lastWord_separator_append (separator_eq ▸ right)]
  · simp only [not_forall, Bool.not_eq_true] at isWords
    rcases isWords with ⟨c, c_mem, other⟩
    rw [lastWord_append_of_not_word c_mem other, lastWord_append_of_not_word c_mem other]

end GapIn

/-- Nothing is written for the gap before the token. -/
def Piece.DropsGap (piece : Piece) : Prop :=
  piece.gap ≠ [] ∧ piece.separator = []

instance (piece : Piece) : Decidable piece.DropsGap :=
  inferInstanceAs (Decidable (_ ∧ _))

/-- Two pieces that follow each other do not come to mean something else when the gap between them
is dropped and a value is put in the place of the second one. -/
structure StaysApart (first second : Filled) : Prop where
  /-- No comment begins with the two. -/
  slash : first.piece.token.text = ['/'] → second.piece.DropsGap →
    second.piece.token.text.head? ≠ some '*'
  /-- No negative number comes to stand behind a minus. -/
  minus : first.piece.token.text = ['-'] → second.piece.DropsGap →
    second.piece.token.shape = .directive → second.text.head? ≠ some '-'

instance (first second : Filled) : Decidable (StaysApart first second) :=
  decidable_of_iff
    ((first.piece.token.text = ['/'] → second.piece.DropsGap →
        second.piece.token.text.head? ≠ some '*') ∧
      (first.piece.token.text = ['-'] → second.piece.DropsGap →
        second.piece.token.shape = .directive → second.text.head? ≠ some '-'))
    ⟨fun apart => ⟨apart.1, apart.2⟩, fun apart => ⟨apart.slash, apart.minus⟩⟩

/-- Each slash begins a regular expression literal behind the text written so far just if it does
behind the resolved form of this text. -/
def KeepsSlashes : (written resolved : Text) → List Filled → Prop
  | _, _, [] => True
  | written, resolved, filled :: fills =>
      (filled.piece.token.text.head? = some '/' → regexAllowed resolved = regexAllowed written) ∧
        KeepsSlashes
          (filled.piece.token.text.reverse ++ (filled.piece.separator.reverse ++ written))
          (filled.text.reverse ++ (filled.piece.separator.reverse ++ resolved)) fills

instance KeepsSlashes.decidable : (written resolved : Text) → (fills : List Filled) →
    Decidable (KeepsSlashes written resolved fills)
  | _, _, [] => .isTrue trivial
  | written, resolved, filled :: fills =>
      have := KeepsSlashes.decidable
        (filled.piece.token.text.reverse ++ (filled.piece.separator.reverse ++ written))
        (filled.text.reverse ++ (filled.piece.separator.reverse ++ resolved)) fills
      inferInstanceAs (Decidable (_ ∧ _))

/-- What stands behind the last token in a script, minified or not. -/
def trailingIn (minified : Bool) (trailing : List Lexeme) : List Lexeme :=
  if minified then [] else trailing

/-- What a scan leaves of a script behind a token. -/
def following (minified : Bool) (fills : List Filled) (trailing : List Lexeme) : Text :=
  (slots (gapIn minified) fills).flatMap
      (fun slot => slot.1.flatMap Lexeme.text ++ slot.2.text) ++
    (trailingIn minified trailing).flatMap Lexeme.text

/-- No directive comes to begin with an opening parenthesis of code, minified or not. -/
def KeepsParentheses (trailing : List Lexeme) : List Filled → Prop
  | [] => True
  | filled :: fills =>
      (filled.piece.token.text = ['('] →
        ∀ minified, directiveExtent (following minified fills trailing) = none) ∧
        KeepsParentheses trailing fills

instance KeepsParentheses.decidable (trailing : List Lexeme) : (fills : List Filled) →
    Decidable (KeepsParentheses trailing fills)
  | [] => .isTrue trivial
  | _ :: fills =>
      have := KeepsParentheses.decidable trailing fills
      inferInstanceAs (Decidable (_ ∧ _))

section Filled

variable {filled : Filled} {fills : List Filled} {minified : Bool} {trailing : List Lexeme}
  {written resolved laid : Text}

theorem IsNumberOrWord.head? {text : Text} (isNumberOrWord : IsNumberOrWord text) {c : Char}
    (head : text.head? = some c) : isWord c = true ∨ c = '-' := by
  rcases isNumberOrWord with ⟨word, nonempty, isWords, rfl | rfl⟩
  · exact Or.inl (isWords c (List.mem_of_mem_head? head)).1
  · exact Or.inr (Option.some.inj head).symm

theorem IsNumberOrWord.getLast? {text : Text} (isNumberOrWord : IsNumberOrWord text) {c : Char}
    (last : text.getLast? = some c) : isWord c = true := by
  rcases isNumberOrWord with ⟨word, nonempty, isWords, rfl | rfl⟩
  · exact (isWords c (List.mem_of_getLast? last)).1
  · rw [← List.singleton_append, List.getLast?_append_of_ne_nil _ nonempty] at last
    exact (isWords c (List.mem_of_getLast? last)).1

theorem Filled.IsProper.cases (proper : filled.IsProper) :
    filled.lexemes = [filled.piece.token] ∧ filled.text = filled.piece.token.text ∨
      filled.piece.token.shape = .directive ∧ IsNumberOrWord filled.text ∧
        filled.lexemes = codeOf filled.text := by
  rcases proper with kept | ⟨directive, value, isNumberOrWord, lexemes_eq⟩
  · exact Or.inl ⟨kept, by simp [Filled.text, kept]⟩
  · have text_eq : filled.text = value := by rw [Filled.text, lexemes_eq, codeOf_text]
    exact Or.inr ⟨directive, text_eq ▸ isNumberOrWord, text_eq ▸ lexemes_eq⟩

theorem Filled.IsProper.lexemes_ne_nil (proper : filled.IsProper) : filled.lexemes ≠ [] := by
  rcases proper.cases with ⟨lexemes_eq, -⟩ | ⟨-, isNumberOrWord, lexemes_eq⟩
  · simp [lexemes_eq]
  · rw [lexemes_eq, codeOf]
    simpa using isNumberOrWord.ne_nil

theorem Filled.IsProper.text_ne_nil (proper : filled.IsProper)
    (token : filled.piece.token.text ≠ []) : filled.text ≠ [] := by
  rcases proper.cases with ⟨-, text_eq⟩ | ⟨-, isNumberOrWord, -⟩
  · rw [text_eq]
    exact token
  · exact isNumberOrWord.ne_nil

theorem following_cons (lexemes : filled.lexemes ≠ []) :
    following minified (filled :: fills) trailing =
      (gapIn minified filled.piece).flatMap Lexeme.text ++
        (filled.text ++ following minified fills trailing) := by
  rw [following, slots, List.flatMap_cons, List.flatMap_append, flatMap_slotsOf lexemes]
  simp [following, slots, Filled.text]

theorem following_eq (proper : ∀ filled ∈ fills, filled.IsProper) :
    following minified fills trailing =
      fills.flatMap (fun filled => (gapIn minified filled.piece).flatMap Lexeme.text ++
        filled.text) ++ (trailingIn minified trailing).flatMap Lexeme.text := by
  induction fills with
  | nil => rfl
  | cons filled fills ih =>
      rcases List.forall_mem_cons.mp proper with ⟨here, proper'⟩
      rw [following_cons here.lexemes_ne_nil, ih proper']
      simp

/-- What stands behind a token begins with white space, or as it does in the source, or with what is
left of the next token. -/
theorem head?_following (proper : ∀ filled ∈ fills, filled.IsProper)
    (areCut : AreCut written (fills.map Filled.piece) trailing) {c : Char}
    (head : (following minified fills trailing).head? = some c) :
    Pageweave.isBlank c = true ∨
      (Segmentation.source ⟨fills.map Filled.piece, trailing⟩).head? = some c ∨
      ∃ next later, fills = next :: later ∧ gapIn minified next.piece = [] ∧
        next.text.head? = some c := by
  cases fills with
  | nil =>
      cases minified with
      | false => exact Or.inr (Or.inl head)
      | true => cases head
  | cons next later =>
      rcases areCut with ⟨gapReads, -, reads, separator_eq, -⟩
      have nonempty := (proper next List.mem_cons_self).text_ne_nil reads.ne_nil
      rw [following_cons (proper next List.mem_cons_self).lexemes_ne_nil] at head
      by_cases touches : gapIn minified next.piece = []
      · rw [touches, List.flatMap_nil, List.nil_append,
          head?_append_of_ne_nil nonempty [] _, List.append_nil] at head
        exact Or.inr (Or.inr ⟨next, later, rfl, touches, head⟩)
      · cases minified with
        | false =>
            have gap_eq : gapIn false next.piece = next.piece.gap := if_neg (by decide)
            rw [gap_eq] at touches head
            rw [head?_append_of_ne_nil (gapReads.text_ne_nil touches)
              (next.piece.token.text ++ Segmentation.source ⟨later.map Filled.piece, trailing⟩)]
              at head
            rw [List.map_cons, source_cons]
            exact Or.inr (Or.inl head)
        | true =>
            left
            have separator_nonempty : next.piece.separator ≠ [] := by
              intro none
              rw [gapIn, if_pos rfl, separatorLexemes, if_pos none] at touches
              exact touches rfl
            rw [gapIn, if_pos rfl, separatorLexemes, if_neg separator_nonempty] at head
            rcases separator_cases written next.piece.gap next.piece.token with none | space | feed
            · exact absurd (separator_eq.trans none) separator_nonempty
            · rw [separator_eq, space] at head
              cases head
              decide
            · rw [separator_eq, feed] at head
              cases head
              decide

/-- Behind a slash of code there is no second slash and no star. -/
theorem head?_following_of_slash (proper : ∀ filled ∈ fills, filled.IsProper)
    (areCut : AreCut written (fills.map Filled.piece) trailing)
    (apart : ∀ next ∈ fills.head?, StaysApart filled next)
    (reads : filled.piece.token.Reads laid (Segmentation.source ⟨fills.map Filled.piece, trailing⟩))
    (code : filled.piece.token.shape = .code) (slash : filled.piece.token.text = ['/'])
    (last : written.head? = some '/') {c : Char} (closes : c = '/' ∨ c = '*') :
    (following minified fills trailing).head? ≠ some c := by
  intro head
  have differs := reads.apart_of_slash code slash
  have source_ne : (Segmentation.source ⟨fills.map Filled.piece, trailing⟩).head? ≠ some c := by
    rcases closes with rfl | rfl
    · exact differs.1
    · exact differs.2
  rcases head?_following proper areCut head with blank | same | ⟨next, later, rfl, touches, head⟩
  · rcases closes with rfl | rfl <;> exact absurd blank (by decide)
  · exact source_ne same
  · rcases areCut with ⟨-, -, nextReads, separator_eq, -⟩
    rcases (proper next List.mem_cons_self).cases with ⟨-, text_eq⟩ | ⟨-, isNumberOrWord, -⟩
    · rw [text_eq] at head
      by_cases noGap : next.piece.gap = []
      · apply source_ne
        rw [List.map_cons, source_cons, noGap, List.flatMap_nil, List.nil_append,
          head?_append_of_ne_nil nextReads.ne_nil [] _, List.append_nil]
        exact head
      · rcases closes with rfl | rfl
        · apply separator_ne_nil_of_signs noGap (Or.inr (Or.inr rfl)) last head
          rw [← separator_eq]
          exact separator_eq_nil separator_eq touches
        · exact (apart next rfl).slash slash
            ⟨noGap, separator_eq_nil separator_eq touches⟩ head
    · have start := isNumberOrWord.head? head
      rcases closes with rfl | rfl <;> exact absurd start (by decide)

theorem source_place_slots (written : Text) (fills : List Filled) (trailing : List Lexeme) :
    Segmentation.source ⟨place written (slots (gapIn minified) fills),
      trailingIn minified trailing⟩ = following minified fills trailing :=
  source_place written _ _

theorem EndsAlike.add {rest : Text} (proper : filled.IsProper)
    (reads : filled.piece.token.Reads laid rest) (before before' : Text) :
    EndsAlike (filled.piece.token.text.reverse ++ before) (filled.text.reverse ++ before') := by
  rcases proper.cases with ⟨-, text_eq⟩ | ⟨directive, -, -⟩
  · left
    rw [text_eq]
    exact head?_append_of_ne_nil (by simpa using reads.ne_nil) _ _
  · right
    rcases reads.isTag directive with ⟨body, -, tag_eq⟩
    rw [tag_eq]
    simp

theorem readsGap_gapIn {rest : Text} {piece : Piece}
    (gapReads : ReadsGap written piece.gap (piece.token.text ++ rest))
    (token : piece.token.shape.isBlank = false) (reads : piece.token.Reads written rest)
    (separator_eq : piece.separator = separator written piece.gap piece.token) (after : Text) :
    ReadsGap laid (gapIn minified piece) after := by
  cases minified with
  | true =>
      rw [gapIn, if_pos rfl, separator_eq]
      exact readsGap_separatorLexemes _ _
  | false =>
      rw [gapIn, if_neg (by decide)]
      apply gapReads.transfer
      right
      rcases text_eq : piece.token.text with _ | ⟨c, text⟩
      · exact absurd text_eq reads.ne_nil
      · refine ⟨c, rfl, ?_⟩
        rintro rfl
        have dark := reads.isBlank_head? token (by rw [text_eq]; rfl)
        exact absurd dark (by decide)

/-- A token that a scan leaves is recognised before what the scan leaves behind it. -/
theorem reads_following (proper : ∀ filled ∈ fills, filled.IsProper)
    (areCut :
      AreCut (filled.piece.token.text.reverse ++ (filled.piece.separator.reverse ++ written))
        (fills.map Filled.piece) trailing)
    (apart : ∀ next ∈ fills.head?, StaysApart filled next)
    (token : filled.piece.token.shape.isBlank = false)
    (reads : filled.piece.token.Reads written
      (Segmentation.source ⟨fills.map Filled.piece, trailing⟩))
    (slash : filled.piece.token.text.head? = some '/' → regexAllowed laid = regexAllowed written)
    (parenthesis : filled.piece.token.text = ['('] →
      directiveExtent (following minified fills trailing) = none) :
    filled.piece.token.Reads laid (following minified fills trailing) := by
  apply reads.transfer
  · exact fun _ head => slash head
  · intro line
    rw [line] at token
    cases token
  · intro code text_slash
    have last : (filled.piece.token.text.reverse ++
        (filled.piece.separator.reverse ++ written)).head? = some '/' := by
      rw [text_slash]
      rfl
    have closes := fun c => @head?_following_of_slash filled fills minified trailing _ _ proper
      areCut apart reads code text_slash last c
    exact ⟨closes '/' (Or.inl rfl), closes '*' (Or.inr rfl)⟩
  · exact fun _ => parenthesis

/-- What a scan leaves of a script is cut into the lexemes that it leaves of the pieces, whether the
script was minified or not. -/
theorem areCut_place_slots (proper : ∀ filled ∈ fills, filled.IsProper)
    (areCut : AreCut written (fills.map Filled.piece) trailing) (apart : fills.IsChain StaysApart)
    (slashes : KeepsSlashes written resolved fills)
    (parentheses : KeepsParentheses trailing fills) (same : SameEnd laid resolved)
    (alike : EndsAlike written resolved) :
    AreCut laid (place laid (slots (gapIn minified) fills)) (trailingIn minified trailing) := by
  -- The induction is on the pieces. With the values put in, the minified script so far is
  -- `resolved`, and what is laid ends like it, so a slash is read in the same way behind both.
  induction fills generalizing written resolved laid with
  | nil =>
      cases minified with
      | true => trivial
      | false =>
          exact ReadsGap.transfer (show ReadsGap written trailing [] from areCut) (Or.inl rfl)
  | cons filled fills ih =>
      rcases List.forall_mem_cons.mp proper with ⟨here, proper'⟩
      rcases areCut with ⟨gapReads, token, reads, separator_eq, later⟩
      rcases slashes with ⟨slash, slashes'⟩
      rcases parentheses with ⟨parenthesis, parentheses'⟩
      have gapReads' := fun after => @readsGap_gapIn minified written laid _ _ gapReads token reads
        separator_eq after
      have alike' := EndsAlike.add here reads (filled.piece.separator.reverse ++ written)
        (filled.piece.separator.reverse ++ resolved)
      have nonempty := here.text_ne_nil reads.ne_nil
      rw [slots, List.flatMap_cons, ← slots]
      rcases List.isChain_cons.mp apart with ⟨next, apart'⟩
      rcases here.cases with ⟨lexemes_eq, text_eq⟩ | ⟨directive, isNumberOrWord, lexemes_eq⟩
      · have same' := @SameEnd.add minified _ _ _ _ same alike separator_eq filled.piece.token _
          nonempty (by rw [text_eq]) fun word => Or.inl (text_eq ▸ word)
        have rest := @ih _ _ _ proper' later apart' slashes' parentheses' same' alike'
        rw [text_eq] at rest
        rw [lexemes_eq]
        refine ⟨gapReads' _, token, ?_, rfl, rest⟩
        change filled.piece.token.Reads laid (Segmentation.source
          ⟨place _ (slots (gapIn minified) fills), trailingIn minified trailing⟩)
        rw [source_place_slots]
        exact reads_following proper' later next token reads
          (fun head => same.regexAllowed.trans (slash head)) fun text_eq => parenthesis text_eq _
      · rcases text_eq : filled.text with _ | ⟨c, text⟩
        · exact absurd text_eq nonempty
        have plain := isNumberOrWord.isOrdinary
        rw [text_eq] at plain
        have same' := @SameEnd.add minified _ _ _ _ same alike separator_eq ⟨.code, [c]⟩ _
          nonempty (by rw [text_eq]; rfl) fun _ => Or.inr ⟨directive, reads.ne_nil⟩
        have rest := @ih _ _ _ proper' later apart' slashes' parentheses' same' alike'
        rw [lexemes_eq, text_eq]
        refine ⟨gapReads' _, rfl, reads_code (plain c List.mem_cons_self), rfl, ?_⟩
        apply areCut_place_code fun d d_mem => plain d (List.mem_cons_of_mem _ d_mem)
        rw [text_eq] at rest
        simpa using rest

/-- The lexeme written last is known from the text written so far. -/
structure EndsBehind (previous written : Text) : Prop where
  word : previous.getLast?.any isWord = true →
    written.head?.any isWord = true ∨ [')', ':'] <+: written
  sign : ∀ c, previous = [c] → c = '+' ∨ c = '-' → written.head? = some c

/-- Where a gap is dropped, the lexemes on its sides do not join. -/
theorem joins_eq_false {previous first rest : Text} (proper : filled.IsProper)
    (ends : EndsBehind previous written) (reads : filled.piece.token.Reads written rest)
    (minus : previous = ['-'] → filled.piece.DropsGap → filled.piece.token.shape = .directive →
      filled.text.head? ≠ some '-')
    (separator_eq : filled.piece.separator = separator written filled.piece.gap filled.piece.token)
    (drops : filled.piece.DropsGap)
    (head : first.head? = filled.text.head?) : joins previous first = false := by
  rcases drops with ⟨apart, dropped⟩
  rw [separator_eq] at dropped
  have begins : ∀ c, first.head? = some c → filled.piece.token.text.head? = some c ∨
      filled.piece.token.shape = .directive ∧ (isWord c = true ∨ c = '-') := by
    intro c start
    rw [head] at start
    rcases proper.cases with ⟨-, text_eq⟩ | ⟨directive, isNumberOrWord, -⟩
    · exact Or.inl (text_eq ▸ start)
    · exact Or.inr ⟨directive, isNumberOrWord.head? start⟩
  by_contra joined
  rw [Bool.not_eq_false, joins, Bool.or_eq_true, Bool.or_eq_true, Bool.and_eq_true,
    Bool.and_eq_true, Bool.and_eq_true, decide_eq_true_eq, decide_eq_true_eq, decide_eq_true_eq,
    decide_eq_true_eq] at joined
  rcases joined with (⟨last, word⟩ | ⟨last, sign⟩) | ⟨last, sign⟩
  · refine separator_ne_nil_of_words apart (ends.word last) ?_ dropped
    rcases Option.any_eq_true .. |>.mp word with ⟨c, start, word⟩
    rcases begins c start with start | ⟨directive, -⟩
    · exact Or.inl (by rw [start]; exact word)
    · exact Or.inr ⟨directive, reads.ne_nil⟩
  · rcases begins '+' (by rw [sign]; rfl) with start | ⟨-, word⟩
    · exact separator_ne_nil_of_signs apart (Or.inl rfl) (ends.sign '+' last (Or.inl rfl)) start
        dropped
    · exact absurd word (by decide)
  · rcases begins '-' (by rw [sign]; rfl) with start | ⟨directive, -⟩
    · exact separator_ne_nil_of_signs apart (Or.inr (Or.inl rfl))
        (ends.sign '-' last (Or.inr rfl)) start dropped
    · exact minus last ⟨apart, separator_eq.trans dropped⟩ directive (by rw [← head, sign]; rfl)

theorem alike_code {previous : Text} (text : Text) {first second : List (Bool × Text)}
    (alike : Alike (text.foldl (fun _ c => [c]) previous) first second) :
    Alike previous (text.map (fun c => (true, [c])) ++ first)
      (text.map (fun c => (true, [c])) ++ second) := by
  induction text generalizing previous with
  | nil => exact alike
  | cons c text ih => exact .cons (by simp) (Or.inl rfl) (ih alike)

theorem map_slotsOf_code (gap : List Lexeme) (c : Char) (text : Text)
    (slots : List (List Lexeme × Lexeme)) :
    (slotsOf gap (codeOf (c :: text)) ++ slots).map
        (fun slot => (slot.1.isEmpty, slot.2.text)) =
      (gap.isEmpty, [c]) :: (text.map (fun c => (true, [c])) ++
        slots.map fun slot => (slot.1.isEmpty, slot.2.text)) := by
  simp [slotsOf, codeOf]

theorem foldl_eq_getLast (c : Char) (text : Text) :
    text.foldl (fun _ c => [c]) [c] = [(c :: text).getLast (by simp)] := by
  induction text generalizing c with
  | nil => rfl
  | cons d text ih => rw [List.foldl_cons, ih, List.getLast_cons_cons]

theorem isEmpty_gapIn (piece : Piece)
    (separator_eq : piece.separator = separator written piece.gap piece.token) :
    (gapIn true piece).isEmpty = (gapIn false piece).isEmpty ∨
      piece.DropsGap := by
  have gap_eq : gapIn false piece = piece.gap := if_neg (by decide)
  by_cases touches : piece.gap = []
  · left
    rw [gapIn_eq_nil separator_eq touches, gapIn_eq_nil separator_eq touches]
  · by_cases dropped : piece.separator = []
    · exact Or.inr ⟨touches, dropped⟩
    · left
      have written_eq : gapIn true piece = [⟨.space, piece.separator⟩] := by
        rw [gapIn, if_pos rfl, separatorLexemes, if_neg dropped]
      rw [written_eq, gap_eq]
      cases gap_eq' : piece.gap with
      | nil => exact absurd gap_eq' touches
      | cons lexeme gap => rfl

theorem EndsBehind.of_token {text : Text} (nonempty : text ≠ []) (before : Text) :
    EndsBehind text (text.reverse ++ before) where
  word := by
    intro last
    left
    rw [head?_append_of_ne_nil (by simpa using nonempty) [] before, List.append_nil,
      List.head?_reverse]
    exact last
  sign := by
    rintro c rfl _
    rfl

theorem EndsBehind.of_value {text rest : Text} (isNumberOrWord : IsNumberOrWord text) {c : Char}
    (last : text.getLast? = some c) {lexeme : Lexeme} (reads : lexeme.Reads laid rest)
    (directive : lexeme.shape = .directive) (before : Text) :
    EndsBehind [c] (lexeme.text.reverse ++ before) where
  word := by
    intro _
    right
    rcases reads.isTag directive with ⟨body, -, tag_eq⟩
    rw [tag_eq]
    simp
  sign := by
    intro d same sign
    have word := isNumberOrWord.getLast? last
    cases same
    rcases sign with rfl | rfl <;> exact absurd word (by decide)

/-- The lexemes that a scan leaves touch in the minified script and not in the other only where they
do not join. -/
theorem alike_slots {previous : Text} (proper : ∀ filled ∈ fills, filled.IsProper)
    (areCut : AreCut written (fills.map Filled.piece) trailing) (apart : fills.IsChain StaysApart)
    (ends : EndsBehind previous written)
    (minus : previous = ['-'] → ∀ next ∈ fills.head?, next.piece.DropsGap →
      next.piece.token.shape = .directive → next.text.head? ≠ some '-') :
    Alike previous ((slots (gapIn true) fills).map fun slot => (slot.1.isEmpty, slot.2.text))
      ((slots (gapIn false) fills).map fun slot => (slot.1.isEmpty, slot.2.text)) := by
  induction fills generalizing written previous with
  | nil => exact .nil
  | cons filled fills ih =>
      rcases List.forall_mem_cons.mp proper with ⟨here, proper'⟩
      rcases areCut with ⟨-, -, reads, separator_eq, later⟩
      rcases List.isChain_cons.mp apart with ⟨next, apart'⟩
      have minus' := fun same => minus same filled rfl
      have touching := @isEmpty_gapIn written filled.piece separator_eq
      rw [slots, slots, List.flatMap_cons, List.flatMap_cons, ← slots, ← slots]
      rcases here.cases with ⟨lexemes_eq, text_eq⟩ | ⟨directive, isNumberOrWord, lexemes_eq⟩
      · rw [lexemes_eq]
        apply Alike.cons reads.ne_nil
        · apply touching.imp_right
          intro drops
          exact joins_eq_false here ends reads minus' separator_eq drops (by rw [text_eq])
        · apply ih proper' later apart' (EndsBehind.of_token reads.ne_nil _)
          exact fun same other other_mem => (next other other_mem).minus same
      · rcases text_eq : filled.text with _ | ⟨c, text⟩
        · exact absurd text_eq isNumberOrWord.ne_nil
        rw [text_eq] at isNumberOrWord
        have last : (c :: text).getLast? = some ((c :: text).getLast (by simp)) :=
          List.getLast?_eq_some_getLast (by simp)
        -- Only the first character of a value has a gap before it.
        rw [lexemes_eq, text_eq, map_slotsOf_code, map_slotsOf_code]
        apply Alike.cons (by simp)
        · apply touching.imp_right
          intro drops
          exact joins_eq_false here ends reads minus' separator_eq drops (by rw [text_eq]; rfl)
        · apply alike_code
          rw [foldl_eq_getLast]
          apply ih proper' later apart' (EndsBehind.of_value isNumberOrWord last reads directive _)
          intro same
          have word := isNumberOrWord.getLast? last
          rw [List.singleton_inj.mp same] at word
          exact absurd word (by decide)

end Filled

/-! ## The same tokens in both -/

section Tokens

variable {context : Context} {limit : Nat} {pieces : List Piece} {trailing : List Lexeme}

theorem map_piece_fill : (fill context limit pieces).map Filled.piece = pieces := by
  induction pieces generalizing limit with
  | nil => simp [fill]
  | cons piece pieces ih =>
      cases limit with
      | zero => rw [fill_cons_of_none (Or.inl rfl), List.map_cons, ih]
      | succ limit =>
          cases found : piece.token.valueIn? context with
          | none => rw [fill_cons_of_none (Or.inr found), List.map_cons, ih]
          | some value => rw [fill_cons_of_some found, List.map_cons, ih]

theorem isProper_of_mem_fill (values : ∀ tag ∈ Segmentation.directives ⟨pieces, trailing⟩, ∀ value,
      context.valueFor? tag = some value → IsNumberOrWord value.interpolated) :
    ∀ filled ∈ fill context limit pieces, filled.IsProper := by
  induction pieces generalizing limit with
  | nil => simp [fill]
  | cons piece pieces ih =>
      have values' : ∀ tag ∈ Segmentation.directives ⟨pieces, trailing⟩, ∀ value,
          context.valueFor? tag = some value → IsNumberOrWord value.interpolated := by
        intro tag tag_mem
        apply values tag
        rw [Segmentation.directives, List.filterMap_cons]
        split
        · exact tag_mem
        · exact List.mem_cons_of_mem _ tag_mem
      cases limit with
      | zero =>
          rw [fill_cons_of_none (Or.inl rfl)]
          exact List.forall_mem_cons.mpr ⟨Or.inl rfl, ih values'⟩
      | succ limit =>
          cases found : piece.token.valueIn? context with
          | none =>
              rw [fill_cons_of_none (Or.inr found)]
              exact List.forall_mem_cons.mpr ⟨Or.inl rfl, ih values'⟩
          | some value =>
              rw [fill_cons_of_some found]
              refine List.forall_mem_cons.mpr ⟨Or.inr ?_, ih values'⟩
              rw [Lexeme.valueIn?] at found
              split at found
              · next directive =>
                  refine ⟨directive, value.interpolated, values _ ?_ value found, rfl⟩
                  simp [Segmentation.directives, directive]
              · cases found

theorem isTag_of_mem_directives {written : Text} (areCut : AreCut written pieces trailing) :
    ∀ tag ∈ Segmentation.directives ⟨pieces, trailing⟩, IsTag tag := by
  induction pieces generalizing written with
  | nil => simp [Segmentation.directives]
  | cons piece pieces ih =>
      rcases areCut with ⟨-, -, reads, -, later⟩
      rw [Segmentation.directives, List.filterMap_cons]
      split
      · exact ih later
      · next same =>
          split at same
          · next directive =>
              cases same
              exact List.forall_mem_cons.mpr ⟨reads.isTag directive, ih later⟩
          · cases same

/-- The text of a script, minified or not. -/
def scriptIn (minified : Bool) (segmentation : Segmentation) : Text :=
  segmentation.pieces.flatMap
      (fun piece => (gapIn minified piece).flatMap Lexeme.text ++ piece.token.text) ++
    (trailingIn minified segmentation.trailing).flatMap Lexeme.text

theorem scriptIn_false (segmentation : Segmentation) :
    scriptIn false segmentation = segmentation.source := rfl

theorem scriptIn_true (segmentation : Segmentation) :
    scriptIn true segmentation = segmentation.minified := by
  have separator_eq : ∀ piece : Piece,
      (gapIn true piece).flatMap Lexeme.text = piece.separator := by
    intro piece
    rw [gapIn, if_pos rfl, separatorLexemes]
    split
    · next none => exact none.symm
    · simp
  simp [scriptIn, Segmentation.minified, separator_eq, trailingIn]

variable {segmentation : Segmentation}

/-- What a scan leaves of a script has the tokens of the lexemes that it leaves. -/
theorem tokens?_run_scriptIn (minified : Bool)
    (areCut : AreCut [] segmentation.pieces segmentation.trailing)
    (only : Tag.all (scriptIn minified segmentation) = segmentation.directives)
    (values : ∀ tag ∈ segmentation.directives, ∀ value, context.valueFor? tag = some value →
      IsNumberOrWord value.interpolated)
    (apart : (fill context limit segmentation.pieces).IsChain StaysApart)
    (slashes : KeepsSlashes [] [] (fill context limit segmentation.pieces))
    (parentheses : KeepsParentheses segmentation.trailing
      (fill context limit segmentation.pieces)) :
    tokens? (Scan.run context limit (scriptIn minified segmentation)).text =
      .ok (tokensOf ((slots (gapIn minified) (fill context limit segmentation.pieces)).map
        fun slot => (slot.1.isEmpty, slot.2.text))) := by
  have proper :=
    @isProper_of_mem_fill context limit segmentation.pieces segmentation.trailing values
  have noParenthesis : ∀ tag ∈ segmentation.directives, ∀ value,
      context.valueFor? tag = some value → '(' ∉ value.interpolated := by
    intro tag tag_mem value found parenthesis
    exact absurd ((values tag tag_mem value found).isOrdinary _ parenthesis) (by decide)
  have text_eq : (Scan.run context limit (scriptIn minified segmentation)).text =
      following minified (fill context limit segmentation.pieces) segmentation.trailing := by
    rw [following_eq proper]
    have isTags : ∀ tag ∈ segmentation.directives, IsTag tag := isTag_of_mem_directives areCut
    exact text_run_parts isTags only noParenthesis
  rw [← @map_piece_fill context limit segmentation.pieces] at areCut
  have placed := @areCut_place_slots _ minified _ _ [] [] proper areCut apart slashes
    parentheses ⟨rfl, rfl⟩ (Or.inl rfl)
  rw [text_eq, ← source_place_slots [], tokens?, segment_eq_ok_iff.mpr ⟨rfl, placed⟩]
  exact congrArg Except.ok (tokens_place _ _ _)

/-- A difference with a directive behind the minus. -/
def difference : Segmentation :=
  ⟨[⟨[], [], ⟨.code, ['x']⟩⟩, ⟨[⟨.space, [' ']⟩], [], ⟨.code, ['-']⟩⟩,
    ⟨[⟨.space, [' ']⟩], [], ⟨.directive, "(:= n:)".toList⟩⟩], []⟩

theorem segment_difference : segment "x - (:= n:)".toList = .ok difference := by
  have blank : ∀ written following, ReadsGap written [⟨.space, [' ']⟩] following :=
    fun _ _ => ⟨rfl, ⟨' ', [], rfl, .space (by decide)⟩, trivial⟩
  have areCut : AreCut [] difference.pieces difference.trailing := by
    refine ⟨trivial, rfl, reads_code (by decide), rfl, ?_⟩
    refine ⟨blank _ _, rfl, reads_code (by decide), rfl, ?_⟩
    refine ⟨blank _ _, rfl, ?_, rfl, trivial⟩
    exact ⟨'(', ":= n:)".toList, rfl, .directive (by decide)⟩
  exact segment_eq_ok_iff.mpr ⟨rfl, areCut⟩

theorem all_difference : Tag.all "x - (:= n:)".toList = difference.directives := by
  cbv

theorem eq_of_mem_directives {tag : Text} (tag_mem : tag ∈ difference.directives) :
    tag = "(:= n:)".toList := by
  simpa [difference, Segmentation.directives] using tag_mem

/-- The context with an integer under the name in this directive. -/
def assigned (value : Int) : Context where
  members := [("n".toList, .number (.integer value))]

theorem valueFor?_assigned (value : Int) :
    (assigned value).valueFor? "(:= n:)".toList = some (.number (.integer value)) := by
  cbv

/-- A script whose directives stand for words and numbers has the same tokens whether they are
resolved before it is minified or afterwards. Dropping the gaps must not bring about directives or
comments, no slash may change its meaning, and no negative number may stand behind a minus and a
gap that is dropped. -/
theorem tokens?_run_minified {source : Text} (cut : segment source = .ok segmentation)
    (inCode : Tag.all source = segmentation.directives)
    (values : ∀ tag ∈ segmentation.directives, ∀ value, context.valueFor? tag = some value →
      IsNumberOrWord value.interpolated)
    (inCode' : Tag.all segmentation.minified = segmentation.directives)
    (apart : (fill context limit segmentation.pieces).IsChain StaysApart)
    (slashes : KeepsSlashes [] [] (fill context limit segmentation.pieces))
    (parentheses : KeepsParentheses segmentation.trailing
      (fill context limit segmentation.pieces)) :
    ∃ tokens, tokens? (Scan.run context limit source).text = .ok tokens ∧
      tokens? (Scan.run context limit segmentation.minified).text = .ok tokens := by
  rcases segment_eq_ok_iff.mp cut with ⟨rfl, areCut⟩
  rw [← scriptIn_true] at inCode' ⊢
  rw [← scriptIn_false] at inCode ⊢
  refine ⟨_, tokens?_run_scriptIn false areCut inCode values apart slashes parentheses, ?_⟩
  rw [tokens?_run_scriptIn true areCut inCode' values apart slashes parentheses]
  congr 1
  apply tokensOf_eq_of_alike
  rw [← @map_piece_fill context limit segmentation.pieces] at areCut
  have proper :=
    @isProper_of_mem_fill context limit segmentation.pieces segmentation.trailing values
  apply alike_slots proper areCut apart
  · exact ⟨fun word => absurd word (by decide), fun c same => absurd same (by simp)⟩
  · intro same
    cases same

/-- Behind a minus a positive number has the same tokens in both. -/
theorem tokens?_run_minified_positive :
    ∃ tokens, tokens? (Scan.run (assigned 1) 1 "x - (:= n:)".toList).text = .ok tokens ∧
      tokens? (Scan.run (assigned 1) 1 "x-(:= n:)".toList).text = .ok tokens := by
  apply tokens?_run_minified segment_difference all_difference
  · intro tag tag_mem value found
    rw [eq_of_mem_directives tag_mem, valueFor?_assigned] at found
    cases found
    exact isNumberOrWord_integer 1
  · cbv
  · decide
  · decide
  · decide

/-- Behind a minus a negative number has other tokens in the minified script. -/
theorem tokens?_run_minified_negative :
    ¬∀ (source : Text) (segmentation : Segmentation) (context : Context) (limit : Nat),
      segment source = .ok segmentation → Tag.all source = segmentation.directives →
      segmentation.directives.length ≤ limit →
      (∀ tag ∈ segmentation.directives, ∃ value, context.valueFor? tag = some value ∧
        IsNumberOrWord value.interpolated) →
      ∃ tokens, tokens? (Scan.run context limit source).text = .ok tokens ∧
        tokens? (Scan.run context limit segmentation.minified).text = .ok tokens := by
  intro same
  have values : ∀ tag ∈ difference.directives, ∃ value,
      (assigned (-1)).valueFor? tag = some value ∧ IsNumberOrWord value.interpolated := by
    intro tag tag_mem
    rw [eq_of_mem_directives tag_mem]
    exact ⟨_, valueFor?_assigned (-1), isNumberOrWord_integer (-1)⟩
  rcases same "x - (:= n:)".toList difference (assigned (-1)) 1 segment_difference all_difference
    (by decide) values with ⟨tokens, resolved, minified⟩
  have resolved_eq : (Scan.run (assigned (-1)) 1 "x - (:= n:)".toList).text =
      "x - -1".toList := by
    cbv
  have minified_eq : (Scan.run (assigned (-1)) 1 difference.minified).text =
      "x--1".toList := by
    cbv
  have other : tokens? "x - -1".toList ≠ tokens? "x--1".toList := by
    decide +kernel
  rw [resolved_eq] at resolved
  rw [minified_eq] at minified
  exact other (resolved.trans minified.symm)

end Tokens

end Pageweave.Script
