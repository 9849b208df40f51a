import Pageweave.Proofs.LineEnds

/-!
# Scripts without their comments

`uncommented` takes the comments out of a script without literals, by reading it once from left to
right; what ends a line comment is a parameter of it. Minifying keeps all that is left then and is
not white space if a line comment ends at a line feed, and thus also if it may end at a carriage
return, unless such a comment has more than white space behind a carriage return
(`unspaced_minified_eq`).
-/

namespace Pageweave.Script

/-! ## Taking out comments -/

/-- Where a script is read: in code or in a comment. -/
inductive Region where
  /-- Outside comments. -/
  | code
  /-- Behind `//`. -/
  | line
  /-- Behind `/*`. -/
  | block
deriving DecidableEq, Repr

/-- The rest of a script without comments, from within a region on. -/
def uncommentedFrom (endsLine : Char → Bool) : Region → Text → Text
  | _, [] => []
  | .code, '/' :: '/' :: rest => uncommentedFrom endsLine .line rest
  | .code, '/' :: '*' :: rest => uncommentedFrom endsLine .block rest
  | .code, c :: rest => c :: uncommentedFrom endsLine .code rest
  | .line, c :: rest =>
      if endsLine c then c :: uncommentedFrom endsLine .code rest
      else uncommentedFrom endsLine .line rest
  | .block, '*' :: '/' :: rest => uncommentedFrom endsLine .code rest
  | .block, _ :: rest => uncommentedFrom endsLine .block rest

/-- A script without literals with its comments taken out. -/
def uncommented (endsLine : Char → Bool) (source : Text) : Text :=
  uncommentedFrom endsLine .code source

/-- A line feed or a carriage return. -/
def isLineBreak (c : Char) : Bool :=
  c = '\n' || c = '\r'

/-- A text without its white space. -/
def unspaced (text : Text) : Text :=
  text.filter fun c => !Pageweave.isBlank c

/-- What a lexeme adds to the code of a script. -/
def Lexeme.code (lexeme : Lexeme) : Text :=
  if lexeme.shape.isBlank then [] else lexeme.text

/-- Behind a character that may end a line, a line comment has only white space. -/
def Lexeme.EndsInBlanks (endsLine : Char → Bool) (lexeme : Lexeme) : Prop :=
  ∀ before c after, lexeme.text = before ++ c :: after → endsLine c = true →
    ∀ d ∈ c :: after, Pageweave.isBlank d = true

section Unspaced

variable {first second text : Text}

@[simp]
theorem unspaced_nil : unspaced [] = [] :=
  rfl

@[simp]
theorem unspaced_append (first second : Text) :
    unspaced (first ++ second) = unspaced first ++ unspaced second :=
  List.filter_append ..

theorem unspaced_cons_of_blank {c : Char} (blank : Pageweave.isBlank c = true) (text : Text) :
    unspaced (c :: text) = unspaced text := by
  simp [unspaced, blank]

theorem unspaced_cons_of_dark {c : Char} (dark : Pageweave.isBlank c = false) (text : Text) :
    unspaced (c :: text) = c :: unspaced text := by
  simp [unspaced, dark]

end Unspaced

section Uncommented

variable {endsLine : Char → Bool} {body rest : Text} {c : Char}

theorem uncommentedFrom_code_cons
    (apart : c = '/' → rest.head? ≠ some '/' ∧ rest.head? ≠ some '*') :
    uncommentedFrom endsLine .code (c :: rest) = c :: uncommentedFrom endsLine .code rest := by
  rw [uncommentedFrom.eq_def]
  split <;> simp_all

theorem uncommentedFrom_line_cons (c : Char) (rest : Text) :
    uncommentedFrom endsLine .line (c :: rest) =
      if endsLine c then c :: uncommentedFrom endsLine .code rest
      else uncommentedFrom endsLine .line rest := by
  rw [uncommentedFrom]

theorem uncommentedFrom_block_cons (goesOn : c = '*' → rest.head? ≠ some '/') :
    uncommentedFrom endsLine .block (c :: rest) = uncommentedFrom endsLine .block rest := by
  rw [uncommentedFrom.eq_def]
  split <;> simp_all

theorem uncommentedFrom_block_append (first : ¬['*', '/'] <:+: body ++ ['*']) (rest : Text) :
    uncommentedFrom endsLine .block (body ++ '*' :: '/' :: rest) =
      uncommentedFrom endsLine .code rest := by
  induction body with
  | nil => rw [List.nil_append, uncommentedFrom]
  | cons c body ih =>
      rw [← ih fun inside => first (List.infix_cons inside), List.cons_append]
      apply uncommentedFrom_block_cons
      rintro rfl slash
      cases body with
      | nil => cases slash
      | cons d body =>
          cases slash
          exact first ⟨[], body ++ ['*'], rfl⟩

theorem unspaced_uncommented_of_blanks (blanks : ∀ c ∈ body, Pageweave.isBlank c = true)
    (rest : Text) :
    unspaced (uncommented endsLine (body ++ rest)) = unspaced (uncommented endsLine rest) := by
  induction body with
  | nil => rfl
  | cons c body ih =>
      rcases List.forall_mem_cons.mp blanks with ⟨blank, blanks⟩
      rw [← ih blanks, List.cons_append, uncommented, uncommentedFrom_code_cons,
        unspaced_cons_of_blank blank, uncommented]
      rintro rfl
      exact absurd blank (by decide)

theorem uncommentedFrom_line_of_feed (feeds : endsLine '\n' = true)
    (ends : rest = [] ∨ rest.head? = some '\n') :
    uncommentedFrom endsLine .line rest = uncommented endsLine rest := by
  rcases ends with rfl | feed
  · rfl
  · rcases List.head?_eq_some_iff.mp feed with ⟨rest, rfl⟩
    rw [uncommentedFrom_line_cons, if_pos feeds, uncommented, uncommentedFrom_code_cons]
    simp

theorem unspaced_uncommentedFrom_line (feeds : endsLine '\n' = true)
    (ends : rest = [] ∨ rest.head? = some '\n')
    (inBlanks : ∀ before c after, body = before ++ c :: after → endsLine c = true →
      ∀ d ∈ c :: after, Pageweave.isBlank d = true) :
    unspaced (uncommentedFrom endsLine .line (body ++ rest)) =
      unspaced (uncommented endsLine rest) := by
  induction body with
  | nil => rw [List.nil_append, uncommentedFrom_line_of_feed feeds ends]
  | cons c body ih =>
      rw [List.cons_append, uncommentedFrom_line_cons]
      by_cases here : endsLine c = true
      · rcases List.forall_mem_cons.mp (inBlanks [] c body rfl here) with ⟨blank, blanks⟩
        rw [if_pos here, unspaced_cons_of_blank blank]
        exact unspaced_uncommented_of_blanks blanks rest
      · rw [if_neg here]
        apply ih
        intro before d after body_eq
        exact inBlanks (c :: before) d after (congrArg _ body_eq)

/-- A lexeme of a script without literals adds the same to what is left of the script when comments
are taken out as when it is minified. -/
theorem unspaced_uncommented_append {lexeme : Lexeme} {written : Text}
    (reads : lexeme.Reads written rest) (feeds : endsLine '\n' = true)
    (inBlanks : lexeme.shape = .lineComment → lexeme.EndsInBlanks endsLine)
    (code : lexeme.shape.isBlank = false → lexeme.shape = .code) :
    unspaced (uncommented endsLine (lexeme.text ++ rest)) =
      lexeme.code ++ unspaced (uncommented endsLine rest) := by
  have complete := reads.isComplete
  rcases lexeme with ⟨shape, text⟩
  cases shape with
  | space =>
      rcases complete with ⟨c, rfl, blank⟩
      exact unspaced_uncommented_of_blanks (by simp [blank]) rest
  | lineComment =>
      rcases complete with ⟨body, rfl, -, ends⟩
      apply unspaced_uncommentedFrom_line feeds ends
      intro before c after body_eq
      exact inBlanks rfl ('/' :: '/' :: before) c after (by simp [body_eq])
  | blockComment =>
      rcases complete with ⟨body, rfl, first⟩
      have inside := @uncommentedFrom_block_append endsLine body first rest
      simpa [uncommented, uncommentedFrom, Lexeme.code, Shape.isBlank] using
        congrArg unspaced inside
  | code =>
      rcases complete with ⟨c, rfl, dark, -, apart, -⟩
      have cons := @uncommentedFrom_code_cons endsLine rest c apart
      simp [uncommented, cons, unspaced_cons_of_dark dark, Lexeme.code, Shape.isBlank]
  | string | template | regex | directive => cases code rfl

end Uncommented

section Run

variable {endsLine : Char → Bool} {progress : Progress} {lexemes : List Lexeme} {written : Text}
  {pieces : List Piece} {trailing : List Lexeme}

theorem unspaced_uncommented_flatMap (reads : ReadsAll progress lexemes [])
    (feeds : endsLine '\n' = true)
    (inBlanks : ∀ lexeme ∈ lexemes, lexeme.shape = .lineComment → lexeme.EndsInBlanks endsLine)
    (code : ∀ lexeme ∈ lexemes, lexeme.shape.isBlank = false → lexeme.shape = .code) :
    unspaced (uncommented endsLine (lexemes.flatMap Lexeme.text)) =
      lexemes.flatMap Lexeme.code := by
  induction lexemes generalizing progress with
  | nil => rfl
  | cons lexeme lexemes ih =>
      rcases reads with ⟨here, later⟩
      rcases List.forall_mem_cons.mp inBlanks with ⟨inBlanks, inBlanks'⟩
      rcases List.forall_mem_cons.mp code with ⟨code, code'⟩
      rw [List.append_nil] at here
      rw [List.flatMap_cons, List.flatMap_cons,
        unspaced_uncommented_append here feeds inBlanks code, ih later inBlanks' code']

theorem unspaced_separator (written : Text) (gap : List Lexeme) (lexeme : Lexeme) :
    unspaced (separator written gap lexeme) = [] := by
  rcases separator_cases written gap lexeme with none | space | feed
  · rw [none]
    rfl
  · rw [space]
    decide
  · rw [feed]
    decide

theorem Lexeme.Reads.unspaced_text {lexeme : Lexeme} {rest : Text}
    (reads : lexeme.Reads written rest) (code : lexeme.shape = .code) :
    unspaced lexeme.text = lexeme.text := by
  have complete := reads.isComplete
  rw [Lexeme.IsComplete, code] at complete
  rcases complete with ⟨c, text_eq, dark, -⟩
  rw [text_eq, unspaced_cons_of_dark dark, unspaced_nil]

theorem unspaced_minified (areCut : AreCut written pieces trailing)
    (code : ∀ piece ∈ pieces, piece.token.shape = .code) :
    unspaced (Segmentation.minified ⟨pieces, trailing⟩) =
      (Segmentation.lexemes ⟨pieces, trailing⟩).flatMap Lexeme.code := by
  have blanks : ∀ gap : List Lexeme, (∀ lexeme ∈ gap, lexeme.shape.isBlank = true) →
      gap.flatMap Lexeme.code = [] := by
    intro gap blank
    rw [List.flatMap_eq_nil_iff]
    intro lexeme lexeme_mem
    rw [Lexeme.code, if_pos (blank lexeme lexeme_mem)]
  induction pieces generalizing written with
  | nil =>
      have trailing_eq := blanks trailing (isBlank_of_areCut areCut).2
      simpa [Segmentation.minified, Segmentation.lexemes] using trailing_eq.symm
  | cons piece pieces ih =>
      have gap_eq := blanks piece.gap
        ((isBlank_of_areCut areCut).1 piece List.mem_cons_self).1
      rcases areCut with ⟨-, token, reads, separator_eq, later⟩
      rcases List.forall_mem_cons.mp code with ⟨here, code⟩
      have token_eq : piece.token.code = piece.token.text := by
        rw [Lexeme.code, if_neg (by simp [token])]
      have left := ih later code
      simp only [Segmentation.minified, Segmentation.lexemes, List.flatMap_cons, unspaced_append,
        List.flatMap_append, List.append_assoc] at left ⊢
      rw [left, separator_eq, unspaced_separator, reads.unspaced_text here, gap_eq]
      simp [token_eq]

end Run

/-- Minifying a script without literals keeps what is left when the comments are taken out. -/
theorem unspaced_minified_eq {endsLine : Char → Bool} {source : Text}
    {segmentation : Segmentation} (cut : segment source = .ok segmentation)
    (feeds : endsLine '\n' = true)
    (inBlanks : ∀ lexeme ∈ segmentation.lexemes,
      lexeme.shape = .lineComment → lexeme.EndsInBlanks endsLine)
    (code : ∀ lexeme ∈ segmentation.lexemes,
      lexeme.shape.isBlank = false → lexeme.shape = .code) :
    unspaced segmentation.minified = unspaced (uncommented endsLine source) := by
  rcases segment_eq_ok_iff.mp cut with ⟨rfl, areCut⟩
  have reads := (@readsAll_of_areCut {} _ _ rfl areCut).1
  have minified_eq := unspaced_minified areCut <| by
    intro piece piece_mem
    apply code piece.token _ ((isBlank_of_areCut areCut).1 piece piece_mem).2
    simpa [Segmentation.lexemes] using Or.inl ⟨piece, piece_mem, Or.inr rfl⟩
  rw [minified_eq, ← flatMap_lexemes, unspaced_uncommented_flatMap reads feeds inBlanks code]

end Pageweave.Script
