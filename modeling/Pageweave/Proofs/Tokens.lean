import Mathlib.Data.List.Basic
import Mathlib.Data.List.Infix
import Mathlib.Data.List.TakeWhile
import Pageweave.Script.Minify

/-!
# Tokens of a script

The lexemes of a script that touch are put together to tokens: words as long as possible, `++` and
`--`; any other lexeme is a token by itself. Which tokens there are depends on the gaps between
lexemes only where two lexemes would join (`tokensOf_eq_of_alike`). A separator is written in every
gap where they would, and the text written so far ends in the same word however the gaps before it
were written.
-/

namespace Pageweave.Script

/-! ## Tokens -/

/-- Whether a lexeme goes on with the token before it if nothing stands between them. -/
def joins (token next : Text) : Bool :=
  (token.getLast?.any isWord && next.head?.any isWord) || (token = ['+'] && next = ['+']) ||
    (token = ['-'] && next = ['-'])

/-- The tokens of lexemes, each given with whether it touches the one before, where the token at
hand may go on. -/
def gather (token : Text) : List (Bool × Text) → List Text
  | [] => [token]
  | (touches, next) :: rest =>
      if touches && joins token next then gather (token ++ next) rest
      else token :: gather next rest

/-- The tokens of lexemes, each given with whether it touches the one before. -/
def tokensOf : List (Bool × Text) → List Text
  | [] => []
  | (_, first) :: rest => gather first rest

/-- The tokens of a script that was cut. -/
def Segmentation.tokens (segmentation : Segmentation) : List Text :=
  tokensOf (segmentation.pieces.map fun piece => (piece.gap.isEmpty, piece.token.text))

/-- The tokens of a script, without white space and comments. -/
def tokens? (script : Text) : Except Unterminated (List Text) :=
  (segment script).map Segmentation.tokens

example : tokens? "x1 - -y++ /* z */ + 'a b';".toList =
    .ok (["x1", "-", "-", "y", "++", "+", "'a b'", ";"].map String.toList) := by
  decide +kernel

/-- The same lexemes, of which some touch the one before in one place and not in the other; these
do not join the one before. -/
inductive Alike : (previous : Text) → List (Bool × Text) → List (Bool × Text) → Prop
  | nil {previous : Text} : Alike previous [] []
  | cons {previous text : Text} {touches touches' : Bool} {rest rest' : List (Bool × Text)}
      (nonempty : text ≠ []) (apart : touches = touches' ∨ joins previous text = false)
      (later : Alike text rest rest') :
      Alike previous ((touches, text) :: rest) ((touches', text) :: rest')

/-- What joins a token joins the last lexeme in it. -/
theorem joins_of_joins_append {token last next : Text} (nonempty : last ≠ [])
    (joined : joins (token ++ last) next = true) : joins last next = true := by
  have single : ∀ c, token ++ last = [c] → last = [c] := by
    intro c same
    rcases List.append_eq_singleton_iff.mp same with ⟨-, last_eq⟩ | ⟨-, last_eq⟩
    · exact last_eq
    · exact absurd last_eq nonempty
  simp only [joins, Bool.or_eq_true, Bool.and_eq_true, decide_eq_true_eq] at joined ⊢
  rcases joined with (⟨ends, begins⟩ | ⟨same, begins⟩) | ⟨same, begins⟩
  · rw [List.getLast?_append_of_ne_nil _ nonempty] at ends
    exact Or.inl (Or.inl ⟨ends, begins⟩)
  · exact Or.inl (Or.inr ⟨single _ same, begins⟩)
  · exact Or.inr ⟨single _ same, begins⟩

theorem gather_eq_of_alike {previous token : Text} {first second : List (Bool × Text)}
    (alike : Alike previous first second)
    (ends : ∀ next, joins token next = true → joins previous next = true) :
    gather token first = gather token second := by
  induction alike generalizing token with
  | nil => rfl
  | @cons previous text touches touches' rest rest' nonempty apart later ih =>
      have joined := @ih (token ++ text) fun next => joins_of_joins_append nonempty
      have started := @ih text fun next => id
      rcases apart with rfl | apart
      · rw [gather, gather, joined, started]
      · have apart' : joins token text = false := by
          cases joined : joins token text with
          | false => rfl
          | true => rw [ends text joined] at apart; cases apart
        simp only [gather, apart', Bool.and_false, Bool.false_eq_true, if_false, started]

/-- Lexemes have the same tokens if those that touch only in one place would not join. -/
theorem tokensOf_eq_of_alike {first second : List (Bool × Text)} (alike : Alike [] first second) :
    tokensOf first = tokensOf second := by
  cases alike with
  | nil => rfl
  | cons nonempty apart later => exact gather_eq_of_alike later fun next => id

/-! ## The word written last -/

theorem lastWord_append_of_word {word : Text} (isWords : ∀ c ∈ word, isWord c = true)
    (written : Text) : lastWord (word.reverse ++ written) = lastWord written ++ word := by
  rw [lastWord, List.takeWhile_append_of_pos (by simpa using isWords)]
  simp [lastWord]

theorem lastWord_append_of_not_word {text : Text} {c : Char} (c_mem : c ∈ text)
    (other : isWord c = false) (written : Text) :
    lastWord (text.reverse ++ written) = lastWord text.reverse := by
  have stops : (text.reverse.takeWhile isWord).length ≠ text.reverse.length := by
    intro whole
    have all := (List.takeWhile_prefix isWord).eq_of_length whole
    rw [List.mem_reverse.symm, ← all] at c_mem
    rw [List.mem_takeWhile_imp c_mem] at other
    cases other
  rw [lastWord, List.takeWhile_append, if_neg stops, lastWord]

theorem lastWord_eq_nil {written : Text} (other : written.head?.any isWord = false) :
    lastWord written = [] := by
  cases written with
  | nil => rfl
  | cons c written =>
      rw [List.head?_cons, Option.any_some] at other
      rw [lastWord, List.takeWhile_cons_of_neg (by simp [other])]
      rfl

/-- Two texts end in the same character and the same word; they are given with their latest
character first. -/
def SameEnd (written written' : Text) : Prop :=
  written.head? = written'.head? ∧ lastWord written = lastWord written'

theorem SameEnd.regexAllowed {written written' : Text} (same : SameEnd written written') :
    regexAllowed written = regexAllowed written' := by
  rcases same with ⟨head_eq, word_eq⟩
  cases written with
  | nil =>
      rw [List.head?_nil, eq_comm, List.head?_eq_none_iff] at head_eq
      rw [head_eq]
  | cons c written =>
      cases written' with
      | nil => cases head_eq
      | cons d written' =>
          cases head_eq
          rw [Script.regexAllowed, Script.regexAllowed, word_eq]

/-! ## Separators -/

section Separator

variable {written : Text} {gap : List Lexeme} {lexeme : Lexeme}

@[simp]
theorem separator_nil (written : Text) (lexeme : Lexeme) : separator written [] lexeme = [] := by
  rw [separator.eq_def]
  split <;> rfl

theorem separator_cases (written : Text) (gap : List Lexeme) (lexeme : Lexeme) :
    separator written gap lexeme = [] ∨ separator written gap lexeme = [' '] ∨
      separator written gap lexeme = ['\n'] := by
  rw [separator.eq_def]
  split
  · dsimp only
    split_ifs <;> simp
  · simp

/-- Behind a separator there is no word to go on. -/
theorem lastWord_separator_append (nonempty : separator written gap lexeme ≠ []) (text : Text) :
    lastWord ((separator written gap lexeme).reverse ++ text) = [] := by
  rcases separator_cases written gap lexeme with none | space | feed
  · exact absurd none nonempty
  · rw [space]
    exact lastWord_eq_nil (show isWord ' ' = false by decide)
  · rw [feed]
    exact lastWord_eq_nil (show isWord '\n' = false by decide)

/-- A separator is written in a gap if one of the conditions for a space holds. -/
theorem separator_ne_nil {previous first : Char} {before text : Text} (nonempty : gap ≠ [])
    (text_eq : lexeme.text = first :: text)
    (merges : (isWord previous || Text.startsWith [')', ':'] (previous :: before)) = true ∧
        (isWord first || lexeme.shape = .directive) = true ∨
      previous = first ∧ (first = '+' ∨ first = '-' ∨ first = '/')) :
    separator (previous :: before) gap lexeme ≠ [] := by
  rw [separator.eq_def, text_eq]
  dsimp only
  rw [if_neg (by simpa using nonempty)]
  split_ifs with breaks spaced
  · simp
  · simp
  · exfalso
    apply spaced
    rcases merges with ⟨ends, begins⟩ | ⟨rfl, rfl | rfl | rfl⟩
    · rw [ends, begins]
      rfl
    all_goals simp

/-- Words and directives are kept apart. -/
theorem separator_ne_nil_of_words (nonempty : gap ≠ [])
    (before : written.head?.any isWord = true ∨ [')', ':'] <+: written)
    (next : lexeme.text.head?.any isWord = true ∨ lexeme.shape = .directive ∧ lexeme.text ≠ []) :
    separator written gap lexeme ≠ [] := by
  rcases written with _ | ⟨previous, written⟩
  · simp at before
  rcases text_eq : lexeme.text with _ | ⟨first, text⟩
  · simp [text_eq] at next
  apply separator_ne_nil nonempty text_eq
  left
  constructor
  · rcases before with word | ⟨rest, closing⟩
    · simpa using Or.inl word
    · rw [← closing]
      simp [Text.startsWith, Text.after?]
  · rw [text_eq] at next
    rcases next with word | ⟨directive, -⟩
    · simpa using Or.inl word
    · simp [directive]

/-- Two pluses, two minuses and two slashes are kept apart. -/
theorem separator_ne_nil_of_signs {c : Char} (nonempty : gap ≠ [])
    (sign : c = '+' ∨ c = '-' ∨ c = '/') (before : written.head? = some c)
    (next : lexeme.text.head? = some c) : separator written gap lexeme ≠ [] := by
  rcases List.head?_eq_some_iff.mp before with ⟨written, rfl⟩
  rcases List.head?_eq_some_iff.mp next with ⟨text, text_eq⟩
  exact separator_ne_nil nonempty text_eq (Or.inr ⟨rfl, sign⟩)

end Separator

end Pageweave.Script
