import Mathlib.Data.List.Chain
import Pageweave.Proofs.Minified

/-!
# Tokens kept apart

Characters of words that touch in a script make up words; every other lexeme is a token by itself.
Two tokens that had a gap between them are kept apart in the minified script where they could be
read as something else, with two exceptions: the word behind a regular expression literal comes to
stand where its flags would, and a star behind a slash begins a comment
(`separator_ne_nil_iff_of_minify`).

What is written in a gap depends on the text written so far, so the proof carries along what is
known of its end: the word that a word token is, and otherwise the last character.
-/

namespace Pageweave.Script

/-! ## Tokens -/

/-- What a token of a script is. -/
inductive Kind where
  | word
  | string
  | template
  | regex
  | directive
  | punctuation
deriving DecidableEq, Repr

/-- The kind of the token that a lexeme is or belongs to. -/
def Lexeme.kind (lexeme : Lexeme) : Kind :=
  match lexeme.shape with
  | .string => .string
  | .template => .template
  | .regex => .regex
  | .directive => .directive
  | .space | .lineComment | .blockComment | .code =>
      if lexeme.text.head?.any isWord then .word else .punctuation

/-- A token of a script, with the blanks before it and what is written in their place. -/
structure Token where
  /-- What the token is. -/
  kind : Kind
  /-- The blanks before the token. -/
  gap : List Lexeme
  /-- What is written in place of the blanks. -/
  separator : Text
  /-- The characters of the token. -/
  text : Text
deriving DecidableEq, Repr

/-- The token that a piece is by itself. -/
def Piece.single (piece : Piece) : Token :=
  ⟨piece.token.kind, piece.gap, piece.separator, piece.token.text⟩

/-- The tokens with a piece before them. A character of a word joins the word that it touches. -/
def Piece.join (piece : Piece) : List Token → List Token
  | [] => [piece.single]
  | next :: tokens =>
      if piece.token.kind = .word ∧ next.kind = .word ∧ next.gap = [] then
        { piece.single with text := piece.token.text ++ next.text } :: tokens
      else piece.single :: next :: tokens

/-- The tokens of a script. -/
def Segmentation.joined (segmentation : Segmentation) : List Token :=
  segmentation.pieces.foldr Piece.join []

/-- A word, or a directive, which may give way to one. -/
def Token.IsWordlike (token : Token) : Prop :=
  token.kind = .word ∨ token.kind = .directive

/-- Two tokens that could be read as something else if nothing stood between them. -/
inductive MergesWith (first second : Token) : Prop
  /-- Two words would be one. -/
  | words (left : first.IsWordlike) (right : second.IsWordlike)
  /-- A word would be the flags of a literal. -/
  | flags (left : first.kind = .regex) (right : second.IsWordlike)
  /-- Two signs would be an increment or a decrement. -/
  | signs {c : Char} (sign : c = '+' ∨ c = '-') (left : first.text.getLast? = some c)
      (right : second.text.head? = some c)
  /-- Two slashes, or a slash and a star, would begin a comment. -/
  | comment (left : first.text.getLast? = some '/')
      (right : second.text.head? = some '/' ∨ second.text.head? = some '*')
  /-- A point would belong to the number before it. -/
  | fraction (left : first.kind = .word) (digit : first.text.head?.any Char.isDigit = true)
      (right : second.text.head? = some '.')

/-- Two tokens between which nothing is written although they could be read as something else. -/
inductive IsGlued (first second : Token) : Prop
  /-- A word, on the same line, behind a regular expression literal. -/
  | flags (left : first.kind = .regex) (right : second.IsWordlike)
      (unbroken : second.gap.any Lexeme.breaksLine = false)
  /-- A star behind a slash. -/
  | comment (left : first.text.getLast? = some '/') (right : second.text.head? = some '*')

/-- Between two tokens that are not to merge something is written in place of a gap, unless they
are glued. -/
def AreKeptApart (first second : Token) : Prop :=
  second.gap ≠ [] → MergesWith first second →
    (second.separator = [' '] ∨ second.separator = ['\n'] ↔ ¬IsGlued first second)

/-! ## What tokens look like -/

/-- The ends of a token say of what kind it is. -/
structure Token.IsFormed (token : Token) : Prop where
  nonempty : token.text ≠ []
  begins : token.text.head?.any isWord = true ↔ token.kind = .word
  ends : token.text.getLast?.any isWord = true ↔ token.kind = .word
  word : token.kind = .word → ∀ c ∈ token.text, isWord c = true
  regex : token.kind = .regex → token.text.getLast? = some '/'
  directive : token.kind = .directive → token.text.head? = some '(' ∧ [':', ')'] <:+ token.text

/-- The lexeme that stands for a token where a separator is chosen. -/
def Token.lexeme (token : Token) : Lexeme :=
  ⟨if token.kind = .directive then .directive else .code, token.text⟩

section Formed

variable {lexeme : Lexeme} {rest : Text}

theorem isFormed_delimited {kind : Kind} {gap : List Lexeme} {separator body : Text}
    {opening closing : Char} (opens : isWord opening = false) (closes : isWord closing = false)
    (other : kind ≠ .word) (regex : kind = .regex → closing = '/') (kept : kind ≠ .directive) :
    Token.IsFormed ⟨kind, gap, separator, opening :: (body ++ [closing])⟩ where
  nonempty := by simp
  begins := by simp [opens, other]
  ends := by
    rw [← List.cons_append, List.getLast?_concat]
    simp [closes, other]
  word := fun word => absurd word other
  regex := by
    intro isRegex
    rw [← List.cons_append, List.getLast?_concat, regex isRegex]
  directive := fun directive => absurd directive kept

theorem isFormed_directive {gap : List Lexeme} {separator tag : Text} (isTag : IsTag tag) :
    Token.IsFormed ⟨.directive, gap, separator, tag⟩ := by
  rcases isTag with ⟨body, -, rfl⟩
  have last : (['(', ':'] ++ body ++ [':', ')']).getLast? = some ')' := by
    rw [List.getLast?_append_of_ne_nil _ (by simp)]
    rfl
  constructor
  · simp
  · simp [show isWord '(' = false by decide]
  · dsimp only
    rw [last]
    simp [show isWord ')' = false by decide]
  · intro word
    cases word
  · intro regex
    cases regex
  · exact fun _ => ⟨rfl, List.suffix_append _ _⟩

theorem isFormed_character {gap : List Lexeme} {separator : Text} (c : Char) :
    Token.IsFormed ⟨if isWord c then .word else .punctuation, gap, separator, [c]⟩ := by
  cases word : isWord c <;> constructor <;> simp [word]

theorem isFormed_single {piece : Piece} (token : piece.token.shape.isBlank = false)
    (complete : piece.token.IsComplete rest) : piece.single.IsFormed := by
  rcases piece with ⟨gap, separator, ⟨shape, text⟩⟩
  cases shape with
  | space | lineComment | blockComment => cases token
  | string =>
      rcases complete with ⟨quote, body, quotes, text_eq, -⟩
      have other : isWord quote = false := by rcases quotes with rfl | rfl <;> decide
      dsimp only at text_eq
      subst text_eq
      exact isFormed_delimited other other (by simp [Lexeme.kind]) (by simp [Lexeme.kind])
        (by simp [Lexeme.kind])
  | template =>
      rcases complete with ⟨body, text_eq, -⟩
      dsimp only at text_eq
      subst text_eq
      exact isFormed_delimited (by decide) (by decide) (by simp [Lexeme.kind])
        (by simp [Lexeme.kind]) (by simp [Lexeme.kind])
  | regex =>
      rcases complete with ⟨body, text_eq, -, -, -⟩
      dsimp only at text_eq
      subst text_eq
      exact isFormed_delimited (by decide) (by decide) (by simp [Lexeme.kind])
        (fun _ => rfl) (by simp [Lexeme.kind])
  | directive => exact isFormed_directive complete
  | code =>
      rcases complete with ⟨c, text_eq, -, -, -, -⟩
      dsimp only at text_eq
      subst text_eq
      exact isFormed_character c

theorem Token.IsFormed.append {token next : Token} (isFormed : token.IsFormed)
    (isFormed' : next.IsFormed) (word : token.kind = .word) (word' : next.kind = .word) :
    Token.IsFormed { token with text := token.text ++ next.text } where
  nonempty := by simp [isFormed.nonempty]
  begins := by
    rw [List.head?_append_of_ne_nil _ isFormed.nonempty]
    exact isFormed.begins
  ends := by
    rw [List.getLast?_append_of_ne_nil _ isFormed'.nonempty, isFormed'.ends]
    simp [word, word']
  word := by
    intro _ c c_mem
    rcases List.mem_append.mp c_mem with c_mem | c_mem
    · exact isFormed.word word c c_mem
    · exact isFormed'.word word' c c_mem
  regex := by simp [word]
  directive := by simp [word]

end Formed

/-! ## Tokens as they are written -/

/-- Each token has the separator that is chosen for it behind the text written so far. -/
def AreWritten : (written : Text) → List Token → Prop
  | _, [] => True
  | written, token :: tokens =>
      token.IsFormed ∧ token.separator = separator written token.gap token.lexeme ∧
        AreWritten (token.text.reverse ++ (token.separator.reverse ++ written)) tokens

/-- Two words that follow each other do not touch. -/
def AreApart (first second : Token) : Prop :=
  first.kind = .word → second.kind = .word → second.gap ≠ []

theorem separator_congr {written : Text} {gap : List Lexeme} {lexeme lexeme' : Lexeme}
    (head_eq : lexeme.text.head? = lexeme'.text.head?)
    (shape_iff : lexeme.shape = .directive ↔ lexeme'.shape = .directive) :
    separator written gap lexeme = separator written gap lexeme' := by
  rw [separator.eq_def, separator.eq_def]
  rcases lexeme with ⟨shape, _ | ⟨c, text⟩⟩ <;> rcases lexeme' with ⟨shape', _ | ⟨d, text'⟩⟩
  · cases written <;> rfl
  · cases head_eq
  · cases head_eq
  · cases head_eq
    have same : decide (shape = .directive) = decide (shape' = .directive) :=
      decide_eq_decide.mpr shape_iff
    cases written with
    | nil => rfl
    | cons previous written => simp only [same]

theorem kind_eq_directive_iff (lexeme : Lexeme) :
    lexeme.kind = .directive ↔ lexeme.shape = .directive := by
  rcases lexeme with ⟨shape, text⟩
  cases shape <;> simp [Lexeme.kind] <;> split <;> simp

theorem separator_lexeme {written : Text} {piece : Piece} {token : Token}
    (kind_eq : token.kind = piece.token.kind)
    (head_eq : token.text.head? = piece.token.text.head?) :
    separator written piece.gap token.lexeme = separator written piece.gap piece.token := by
  apply separator_congr head_eq
  rw [← kind_eq_directive_iff piece.token, ← kind_eq, Token.lexeme]
  split <;> simp_all

section Join

variable {piece : Piece} {tokens : List Token} {written : Text}

theorem areWritten_join (isFormed : piece.single.IsFormed)
    (separator_eq : piece.separator = separator written piece.gap piece.token)
    (areWritten :
      AreWritten (piece.token.text.reverse ++ (piece.separator.reverse ++ written)) tokens) :
    AreWritten written (piece.join tokens) := by
  have single : AreWritten written (piece.single :: tokens) :=
    ⟨isFormed, separator_eq.trans (separator_lexeme rfl rfl).symm, areWritten⟩
  cases tokens with
  | nil => exact single
  | cons next tokens =>
      rw [Piece.join]
      split
      · next goesOn =>
          rcases goesOn with ⟨word, word', touches⟩
          rcases areWritten with ⟨isFormed', separator_eq', later⟩
          rw [touches, separator_nil] at separator_eq'
          refine ⟨isFormed.append isFormed' word word', ?_, ?_⟩
          · exact separator_eq.trans
              (separator_lexeme rfl (List.head?_append_of_ne_nil _ isFormed.nonempty)).symm
          · rw [separator_eq'] at later
            simpa [Piece.single] using later
      · exact single

theorem isChain_join (apart : tokens.IsChain AreApart) : (piece.join tokens).IsChain AreApart := by
  cases tokens with
  | nil => exact List.isChain_singleton _
  | cons next tokens =>
      rw [Piece.join]
      split
      · next goesOn =>
          rcases List.isChain_cons.mp apart with ⟨next_apart, later⟩
          refine List.isChain_cons.mpr ⟨?_, later⟩
          intro other other_mem word
          exact next_apart other other_mem goesOn.2.1
      · next notJoined =>
          refine List.isChain_cons.mpr ⟨?_, apart⟩
          intro other other_mem word word' touches
          cases other_mem
          exact notJoined ⟨word, word', touches⟩

theorem flatMap_join (blank : Token → Text) (blank' : Piece → Text)
    (single : blank piece.single = blank' piece)
    (same : ∀ text, blank { piece.single with text } = blank piece.single)
    (touching : ∀ next ∈ tokens.head?, next.gap = [] → blank next = []) :
    (piece.join tokens).flatMap (fun token => blank token ++ token.text) =
      blank' piece ++ piece.token.text ++
        tokens.flatMap (fun token => blank token ++ token.text) := by
  cases tokens with
  | nil => simp [Piece.join, single]; rfl
  | cons next tokens =>
      rw [Piece.join]
      split
      · next goesOn => simp [same, single, touching next rfl goesOn.2.2]
      · simp [single]; rfl

end Join

section Foldr

variable {pieces : List Piece} {trailing : List Lexeme} {written : Text}

theorem areWritten_of_areCut (areCut : AreCut written pieces trailing) :
    AreWritten written (pieces.foldr Piece.join []) := by
  induction pieces generalizing written with
  | nil => trivial
  | cons piece pieces ih =>
      rcases areCut with ⟨-, token, reads, separator_eq, later⟩
      exact areWritten_join (isFormed_single token reads.isComplete) separator_eq (ih later)

theorem isChain_foldr_join : (pieces.foldr Piece.join []).IsChain AreApart := by
  induction pieces with
  | nil => exact .nil
  | cons piece pieces ih => exact isChain_join ih

theorem flatMap_gap_foldr :
    (pieces.foldr Piece.join []).flatMap
        (fun token => token.gap.flatMap Lexeme.text ++ token.text) =
      pieces.flatMap fun piece => piece.gap.flatMap Lexeme.text ++ piece.token.text := by
  induction pieces with
  | nil => rfl
  | cons piece pieces ih =>
      rw [List.foldr_cons, flatMap_join (fun token => token.gap.flatMap Lexeme.text)
        (fun piece => piece.gap.flatMap Lexeme.text) rfl (fun _ => rfl), ih, List.flatMap_cons]
      intro next _ touches
      rw [touches, List.flatMap_nil]

theorem flatMap_separator_foldr (areCut : AreCut written pieces trailing) :
    (pieces.foldr Piece.join []).flatMap (fun token => token.separator ++ token.text) =
      pieces.flatMap fun piece => piece.separator ++ piece.token.text := by
  induction pieces generalizing written with
  | nil => rfl
  | cons piece pieces ih =>
      rcases areCut with ⟨-, -, -, -, later⟩
      rw [List.foldr_cons, flatMap_join Token.separator Piece.separator rfl (fun _ => rfl),
        ih later, List.flatMap_cons]
      intro next next_mem touches
      have areWritten := areWritten_of_areCut later
      rw [List.eq_cons_of_mem_head? next_mem] at areWritten
      rw [areWritten.2.1, touches, separator_nil]

end Foldr

/-! ## What is written between tokens -/

/-- The reasons to write something in a gap. -/
theorem separator_ne_nil_iff {previous first : Char} {before text : Text} {gap : List Lexeme}
    {lexeme : Lexeme} (apart : gap ≠ []) (text_eq : lexeme.text = first :: text) :
    separator (previous :: before) gap lexeme ≠ [] ↔
      (gap.any Lexeme.breaksLine = true ∧ endsStatement previous = true ∧
          startsStatement first = true) ∨
        ((isWord previous = true ∨ [')', ':'] <+: previous :: before) ∧
          (isWord first = true ∨ lexeme.shape = .directive)) ∨
        (previous = first ∧ (first = '+' ∨ first = '-' ∨ first = '/')) ∨
        (first = '.' ∧ (lastWord (previous :: before)).head?.any Char.isDigit = true) := by
  have starts : Text.startsWith [')', ':'] (previous :: before) = true ↔
      [')', ':'] <+: previous :: before := by
    rw [Text.startsWith, Option.isSome_iff_exists]
    simp only [Text.after?_eq_some_iff]
    exact exists_congr fun rest => eq_comm
  have digit : ((lastWord (previous :: before)).head?.map Char.isDigit).getD false =
      (lastWord (previous :: before)).head?.any Char.isDigit := by
    cases (lastWord (previous :: before)).head? <;> rfl
  have gap_eq : gap.isEmpty = false := by simpa using apart
  rw [separator.eq_def, text_eq]
  dsimp only
  rw [gap_eq, digit, if_neg Bool.false_ne_true]
  simp only [Bool.and_eq_true, Bool.or_eq_true, decide_eq_true_eq, starts]
  split_ifs with breaks spaced
  · exact iff_of_true (by simp) (Or.inl ⟨breaks.1.1, breaks.1.2, breaks.2⟩)
  · refine iff_of_true (by simp) (Or.inr ?_)
    rcases spaced with (((words | ⟨rfl, rfl⟩) | ⟨rfl, rfl⟩) | ⟨rfl, rfl⟩) | fraction
    · exact Or.inl words
    · simp
    · simp
    · simp
    · exact Or.inr (Or.inr fraction)
  · refine iff_of_false (by simp) ?_
    rintro (⟨breaks', ends, starts⟩ | words | ⟨rfl, sign⟩ | fraction)
    · exact breaks ⟨⟨breaks', ends⟩, starts⟩
    · exact spaced (Or.inl (Or.inl (Or.inl (Or.inl words))))
    · rcases sign with rfl | rfl | rfl <;> simp at spaced
    · exact spaced (Or.inr fraction)

section Neighbours

variable {first second : Token} {before : Text}

theorem Token.IsFormed.head?_written (isFormed : first.IsFormed) (before : Text) :
    (first.text.reverse ++ before).head? = first.text.getLast? := by
  rw [List.head?_append_of_ne_nil _ (by simpa using isFormed.nonempty), List.head?_reverse]

theorem Token.IsFormed.lastWord_written (isFormed : first.IsFormed) (word : first.kind = .word)
    (stops : before.head?.any isWord = false) :
    lastWord (first.text.reverse ++ before) = first.text := by
  rw [lastWord_append_of_word (isFormed.word word), lastWord_eq_nil stops, List.nil_append]

theorem Token.IsFormed.isWordlike_iff {head : Char} (isFormed : second.IsFormed)
    (head_eq : second.text.head? = some head) :
    isWord head = true ∨ second.lexeme.shape = .directive ↔ second.IsWordlike := by
  have begins := isFormed.begins
  rw [head_eq, Option.any_some] at begins
  rw [begins, Token.IsWordlike, Token.lexeme]
  simp

/-- What ends a token that is like a word. -/
theorem Token.IsFormed.ends_of_isWordlike (isFormed : first.IsFormed)
    (wordlike : first.IsWordlike) {last : Char} {before' : Text}
    (written_eq : first.text.reverse ++ before = last :: before')
    (last_eq : first.text.getLast? = some last) :
    isWord last = true ∨ [')', ':'] <+: last :: before' := by
  rcases wordlike with word | directive
  · left
    have ends := isFormed.ends.mpr word
    rwa [last_eq] at ends
  · right
    rw [← written_eq]
    have closing := List.reverse_prefix.mpr (isFormed.directive directive).2
    exact closing.trans (List.prefix_append _ _)

theorem Token.IsFormed.not_isWordlike_of_slash (isFormed : first.IsFormed)
    (slash : first.text.getLast? = some '/') : ¬first.IsWordlike := by
  rintro (word | directive)
  · have ends := isFormed.ends.mpr word
    rw [slash] at ends
    exact absurd ends (by decide)
  · rcases (isFormed.directive directive).2 with ⟨body, text_eq⟩
    rw [← text_eq, List.getLast?_append_of_ne_nil _ (by simp)] at slash
    exact absurd slash (by decide)

/-- No slash, star, plus or minus begins a token that is like a word. -/
theorem Token.IsFormed.not_isWordlike_of_head {c : Char} (isFormed : second.IsFormed)
    (head_eq : second.text.head? = some c) (other : isWord c = false) (differs : c ≠ '(') :
    ¬second.IsWordlike := by
  rintro (word | directive)
  · have begins := isFormed.begins.mpr word
    rw [head_eq, Option.any_some, other] at begins
    cases begins
  · rw [(isFormed.directive directive).1] at head_eq
    exact differs (Option.some.inj head_eq).symm

/-- Behind a slash there is only one reason to keep apart what does not begin with a slash itself:
a line break where a statement may end and another begin. -/
theorem separator_ne_nil_iff_of_slash {before text : Text} {head : Char} {gap : List Lexeme}
    {lexeme : Lexeme} (apart : gap ≠ []) (text_eq : lexeme.text = head :: text)
    (differs : head ≠ '/') (point : head ≠ '.') :
    separator ('/' :: before) gap lexeme ≠ [] ↔
      gap.any Lexeme.breaksLine = true ∧ startsStatement head = true := by
  rw [separator_ne_nil_iff apart text_eq]
  constructor
  · rintro (⟨breaks, -, starts⟩ | ⟨word | ⟨rest, closing⟩, -⟩ | ⟨rfl, -⟩ | ⟨rfl, -⟩)
    · exact ⟨breaks, starts⟩
    · exact absurd word (by decide)
    · cases closing
    · exact absurd rfl differs
    · exact absurd rfl point
  · rintro ⟨breaks, starts⟩
    exact Or.inl ⟨breaks, by decide, starts⟩

/-- Only what ends in a slash is glued to what follows it. -/
theorem Token.IsFormed.not_isGlued (isFormed : first.IsFormed)
    (notSlash : first.text.getLast? ≠ some '/') : ¬IsGlued first second := by
  rintro (⟨regex, -, -⟩ | ⟨slash, -⟩)
  · exact notSlash (isFormed.regex regex)
  · exact notSlash slash

theorem Token.IsFormed.startsStatement_of_isWordlike {head : Char} (isFormed : second.IsFormed)
    (wordlike : second.IsWordlike) (head_eq : second.text.head? = some head) :
    startsStatement head = true := by
  rcases wordlike with word | directive
  · have begins := isFormed.begins.mpr word
    rw [head_eq, Option.any_some] at begins
    simp [startsStatement, begins]
  · rw [(isFormed.directive directive).1] at head_eq
    cases head_eq
    decide

/-- A word behind a regular expression literal is kept apart just if it stands on another line. -/
theorem separator_ne_nil_iff_of_flags {written text : Text} {head : Char}
    (isFormed' : second.IsFormed) (left : first.kind = .regex) (right : second.IsWordlike)
    (apart : second.gap ≠ []) (text_eq : second.text = head :: text) :
    separator ('/' :: written) second.gap second.lexeme ≠ [] ↔ ¬IsGlued first second := by
  have head_eq : second.text.head? = some head := by rw [text_eq]; rfl
  have notSign : ∀ c, isWord c = false → c ≠ '(' → head ≠ c := by
    rintro c other differs rfl
    exact isFormed'.not_isWordlike_of_head head_eq other differs right
  have notSlash := notSign '/' (by decide) (by decide)
  have notPoint := notSign '.' (by decide) (by decide)
  rw [separator_ne_nil_iff_of_slash apart text_eq notSlash notPoint]
  constructor
  · rintro ⟨breaks, -⟩ (⟨-, -, unbroken⟩ | ⟨-, star⟩)
    · rw [breaks] at unbroken
      cases unbroken
    · rw [head_eq] at star
      exact notSign '*' (by decide) (by decide) (Option.some.inj star)
  · intro notGlued
    refine ⟨?_, isFormed'.startsStatement_of_isWordlike right head_eq⟩
    by_contra unbroken
    exact notGlued (.flags left right (by simpa using unbroken))

/-- Of what would begin a comment behind a slash, a slash is kept apart and a star is not. -/
theorem separator_ne_nil_iff_of_comment {written text : Text} {head : Char}
    (isFormed' : second.IsFormed) (left : first.text.getLast? = some '/')
    (right : second.text.head? = some '/' ∨ second.text.head? = some '*')
    (apart : second.gap ≠ []) (text_eq : second.text = head :: text) :
    separator ('/' :: written) second.gap second.lexeme ≠ [] ↔ ¬IsGlued first second := by
  have head_eq : second.text.head? = some head := by rw [text_eq]; rfl
  rw [head_eq] at right
  rcases right with slash | star
  · cases slash
    apply iff_of_true
    · exact separator_ne_nil_of_signs apart (by simp) rfl head_eq
    · rintro (⟨-, wordlike, -⟩ | ⟨-, star⟩)
      · exact isFormed'.not_isWordlike_of_head head_eq (by decide) (by decide) wordlike
      · rw [head_eq] at star
        cases star
  · cases star
    refine iff_of_false ?_ (not_not_intro (.comment left head_eq))
    rw [separator_ne_nil_iff_of_slash apart text_eq (by decide) (by decide)]
    rintro ⟨-, starts⟩
    exact absurd starts (by decide)

theorem areKeptApart_of_separator (isFormed : first.IsFormed) (isFormed' : second.IsFormed)
    (stops : first.kind = .word → before.head?.any isWord = false)
    (separator_eq : second.separator =
      separator (first.text.reverse ++ before) second.gap second.lexeme) :
    AreKeptApart first second := by
  intro apart merges
  have chosen : second.separator = [' '] ∨ second.separator = ['\n'] ↔ second.separator ≠ [] := by
    rcases separator_cases (first.text.reverse ++ before) second.gap second.lexeme with
      none | space | feed
    · simp [separator_eq, none]
    · simp [separator_eq, space]
    · simp [separator_eq, feed]
  have last_eq := isFormed.head?_written before
  have lastWord_eq := @Token.IsFormed.lastWord_written first before isFormed
  rcases text_eq : second.text with _ | ⟨head, text⟩
  · exact absurd text_eq isFormed'.nonempty
  have head_eq : second.text.head? = some head := by rw [text_eq]; rfl
  rcases written_eq : first.text.reverse ++ before with _ | ⟨last, written⟩
  · exact absurd (List.append_eq_nil_iff.mp written_eq).1 (by simpa using isFormed.nonempty)
  rw [written_eq] at separator_eq lastWord_eq last_eq
  have reasons :=
    @separator_ne_nil_iff last head written text second.gap second.lexeme apart text_eq
  rw [chosen, separator_eq]
  cases merges with
  | words left right =>
      have ends := isFormed.ends_of_isWordlike left written_eq last_eq.symm
      have begins := (isFormed'.isWordlike_iff head_eq).mpr right
      refine iff_of_true (reasons.mpr (Or.inr (Or.inl ⟨ends, begins⟩))) (isFormed.not_isGlued ?_)
      exact fun slash => isFormed.not_isWordlike_of_slash slash left
  | flags left right =>
      rw [isFormed.regex left] at last_eq
      cases last_eq
      exact separator_ne_nil_iff_of_flags isFormed' left right apart text_eq
  | @signs c sign left right =>
      rw [left] at last_eq
      cases last_eq
      refine iff_of_true ?_ (isFormed.not_isGlued ?_)
      · exact separator_ne_nil_of_signs apart (sign.imp_right Or.inl) rfl right
      · rw [left]
        rcases sign with rfl | rfl <;> decide
  | comment left right =>
      rw [left] at last_eq
      cases last_eq
      exact separator_ne_nil_iff_of_comment isFormed' left right apart text_eq
  | fraction left digit right =>
      rw [head_eq] at right
      cases right
      rw [lastWord_eq left (stops left)] at reasons
      refine iff_of_true (reasons.mpr (Or.inr (Or.inr (Or.inr ⟨rfl, digit⟩)))) ?_
      apply isFormed.not_isGlued
      exact fun slash => isFormed.not_isWordlike_of_slash slash (Or.inl left)

/-- Before a word stands no character of a word. -/
theorem stops_of_separator (isFormed : first.IsFormed) (isFormed' : second.IsFormed)
    (areApart : AreApart first second)
    (separator_eq : second.separator =
      separator (first.text.reverse ++ before) second.gap second.lexeme)
    (word : second.kind = .word) :
    (second.separator.reverse ++ (first.text.reverse ++ before)).head?.any isWord = false := by
  rcases separator_cases (first.text.reverse ++ before) second.gap second.lexeme with
    none | space | feed
  · rw [separator_eq, none, List.reverse_nil, List.nil_append, isFormed.head?_written]
    by_contra ends
    rw [Bool.not_eq_false] at ends
    have touching := areApart (isFormed.ends.mp ends) word
    apply separator_ne_nil_of_words touching (Or.inl ?_) (Or.inl ?_) none
    · rwa [isFormed.head?_written]
    · exact isFormed'.begins.mpr word
  · rw [separator_eq, space]
    rfl
  · rw [separator_eq, feed]
    rfl

end Neighbours

theorem isChain_areKeptApart {written : Text} {tokens : List Token}
    (areWritten : AreWritten written tokens) (apart : tokens.IsChain AreApart)
    (stops : ∀ token ∈ tokens.head?, token.kind = .word →
      (token.separator.reverse ++ written).head?.any isWord = false) :
    tokens.IsChain AreKeptApart := by
  -- What stands before a token decides whether the text written last is all of it.
  induction tokens generalizing written with
  | nil => exact .nil
  | cons first tokens ih =>
      cases tokens with
      | nil => exact List.isChain_singleton _
      | cons second tokens =>
          rcases areWritten with ⟨isFormed, -, later⟩
          rcases List.isChain_cons.mp apart with ⟨areApart, apart'⟩
          refine List.isChain_cons.mpr ⟨?_, ih later apart' ?_⟩
          · intro next next_mem
            cases next_mem
            exact areKeptApart_of_separator isFormed later.1 (stops first rfl) later.2.1
          · intro next next_mem
            cases next_mem
            exact stops_of_separator isFormed later.1 (areApart second rfl) later.2.1

/-- A script that can be minified consists of tokens, and in the minified script two tokens that
had a gap between them are kept apart if they could be read as something else; only a word behind a
regular expression literal, on the same line, and a star behind a slash are not. -/
theorem separator_ne_nil_iff_of_minify {source minified : Text}
    (done : minify source = .ok minified) :
    ∃ segmentation : Segmentation, segment source = .ok segmentation ∧
      source = segmentation.joined.flatMap
          (fun token => token.gap.flatMap Lexeme.text ++ token.text) ++
        segmentation.trailing.flatMap Lexeme.text ∧
      minified = segmentation.joined.flatMap (fun token => token.separator ++ token.text) ∧
      segmentation.joined.IsChain AreApart ∧ segmentation.joined.IsChain AreKeptApart := by
  rcases exists_segment_of_minify done with ⟨segmentation, cut, rfl⟩
  rcases segment_eq_ok_iff.mp cut with ⟨rfl, areCut⟩
  refine ⟨segmentation, cut, ?_, (flatMap_separator_foldr areCut).symm, isChain_foldr_join,
    isChain_areKeptApart (areWritten_of_areCut areCut) isChain_foldr_join ?_⟩
  · rw [Segmentation.joined, flatMap_gap_foldr]
    rfl
  · intro first first_mem _
    have areWritten : AreWritten [] segmentation.joined := areWritten_of_areCut areCut
    rw [List.eq_cons_of_mem_head? first_mem] at areWritten
    rw [areWritten.2.1]
    rfl

theorem separator_ne_nil_iff_of_minify_sum :
    ∃ segmentation : Segmentation, segment "a + +b / /c d/g in e // f\n(1 .g)".toList =
        .ok segmentation ∧
      "a + +b / /c d/g in e // f\n(1 .g)".toList = segmentation.joined.flatMap
          (fun token => token.gap.flatMap Lexeme.text ++ token.text) ++
        segmentation.trailing.flatMap Lexeme.text ∧
      "a+ +b/ /c d/g in e\n(1 .g)".toList =
        segmentation.joined.flatMap (fun token => token.separator ++ token.text) ∧
      segmentation.joined.IsChain AreApart ∧ segmentation.joined.IsChain AreKeptApart :=
  separator_ne_nil_iff_of_minify (by decide +kernel)

/-- Behind a regular expression literal a word comes to stand where the flags would. -/
theorem regex_glued : ¬∀ (source : Text) (segmentation : Segmentation),
    segment source = .ok segmentation → segmentation.joined.IsChain fun first second =>
      second.gap ≠ [] → MergesWith first second →
        second.separator = [' '] ∨ second.separator = ['\n'] := by
  intro apart
  have joined_eq : (segment "/a/ in b".toList).map Segmentation.joined =
      .ok [⟨.regex, [], [], "/a/".toList⟩, ⟨.word, [⟨.space, [' ']⟩], [], "in".toList⟩,
        ⟨.word, [⟨.space, [' ']⟩], [' '], ['b']⟩] := by
    decide +kernel
  cases cut : segment "/a/ in b".toList with
  | error failure =>
      rw [cut] at joined_eq
      cases joined_eq
  | ok segmentation =>
      rw [cut] at joined_eq
      have chain := apart _ segmentation cut
      rw [Except.ok.inj joined_eq, List.isChain_cons_cons] at chain
      have separated := chain.1 (by simp) (.flags rfl (Or.inl rfl))
      simp at separated

end Pageweave.Script
