import Mathlib.Data.List.Basic
import Mathlib.Data.List.TakeWhile
import Pageweave.Proofs.Tags
import Pageweave.Script.Minify

/-!
# Cutting a script

A lexeme is recognised by its own characters, except that a slash is looked at together with the
code before it and with the character behind it, an opening parenthesis with what stands behind it,
and a line comment goes on to the end of its line. `Lexeme.Reads` says that a lexeme is recognised
between two texts, and `Lexeme.Reads.transfer` that it is recognised between others as well.

A script is cut into a list of lexemes just if each of them is recognised where it stands
(`segment_eq_ok_iff`).
-/

namespace Pageweave.Script

/-! ## Extents -/

/-- The extent of a construct at the start of a text is decided by the characters in it. -/
def IsExtent (extent : Nat → Text → Option Nat) (taken n : Nat) (text : Text) : Prop :=
  ∃ body rest, text = body ++ rest ∧ n = taken + body.length ∧
    ∀ rest', extent taken (body ++ rest') = some n

section IsExtent

variable {extent extent' : Nat → Text → Option Nat} {taken n : Nat} {text : Text}

theorem IsExtent.closed (front : Text)
    (closes : ∀ rest, extent taken (front ++ rest) = some (taken + front.length)) (rest : Text) :
    IsExtent extent taken (taken + front.length) (front ++ rest) :=
  ⟨front, rest, rfl, rfl, closes⟩

theorem IsExtent.append (front : Text) (isExtent : IsExtent extent' (taken + front.length) n text)
    (goesOn : ∀ rest, extent taken (front ++ rest) = extent' (taken + front.length) rest) :
    IsExtent extent taken n (front ++ text) := by
  rcases isExtent with ⟨body, rest, rfl, rfl, decided⟩
  refine ⟨front ++ body, rest, by simp, by simp; omega, fun rest' => ?_⟩
  rw [List.append_assoc, goesOn, decided]

theorem isExtent_stringExtent {quote : Char} (found : stringExtent quote taken text = some n) :
    IsExtent (stringExtent quote) taken n text := by
  fun_induction stringExtent quote taken text with
  | case1 => cases found
  | case2 => cases found
  | case3 taken d rest ih =>
      exact IsExtent.append ['\\', d] (ih found) fun _ => by simp [stringExtent.eq_def quote taken]
  | case4 => cases found
  | case5 taken rest =>
      cases found
      exact IsExtent.closed [quote] (fun _ => by simp [stringExtent.eq_def quote taken, *]) rest
  | case6 taken c rest _ _ _ ih =>
      exact IsExtent.append [c] (ih found) fun _ => by simp [stringExtent.eq_def quote taken, *]

theorem isExtent_templateExtent (found : templateExtent taken text = some n) :
    IsExtent templateExtent taken n text := by
  fun_induction templateExtent taken text with
  | case1 => cases found
  | case2 => cases found
  | case3 taken d rest ih =>
      exact IsExtent.append ['\\', d] (ih found) fun _ => by simp [templateExtent.eq_def taken]
  | case4 taken rest =>
      cases found
      exact IsExtent.closed ['\x60'] (fun _ => by simp [templateExtent.eq_def taken]) rest
  | case5 taken c rest _ _ ih =>
      exact IsExtent.append [c] (ih found) fun _ => by simp [templateExtent.eq_def taken, *]

theorem isExtent_regexExtent {inClass : Bool} (found : regexExtent inClass taken text = some n) :
    IsExtent (regexExtent inClass) taken n text := by
  fun_induction regexExtent inClass taken text with
  | case1 => cases found
  | case2 => cases found
  | case3 => cases found
  | case4 inClass taken d rest _ ih =>
      exact IsExtent.append ['\\', d] (ih found) fun _ => by simp [regexExtent.eq_def inClass taken]
  | case5 inClass taken rest _ _ ih =>
      exact IsExtent.append ['['] (ih found) fun _ => by simp [regexExtent.eq_def inClass taken]
  | case6 inClass taken rest _ _ _ ih =>
      exact IsExtent.append [']'] (ih found) fun _ => by simp [regexExtent.eq_def inClass taken]
  | case7 inClass taken c rest _ _ _ _ closes =>
      cases found
      exact IsExtent.closed [c] (fun _ => by simp [regexExtent.eq_def inClass taken, *]) rest
  | case8 inClass taken c rest _ _ _ _ _ ih =>
      exact IsExtent.append [c] (ih found) fun _ => by simp [regexExtent.eq_def inClass taken, *]

theorem isExtent_blockCommentExtent (found : blockCommentExtent taken text = some n) :
    IsExtent blockCommentExtent taken n text := by
  fun_induction blockCommentExtent taken text with
  | case1 => cases found
  | case2 taken c rest closes =>
      cases found
      rcases rest with _ | ⟨d, rest⟩
      · simp at closes
      · simp only [List.head?_cons, Bool.and_eq_true, decide_eq_true_eq, Option.some.injEq]
          at closes
        rcases closes with ⟨rfl, rfl⟩
        exact IsExtent.closed ['*', '/'] (fun _ => by simp [blockCommentExtent]) rest
  | case3 taken c rest goesOn ih =>
      rcases ih found with ⟨body, rest, rfl, rfl, decided⟩
      refine ⟨c :: body, rest, rfl, by simp; omega, fun rest' => ?_⟩
      -- The comment does not end with its first character, so the one behind it is decided as well.
      rcases body with _ | ⟨d, body⟩
      · have nothing := decided []
        simp [blockCommentExtent] at nothing
      · rw [List.cons_append, blockCommentExtent, if_neg (by simpa using goesOn), decided]

end IsExtent

/-- A directive is a tag that begins with the opening parenthesis. -/
theorem directiveExtent_eq (text : Text) : directiveExtent text =
    (Tag.atStart? ('(' :: text)).map fun found => found.1.length - 1 := by
  rw [directiveExtent.eq_def]
  split
  · next rest =>
      have left : rest.drop (rest.takeWhile fun c => c ≠ ':' && c ≠ ')').length =
          rest.dropWhile Tag.inBody := by
        have dropped := @List.drop_left _ (rest.takeWhile Tag.inBody) (rest.dropWhile Tag.inBody)
        rwa [List.takeWhile_append_dropWhile] at dropped
      dsimp only
      rw [left]
      split
      · next after closing =>
          have length_eq : (['(', ':'] ++ rest.takeWhile Tag.inBody ++ [':', ')']).length - 1 =
              (rest.takeWhile Tag.inBody).length + 3 := by
            simp
          rw [Tag.atStart?_of_closing closing, Option.map_some]
          exact congrArg some length_eq.symm
      · next notClosed =>
          rcases found : Tag.atStart? ('(' :: ':' :: rest) with _ | ⟨tag, after⟩
          · rfl
          · exact absurd (Tag.closing_of_atStart? found) (notClosed after)
  · next notColon =>
      have absent : Tag.atStart? ('(' :: text) = none := by
        apply Tag.atStart?_eq_none
        rintro ⟨rest, same⟩
        exact notColon rest (List.cons.inj same).2.symm
      rw [absent]
      rfl

theorem directiveExtent_of_isTag {body : Text} (isTag : IsTag ('(' :: body)) (rest : Text) :
    directiveExtent (body ++ rest) = some body.length := by
  rw [directiveExtent_eq, ← List.cons_append, Tag.atStart?_append isTag]
  rfl

theorem isTag_of_directiveExtent {body rest : Text}
    (extent : directiveExtent (body ++ rest) = some body.length) : IsTag ('(' :: body) := by
  rw [directiveExtent_eq] at extent
  rcases Option.map_eq_some_iff.mp extent with ⟨⟨tag, after⟩, found, length_eq⟩
  have isTag := Tag.isTag_of_atStart? found
  have same := Tag.append_of_atStart? found
  rcases tag with _ | ⟨c, tag⟩
  · exact absurd rfl (Tag.ne_nil isTag)
  · rcases List.cons.inj same with ⟨rfl, tail_eq⟩
    rwa [(List.append_inj tail_eq length_eq.symm).1]

/-! ## Reading a lexeme -/

/-- A character of code that is a token wherever it stands. -/
def isOrdinary (c : Char) : Bool :=
  !Pageweave.isBlank c && !(['\x27', '\x22', '\x60', '(', '/'].contains c)

/-- The lexemes that can begin with a character when a text follows it. -/
inductive Measures (written : Text) : Char → Text → Shape → Nat → Prop
  | space {c : Char} {rest : Text} (blank : Pageweave.isBlank c = true) :
      Measures written c rest .space 0
  | lineComment {rest : Text} :
      Measures written '/' ('/' :: rest) .lineComment (('/' :: rest).takeWhile (· ≠ '\n')).length
  | blockComment {rest : Text} {n : Nat} (extent : blockCommentExtent 1 rest = some n) :
      Measures written '/' ('*' :: rest) .blockComment n
  | string {c : Char} {rest : Text} {n : Nat} (quote : c = '\x27' ∨ c = '\x22')
      (extent : stringExtent c 0 rest = some n) : Measures written c rest .string n
  | template {rest : Text} {n : Nat} (extent : templateExtent 0 rest = some n) :
      Measures written '\x60' rest .template n
  | directive {rest : Text} {n : Nat} (extent : directiveExtent rest = some n) :
      Measures written '(' rest .directive n
  | regex {rest : Text} {n : Nat} (apart : rest.head? ≠ some '/' ∧ rest.head? ≠ some '*')
      (allowed : regexAllowed written = true) (extent : regexExtent false 0 rest = some n) :
      Measures written '/' rest .regex n
  | ordinary {c : Char} {rest : Text} (plain : isOrdinary c = true) :
      Measures written c rest .code 0
  | parenthesis {rest : Text} (extent : directiveExtent rest = none) :
      Measures written '(' rest .code 0
  | division {rest : Text} (apart : rest.head? ≠ some '/' ∧ rest.head? ≠ some '*')
      (refused : regexAllowed written = false) : Measures written '/' rest .code 0

theorem closed_eq_ok_iff {construct : Construct} {shape shape' : Shape} {extent : Option Nat}
    {n : Nat} :
    Lexeme.measure.closed construct shape extent = .ok (shape', n) ↔
      shape' = shape ∧ extent = some n := by
  cases extent with
  | none => simp [Lexeme.measure.closed]
  | some m => simp [Lexeme.measure.closed, eq_comm]

theorem Measures.of_measure {written rest : Text} {c : Char} {shape : Shape} {n : Nat}
    (measured : Lexeme.measure written c rest = .ok (shape, n)) :
    Measures written c rest shape n := by
  unfold Lexeme.measure at measured
  split_ifs at measured with blank line block quote backtick parenthesis slash
  · cases measured
    exact .space blank
  · cases measured
    simp only [Bool.and_eq_true, decide_eq_true_eq] at line
    rcases line with ⟨rfl, head⟩
    rcases List.head?_eq_some_iff.mp head with ⟨rest, rfl⟩
    exact .lineComment
  · rcases closed_eq_ok_iff.mp measured with ⟨rfl, extent⟩
    simp only [Bool.and_eq_true, decide_eq_true_eq] at block
    rcases block with ⟨rfl, head⟩
    rcases List.head?_eq_some_iff.mp head with ⟨rest, rfl⟩
    exact .blockComment extent
  · rcases closed_eq_ok_iff.mp measured with ⟨rfl, extent⟩
    exact .string (by simpa using quote) extent
  · rcases closed_eq_ok_iff.mp measured with ⟨rfl, extent⟩
    subst backtick
    exact .template extent
  · subst parenthesis
    split at measured
    · next extent =>
        cases measured
        exact .directive extent
    · next extent =>
        cases measured
        exact .parenthesis extent
  · rcases closed_eq_ok_iff.mp measured with ⟨rfl, extent⟩
    simp only [Bool.and_eq_true, decide_eq_true_eq] at slash
    rcases slash with ⟨rfl, allowed⟩
    exact .regex (by simpa using And.intro line block) allowed extent
  · cases measured
    by_cases slash' : c = '/'
    · subst slash'
      exact .division (by simpa using And.intro line block) (by simpa using slash)
    · apply Measures.ordinary
      simp only [Bool.or_eq_true, decide_eq_true_eq, not_or] at quote
      simp [isOrdinary, blank, quote.1, quote.2, backtick, parenthesis, slash']

theorem measure_of_measures {written rest : Text} {c : Char} {shape : Shape} {n : Nat}
    (measures : Measures written c rest shape n) :
    Lexeme.measure written c rest = .ok (shape, n) := by
  cases measures with
  | space blank => simp [Lexeme.measure, blank]
  | lineComment => rfl
  | blockComment extent => exact closed_eq_ok_iff.mpr ⟨rfl, extent⟩
  | string quote extent =>
      rcases quote with rfl | rfl <;> exact closed_eq_ok_iff.mpr ⟨rfl, extent⟩
  | template extent => exact closed_eq_ok_iff.mpr ⟨rfl, extent⟩
  | directive extent =>
      have dark : Pageweave.isBlank '(' = false := by decide
      simp [Lexeme.measure, dark, extent]
  | regex apart allowed extent =>
      have dark : Pageweave.isBlank '/' = false := by decide
      simp [Lexeme.measure, dark, apart, allowed, extent, Lexeme.measure.closed]
  | ordinary plain =>
      simp only [isOrdinary, Bool.and_eq_true, Bool.not_eq_true', List.contains_eq_mem,
        List.mem_cons, List.not_mem_nil, decide_eq_false_iff_not, or_false, not_or] at plain
      simp [Lexeme.measure, plain]
  | parenthesis extent =>
      have dark : Pageweave.isBlank '(' = false := by decide
      simp [Lexeme.measure, dark, extent]
  | division apart refused =>
      have dark : Pageweave.isBlank '/' = false := by decide
      simp [Lexeme.measure, dark, apart, refused]

theorem measure_eq_ok_iff {written rest : Text} {c : Char} {shape : Shape} {n : Nat} :
    Lexeme.measure written c rest = .ok (shape, n) ↔ Measures written c rest shape n :=
  ⟨Measures.of_measure, measure_of_measures⟩

/-- A lexeme is recognised behind the text written so far and before a text. -/
def Lexeme.Reads (lexeme : Lexeme) (written rest : Text) : Prop :=
  ∃ c body, lexeme.text = c :: body ∧
    Measures written c (body ++ rest) lexeme.shape body.length

theorem IsExtent.le_length {extent : Nat → Text → Option Nat} {taken n : Nat} {text : Text}
    (isExtent : IsExtent extent taken n text) : n ≤ taken + text.length := by
  rcases isExtent with ⟨body, rest, rfl, rfl, -⟩
  simp

theorem Measures.le_length {written rest : Text} {c : Char} {shape : Shape} {n : Nat}
    (measures : Measures written c rest shape n) : n ≤ rest.length := by
  cases measures with
  | space | ordinary | parenthesis | division => exact Nat.zero_le _
  | lineComment => exact (List.takeWhile_prefix _).length_le
  | blockComment extent => simpa [Nat.add_comm] using (isExtent_blockCommentExtent extent).le_length
  | string quote extent => simpa using (isExtent_stringExtent extent).le_length
  | template extent => simpa using (isExtent_templateExtent extent).le_length
  | directive extent =>
      rw [directiveExtent_eq] at extent
      rcases Option.map_eq_some_iff.mp extent with ⟨⟨tag, after⟩, found, rfl⟩
      have length_eq := congrArg List.length (Tag.append_of_atStart? found)
      simp at length_eq ⊢
      omega
  | regex apart allowed extent => simpa using (isExtent_regexExtent extent).le_length

/-- The rest of a construct is its own, whatever follows it. -/
theorem IsExtent.body_eq {extent : Nat → Text → Option Nat} {n : Nat} {body rest : Text}
    {taken : Nat} (isExtent : IsExtent extent taken n (body ++ rest))
    (length_eq : n = taken + body.length) (rest' : Text) :
    extent taken (body ++ rest') = some n := by
  rcases isExtent with ⟨body', rest'', same, length_eq', decided⟩
  have body_eq : body = body' := by
    apply (List.append_inj same ?_).1
    omega
  rw [body_eq]
  exact decided rest'

section Reads

variable {lexeme : Lexeme} {written written' rest rest' : Text}

theorem head?_append_of_ne_nil {body : Text} (nonempty : body ≠ []) (rest rest' : Text) :
    (body ++ rest').head? = (body ++ rest).head? := by
  cases body with
  | nil => exact absurd rfl nonempty
  | cons c body => rfl

/-- A line comment is recognised before the end of its line. -/
theorem measures_lineComment {body : Text} (slash : body.head? = some '/')
    (unbroken : ∀ d ∈ body, decide (d ≠ '\n') = true)
    (ends : rest = [] ∨ rest.head? = some '\n') :
    Measures written '/' (body ++ rest) .lineComment body.length := by
  have taken : (body ++ rest).takeWhile (· ≠ '\n') = body := by
    rw [List.takeWhile_append_of_pos unbroken]
    rcases ends with rfl | broken
    · simp
    · rcases List.head?_eq_some_iff.mp broken with ⟨rest, rfl⟩
      simp
  rcases List.head?_eq_some_iff.mp slash with ⟨body, rfl⟩
  have measures := @Measures.lineComment written (body ++ rest)
  rwa [← List.cons_append, taken] at measures

/-- A lexeme that is recognised in one place is recognised in another if a slash is taken there in
the same way and what follows does not change the meaning of a single character. -/
theorem Lexeme.Reads.transfer (reads : lexeme.Reads written rest)
    (allowed : lexeme.shape.isBlank = false → lexeme.text.head? = some '/' →
      regexAllowed written' = regexAllowed written)
    (line : lexeme.shape = .lineComment → rest' = [] ∨ rest'.head? = some '\n')
    (slash : lexeme.shape = .code → lexeme.text = ['/'] →
      rest'.head? ≠ some '/' ∧ rest'.head? ≠ some '*')
    (parenthesis : lexeme.shape = .code → lexeme.text = ['('] → directiveExtent rest' = none) :
    lexeme.Reads written' rest' := by
  rcases lexeme with ⟨shape, text⟩
  rcases reads with ⟨c, body, rfl, measures⟩
  refine ⟨c, body, rfl, ?_⟩
  dsimp only at measures ⊢
  generalize following_eq : body ++ rest = following at measures
  generalize length_eq : body.length = n at measures
  cases measures with
  | space blank => exact .space blank
  | @lineComment following =>
      have body_eq : body = ('/' :: following).takeWhile (· ≠ '\n') := by
        have front : body <+: '/' :: following := ⟨rest, following_eq⟩
        exact (List.prefix_of_prefix_length_le front (List.takeWhile_prefix _)
          length_eq.le).eq_of_length length_eq
      rw [← length_eq]
      apply measures_lineComment _ _ (line rfl)
      · rw [body_eq, List.takeWhile_cons_of_pos (by decide)]
        rfl
      · intro d d_mem
        rw [body_eq] at d_mem
        exact @List.mem_takeWhile_imp _ (fun d => decide (d ≠ '\n')) _ _ d_mem
  | @blockComment following n extent =>
      subst length_eq
      rcases body with _ | ⟨d, body⟩
      · rcases isExtent_blockCommentExtent extent with ⟨_, _, -, length_eq, -⟩
        rw [List.length_nil] at length_eq
        omega
      · rcases List.cons.inj following_eq with ⟨rfl, rfl⟩
        exact .blockComment ((isExtent_blockCommentExtent extent).body_eq (by simp; omega) rest')
  | string quote extent =>
      subst following_eq length_eq
      exact .string quote ((isExtent_stringExtent extent).body_eq (by simp) rest')
  | template extent =>
      subst following_eq length_eq
      exact .template ((isExtent_templateExtent extent).body_eq (by simp) rest')
  | directive extent =>
      subst following_eq length_eq
      exact .directive (directiveExtent_of_isTag (isTag_of_directiveExtent extent) rest')
  | regex apart permitted extent =>
      subst following_eq length_eq
      have isExtent := isExtent_regexExtent extent
      have nonempty : body ≠ [] := by
        rintro rfl
        have nothing := isExtent.body_eq (by simp) []
        simp [regexExtent] at nothing
      rw [← head?_append_of_ne_nil nonempty rest rest'] at apart
      exact .regex apart ((allowed rfl rfl).trans permitted) (isExtent.body_eq (by simp) rest')
  | ordinary plain => exact .ordinary plain
  | parenthesis extent =>
      rw [List.length_eq_zero_iff.mp length_eq, List.nil_append]
      exact .parenthesis (parenthesis rfl (by rw [List.length_eq_zero_iff.mp length_eq]))
  | division apart refused =>
      rw [List.length_eq_zero_iff.mp length_eq, List.nil_append]
      apply Measures.division _ ((allowed rfl rfl).trans refused)
      exact slash rfl (by rw [List.length_eq_zero_iff.mp length_eq])

theorem Lexeme.Reads.ne_nil (reads : lexeme.Reads written rest) : lexeme.text ≠ [] := by
  rcases reads with ⟨c, body, text_eq, -⟩
  simp [text_eq]

/-- A line comment goes on to the end of its line. -/
theorem Lexeme.Reads.line_ends (reads : lexeme.Reads written rest)
    (line : lexeme.shape = .lineComment) : rest = [] ∨ rest.head? = some '\n' := by
  rcases lexeme with ⟨shape, text⟩
  rcases reads with ⟨c, body, rfl, measures⟩
  dsimp only at measures line
  subst line
  generalize following_eq : body ++ rest = following at measures
  generalize length_eq : body.length = n at measures
  cases measures with
  | @lineComment following =>
      have left : rest = ('/' :: following).dropWhile (· ≠ '\n') := by
        have whole := List.takeWhile_append_dropWhile (p := (· ≠ '\n')) (l := '/' :: following)
        rw [← following_eq] at whole length_eq ⊢
        exact (List.append_inj whole.symm length_eq).2
      rcases rest with _ | ⟨d, rest⟩
      · exact Or.inl rfl
      · have stops :=
          List.head?_dropWhile_not (fun c : Char => decide (c ≠ '\n')) ('/' :: following)
        rw [← left] at stops
        simpa using stops

/-- A token begins with a character that is not blank. -/
theorem Lexeme.Reads.isBlank_head? (reads : lexeme.Reads written rest)
    (token : lexeme.shape.isBlank = false) {c : Char} (head : lexeme.text.head? = some c) :
    Pageweave.isBlank c = false := by
  rcases lexeme with ⟨shape, text⟩
  rcases reads with ⟨d, body, rfl, measures⟩
  obtain rfl : d = c := by simpa using head
  dsimp only at measures token
  generalize body ++ rest = following at measures
  generalize body.length = n at measures
  cases measures with
  | space | lineComment | blockComment => cases token
  | string quote extent => rcases quote with rfl | rfl <;> decide
  | template | directive | regex | parenthesis | division => decide
  | ordinary plain =>
      rw [isOrdinary, Bool.and_eq_true] at plain
      simpa using plain.1

/-- A directive is a tag. -/
theorem Lexeme.Reads.isTag (reads : lexeme.Reads written rest)
    (directive : lexeme.shape = .directive) : IsTag lexeme.text := by
  rcases lexeme with ⟨shape, text⟩
  rcases reads with ⟨c, body, rfl, measures⟩
  dsimp only at measures directive
  subst directive
  generalize following_eq : body ++ rest = following at measures
  generalize length_eq : body.length = n at measures
  cases measures with
  | directive extent =>
      subst following_eq length_eq
      exact isTag_of_directiveExtent extent

/-- A slash that is a division has no second slash and no star behind it. -/
theorem Lexeme.Reads.apart_of_slash (reads : lexeme.Reads written rest)
    (code : lexeme.shape = .code) (slash : lexeme.text = ['/']) :
    rest.head? ≠ some '/' ∧ rest.head? ≠ some '*' := by
  rcases lexeme with ⟨shape, text⟩
  rcases reads with ⟨c, body, text_eq, measures⟩
  dsimp only at measures code text_eq slash
  rw [slash] at text_eq
  cases text_eq
  subst code
  cases measures with
  | ordinary plain => exact absurd plain (by decide)
  | division apart => exact apart

end Reads

/-! ## Reading a script -/

/-- Lexemes are recognised one after the other before a text, given how far a script was cut. -/
def ReadsAll : Progress → List Lexeme → Text → Prop
  | _, [], _ => True
  | progress, lexeme :: lexemes, rest =>
      lexeme.Reads progress.written (lexemes.flatMap Lexeme.text ++ rest) ∧
        ReadsAll (progress.add lexeme) lexemes rest

theorem readsAll_append {progress : Progress} {first second : List Lexeme} {rest : Text} :
    ReadsAll progress (first ++ second) rest ↔
      ReadsAll progress first (second.flatMap Lexeme.text ++ rest) ∧
        ReadsAll (first.foldl Progress.add progress) second rest := by
  induction first generalizing progress with
  | nil => simp [ReadsAll]
  | cons lexeme first ih => simp [ReadsAll, ih, and_assoc]

/-- The segmentation of what has been cut. -/
def Progress.finish (progress : Progress) : Segmentation :=
  ⟨progress.pieces.reverse, progress.gap.reverse⟩

theorem segmentFrom_of_readsAll {progress : Progress} {lexemes : List Lexeme}
    (reads : ReadsAll progress lexemes []) :
    segmentFrom progress (lexemes.flatMap Lexeme.text) =
      .ok (lexemes.foldl Progress.add progress).finish := by
  induction lexemes generalizing progress with
  | nil => rw [List.flatMap_nil, segmentFrom.eq_def]; rfl
  | cons lexeme lexemes ih =>
      rcases lexeme with ⟨shape, text⟩
      rcases reads with ⟨⟨c, body, rfl, measures⟩, later⟩
      rw [List.append_nil] at measures
      rw [List.flatMap_cons, List.cons_append, segmentFrom.eq_def]
      dsimp only
      rw [measure_eq_ok_iff.mpr measures]
      dsimp only
      rw [List.take_left, List.drop_left]
      exact ih later

theorem exists_of_segmentFrom {progress : Progress} {text : Text} {segmentation : Segmentation}
    (cut : segmentFrom progress text = .ok segmentation) :
    ∃ lexemes, text = lexemes.flatMap Lexeme.text ∧ ReadsAll progress lexemes [] ∧
      segmentation = (lexemes.foldl Progress.add progress).finish := by
  fun_induction segmentFrom progress text with
  | case1 progress =>
      cases cut
      exact ⟨[], rfl, trivial, rfl⟩
  | case2 => cases cut
  | case3 progress c rest shape extent measured ih =>
      rcases ih cut with ⟨lexemes, rest_eq, reads, segmentation_eq⟩
      refine ⟨⟨shape, c :: rest.take extent⟩ :: lexemes, ?_, ⟨?_, reads⟩, segmentation_eq⟩
      · rw [List.flatMap_cons, ← rest_eq]
        simp
      · have within := (measure_eq_ok_iff.mp measured).le_length
        refine ⟨c, rest.take extent, rfl, ?_⟩
        rw [List.append_nil, ← rest_eq, List.take_append_drop, List.length_take_of_le within]
        exact measure_eq_ok_iff.mp measured

/-! ## Pieces -/

/-- Blank lexemes are recognised one after the other behind the text written so far and before a
text. -/
def ReadsGap (written : Text) : List Lexeme → Text → Prop
  | [], _ => True
  | lexeme :: gap, rest =>
      lexeme.shape.isBlank = true ∧ lexeme.Reads written (gap.flatMap Lexeme.text ++ rest) ∧
        ReadsGap written gap rest

/-- Each piece is recognised where it stands behind the text written so far, and has the separator
that is written there. -/
def AreCut : (written : Text) → List Piece → (trailing : List Lexeme) → Prop
  | written, [], trailing => ReadsGap written trailing []
  | written, piece :: pieces, trailing =>
      ReadsGap written piece.gap (piece.token.text ++ Segmentation.source ⟨pieces, trailing⟩) ∧
        piece.token.shape.isBlank = false ∧
        piece.token.Reads written (Segmentation.source ⟨pieces, trailing⟩) ∧
        piece.separator = separator written piece.gap piece.token ∧
        AreCut (piece.token.text.reverse ++ (piece.separator.reverse ++ written)) pieces trailing

theorem source_cons (piece : Piece) (pieces : List Piece) (trailing : List Lexeme) :
    Segmentation.source ⟨piece :: pieces, trailing⟩ =
      piece.gap.flatMap Lexeme.text ++
        (piece.token.text ++ Segmentation.source ⟨pieces, trailing⟩) := by
  simp [Segmentation.source]

theorem separator_reverse (written : Text) (gap : List Lexeme) (next : Lexeme) :
    separator written gap.reverse next = separator written gap next := by
  simp [separator]

section Progress

variable {progress : Progress} {gap : List Lexeme} {lexeme : Lexeme} {rest : Text}

theorem add_of_blank (blank : lexeme.shape.isBlank = true) :
    (progress.add lexeme).written = progress.written ∧
      (progress.add lexeme).gap = lexeme :: progress.gap ∧
      (progress.add lexeme).pieces = progress.pieces := by
  simp [Progress.add, blank]

theorem add_of_token (token : lexeme.shape.isBlank = false) :
    (progress.add lexeme).written = lexeme.text.reverse ++
        ((separator progress.written progress.gap lexeme).reverse ++ progress.written) ∧
      (progress.add lexeme).gap = [] ∧
      (progress.add lexeme).pieces = ⟨progress.gap.reverse,
        separator progress.written progress.gap lexeme, lexeme⟩ :: progress.pieces := by
  simp [Progress.add, token]

theorem foldl_add_of_blank (blank : ∀ lexeme ∈ gap, lexeme.shape.isBlank = true) :
    (gap.foldl Progress.add progress).written = progress.written ∧
      (gap.foldl Progress.add progress).gap = gap.reverse ++ progress.gap ∧
      (gap.foldl Progress.add progress).pieces = progress.pieces := by
  induction gap generalizing progress with
  | nil => simp
  | cons lexeme gap ih =>
      rcases List.forall_mem_cons.mp blank with ⟨here, blank'⟩
      rcases @add_of_blank progress lexeme here with ⟨written_eq, gap_eq, pieces_eq⟩
      rcases @ih (progress.add lexeme) blank' with ⟨written_eq', gap_eq', pieces_eq'⟩
      refine ⟨written_eq'.trans written_eq, ?_, pieces_eq'.trans pieces_eq⟩
      rw [List.foldl_cons, gap_eq', gap_eq]
      simp

theorem readsGap_iff : ReadsGap progress.written gap rest ↔
    (∀ lexeme ∈ gap, lexeme.shape.isBlank = true) ∧ ReadsAll progress gap rest := by
  induction gap generalizing progress with
  | nil => simp [ReadsGap, ReadsAll]
  | cons lexeme gap ih =>
      rw [ReadsGap, ReadsAll, List.forall_mem_cons]
      constructor
      · rintro ⟨blank, reads, later⟩
        rw [← (@add_of_blank progress lexeme blank).1, ih] at later
        exact ⟨⟨blank, later.1⟩, reads, later.2⟩
      · rintro ⟨⟨blank, blank'⟩, reads, later⟩
        have gap_reads := ih.mpr ⟨blank', later⟩
        rw [(@add_of_blank progress lexeme blank).1] at gap_reads
        exact ⟨blank, reads, gap_reads⟩

end Progress

/-- The lexemes of a script. -/
def Segmentation.lexemes (segmentation : Segmentation) : List Lexeme :=
  segmentation.pieces.flatMap (fun piece => piece.gap ++ [piece.token]) ++ segmentation.trailing

theorem flatMap_lexemes (segmentation : Segmentation) :
    segmentation.lexemes.flatMap Lexeme.text = segmentation.source := by
  simp [Segmentation.lexemes, Segmentation.source, List.flatMap_assoc]

theorem readsAll_of_areCut {progress : Progress} {pieces : List Piece} {trailing : List Lexeme}
    (fresh : progress.gap = []) (areCut : AreCut progress.written pieces trailing) :
    ReadsAll progress (Segmentation.lexemes ⟨pieces, trailing⟩) [] ∧
      ((Segmentation.lexemes ⟨pieces, trailing⟩).foldl Progress.add progress).finish =
        ⟨progress.pieces.reverse ++ pieces, trailing⟩ := by
  induction pieces generalizing progress with
  | nil =>
      rcases readsGap_iff.mp areCut with ⟨blank, reads⟩
      rcases @foldl_add_of_blank progress trailing blank with ⟨-, gap_eq, pieces_eq⟩
      refine ⟨reads, ?_⟩
      change (trailing.foldl Progress.add progress).finish = _
      rw [Progress.finish, gap_eq, pieces_eq, fresh]
      simp
  | cons piece pieces ih =>
      rcases areCut with ⟨gapReads, token, reads, separator_eq, later⟩
      rcases readsGap_iff.mp gapReads with ⟨blank, readsAll⟩
      rcases @foldl_add_of_blank progress piece.gap blank with ⟨written_eq, gap_eq, pieces_eq⟩
      rw [fresh, List.append_nil] at gap_eq
      generalize before_eq : piece.gap.foldl Progress.add progress = before at *
      rcases @add_of_token before piece.token token with ⟨written_eq', gap_eq', pieces_eq'⟩
      rw [written_eq, gap_eq, separator_reverse, ← separator_eq] at written_eq' pieces_eq'
      rw [← written_eq'] at later
      rcases ih gap_eq' later with ⟨readsAll', finish_eq⟩
      have lexemes_eq : Segmentation.lexemes ⟨piece :: pieces, trailing⟩ =
          piece.gap ++ (piece.token :: Segmentation.lexemes ⟨pieces, trailing⟩) := by
        simp [Segmentation.lexemes]
      rw [lexemes_eq, readsAll_append, List.foldl_append, before_eq, List.foldl_cons, finish_eq,
        List.flatMap_cons, flatMap_lexemes, List.append_nil]
      refine ⟨⟨readsAll, ?_, readsAll'⟩, ?_⟩
      · rwa [written_eq, flatMap_lexemes, List.append_nil]
      · rw [pieces_eq', pieces_eq]
        simp

/-- Lexemes that are recognised one after the other make up pieces. -/
theorem exists_areCut_of_readsAll {progress : Progress} {lexemes : List Lexeme}
    (fresh : progress.gap = []) (reads : ReadsAll progress lexemes []) :
    ∃ pieces trailing, lexemes = Segmentation.lexemes ⟨pieces, trailing⟩ ∧
      AreCut progress.written pieces trailing := by
  have split := List.takeWhile_append_dropWhile
    (p := fun lexeme : Lexeme => lexeme.shape.isBlank)
    (l := lexemes)
  have blank : ∀ lexeme ∈ lexemes.takeWhile fun lexeme => lexeme.shape.isBlank,
      lexeme.shape.isBlank = true :=
    fun lexeme lexeme_mem =>
      @List.mem_takeWhile_imp _ (fun lexeme : Lexeme => lexeme.shape.isBlank) _ _ lexeme_mem
  generalize lexemes.takeWhile (fun lexeme => lexeme.shape.isBlank) = gap at split blank
  rcases rest_eq : lexemes.dropWhile fun lexeme => lexeme.shape.isBlank with _ | ⟨token, rest⟩
  · rw [rest_eq, List.append_nil] at split
    subst split
    exact ⟨[], gap, rfl, readsGap_iff.mpr ⟨blank, reads⟩⟩
  · have dark : token.shape.isBlank = false := by
      have head := List.head?_dropWhile_not (fun lexeme : Lexeme => lexeme.shape.isBlank) lexemes
      rw [rest_eq] at head
      simpa using head
    rw [rest_eq] at split
    have shorter : rest.length < lexemes.length := by
      rw [← split]
      simp
      omega
    rw [← split, readsAll_append] at reads
    rcases reads with ⟨gapReads, tokenReads, later⟩
    rcases @foldl_add_of_blank progress gap blank with ⟨written_eq, gap_eq, -⟩
    generalize gap.foldl Progress.add progress = before at *
    rcases @add_of_token before token dark with ⟨written_eq', gap_eq', -⟩
    rcases exists_areCut_of_readsAll gap_eq' later with ⟨pieces, trailing, rfl, areCut⟩
    rw [flatMap_lexemes, List.append_nil] at tokenReads
    rw [List.append_nil, List.flatMap_cons, flatMap_lexemes] at gapReads
    refine ⟨⟨gap, separator progress.written gap token, token⟩ :: pieces, trailing, ?_, ?_⟩
    · rw [← split]
      simp [Segmentation.lexemes]
    · rw [written_eq', written_eq, gap_eq, fresh, List.append_nil, separator_reverse] at areCut
      refine ⟨readsGap_iff.mpr ⟨blank, gapReads⟩, dark, ?_, rfl, areCut⟩
      rwa [written_eq] at tokenReads
termination_by lexemes.length

/-- A script is cut into pieces just if each of them is recognised where it stands. -/
theorem segment_eq_ok_iff {source : Text} {segmentation : Segmentation} :
    segment source = .ok segmentation ↔
      source = segmentation.source ∧ AreCut [] segmentation.pieces segmentation.trailing := by
  constructor
  · intro cut
    rcases exists_of_segmentFrom cut with ⟨lexemes, rfl, reads, rfl⟩
    rcases exists_areCut_of_readsAll rfl reads with ⟨pieces, trailing, rfl, areCut⟩
    rw [(@readsAll_of_areCut {} _ _ rfl areCut).2]
    exact ⟨flatMap_lexemes _, areCut⟩
  · rintro ⟨rfl, areCut⟩
    rcases @readsAll_of_areCut {} _ _ rfl areCut with ⟨reads, finish_eq⟩
    rw [segment, ← flatMap_lexemes, segmentFrom_of_readsAll reads, finish_eq]
    rfl

end Pageweave.Script
