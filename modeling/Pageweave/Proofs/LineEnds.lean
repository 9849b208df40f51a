import Mathlib.Data.List.Infix
import Pageweave.Proofs.Minified

/-!
# Line ends of scripts

A script with a carriage return before each line feed is minified to the same text as the script
without them, or fails in the same way (`minify_rebreak`), unless a literal or directive goes on
over the end of a line.

The two scripts are cut in step, but not into the same lexemes: the carriage return belongs to the
line comment before it, if there is one, and is a lexeme by itself otherwise. What is kept from step
to step is that the two cuts have come equally far (`Progress.Alike`), and the one who goes on from
there does not see the difference (`Progress.Alike.minifyFrom_eq`).
-/

namespace Pageweave.Script

/-! ## Cutting on -/

/-- No lexeme can be cut off: nothing is left, or a construct has no end. -/
def IsStuck (written rest : Text) : Prop :=
  ∀ c tail, rest = c :: tail → ∃ construct, Lexeme.measure written c tail = .error construct

/-- A lexeme that is recognised before cutting comes to the end of the script or to a construct
without an end. -/
def IsCompleted (source : Text) (lexeme : Lexeme) : Prop :=
  ∃ before rest, source = before.flatMap Lexeme.text ++ (lexeme.text ++ rest) ∧
    ReadsAll {} (before ++ [lexeme]) rest

/-- What minifying comes to, given how far the script has been cut. -/
def minifyFrom (progress : Progress) (source : Text) : Except Unterminated Text :=
  (segmentFrom progress source).map Segmentation.minified

section Cutting

variable {progress : Progress} {lexeme : Lexeme} {lexemes : List Lexeme} {rest : Text}

theorem segmentFrom_append_of_reads (reads : lexeme.Reads progress.written rest) :
    segmentFrom progress (lexeme.text ++ rest) = segmentFrom (progress.add lexeme) rest := by
  rcases lexeme with ⟨shape, text⟩
  rcases reads with ⟨c, body, rfl, measures⟩
  rw [List.cons_append, segmentFrom.eq_def]
  simp [measure_eq_ok_iff.mpr measures]

theorem minifyFrom_append_of_reads (reads : lexeme.Reads progress.written rest) :
    minifyFrom progress (lexeme.text ++ rest) = minifyFrom (progress.add lexeme) rest := by
  rw [minifyFrom, segmentFrom_append_of_reads reads, minifyFrom]

theorem segmentFrom_append_of_readsAll (reads : ReadsAll progress lexemes rest) :
    segmentFrom progress (lexemes.flatMap Lexeme.text ++ rest) =
      segmentFrom (lexemes.foldl Progress.add progress) rest := by
  induction lexemes generalizing progress with
  | nil => rfl
  | cons lexeme lexemes ih =>
      rcases reads with ⟨reads, later⟩
      rw [List.flatMap_cons, List.append_assoc, segmentFrom_append_of_reads reads, ih later]
      rfl

theorem exists_lexemes (progress : Progress) (source : Text) :
    ∃ lexemes rest, source = lexemes.flatMap Lexeme.text ++ rest ∧
      ReadsAll progress lexemes rest ∧
        IsStuck (lexemes.foldl Progress.add progress).written rest := by
  fun_induction segmentFrom progress source with
  | case1 progress =>
      refine ⟨[], [], rfl, trivial, ?_⟩
      intro c tail same
      cases same
  | case2 progress c rest construct failed =>
      refine ⟨[], c :: rest, rfl, trivial, ?_⟩
      intro d tail same
      cases same
      exact ⟨construct, failed⟩
  | case3 progress c rest shape extent measured ih =>
      rcases ih with ⟨lexemes, left, rest_eq, reads, stuck⟩
      have within := (measure_eq_ok_iff.mp measured).le_length
      refine ⟨⟨shape, c :: rest.take extent⟩ :: lexemes, left, ?_, ⟨?_, reads⟩, stuck⟩
      · simp [← rest_eq]
      · refine ⟨c, rest.take extent, rfl, ?_⟩
        rw [← rest_eq, List.take_append_drop, List.length_take_of_le within]
        exact measure_eq_ok_iff.mp measured

theorem segmentFrom_of_error {c : Char} {construct : Construct}
    (failed : Lexeme.measure progress.written c rest = .error construct) :
    segmentFrom progress (c :: rest) = .error ⟨construct, progress.line⟩ := by
  rw [segmentFrom.eq_def]
  simp [failed]

theorem segmentFrom_nil (progress : Progress) : segmentFrom progress [] = .ok progress.finish := by
  rw [segmentFrom.eq_def]
  rfl

theorem isCompleted_of_mem (reads : ReadsAll {} lexemes rest) (lexeme_mem : lexeme ∈ lexemes) :
    IsCompleted (lexemes.flatMap Lexeme.text ++ rest) lexeme := by
  rcases List.append_of_mem lexeme_mem with ⟨before, after, rfl⟩
  refine ⟨before, after.flatMap Lexeme.text ++ rest, by simp, ?_⟩
  rw [List.append_cons, readsAll_append] at reads
  exact reads.1

end Cutting

/-! ## Cuts that have come equally far -/

/-- Whatever follows is cut alike and written alike behind the two cuts. -/
structure Progress.Alike (first second : Progress) : Prop where
  written : first.written = second.written
  line : first.line = second.line
  touching : first.gap = [] ↔ second.gap = []
  broken : first.gap.any Lexeme.breaksLine = second.gap.any Lexeme.breaksLine
  minified : first.finish.minified = second.finish.minified

theorem separator_of_gaps {written : Text} {gap gap' : List Lexeme} (lexeme : Lexeme)
    (touching : gap = [] ↔ gap' = [])
    (broken : gap.any Lexeme.breaksLine = gap'.any Lexeme.breaksLine) :
    separator written gap lexeme = separator written gap' lexeme := by
  have empty : gap.isEmpty = gap'.isEmpty := by
    rw [Bool.eq_iff_iff]
    simpa using touching
  simp only [separator, empty, broken]

namespace Progress

variable {first second : Progress} {lexeme lexeme' : Lexeme}

theorem Alike.refl (progress : Progress) : progress.Alike progress :=
  ⟨rfl, rfl, Iff.rfl, rfl, rfl⟩

theorem Alike.add (alike : first.Alike second) (lexeme : Lexeme) :
    (first.add lexeme).Alike (second.add lexeme) := by
  rcases alike with ⟨written, line, touching, broken, minified⟩
  have separated := @separator_of_gaps first.written _ _ lexeme touching broken
  rw [written] at separated
  cases blank : lexeme.shape.isBlank with
  | true => constructor <;> simp_all [Progress.add, finish, Segmentation.minified]
  | false => constructor <;> simp_all [Progress.add, finish, Segmentation.minified]

/-- Two blanks may differ if they agree on line breaks and have equally many lines. -/
theorem Alike.add_of_blank (alike : first.Alike second) (blank : lexeme.shape.isBlank = true)
    (blank' : lexeme'.shape.isBlank = true) (breaks : lexeme.breaksLine = lexeme'.breaksLine)
    (count : lexeme.text.count '\n' = lexeme'.text.count '\n') :
    (first.add lexeme).Alike (second.add lexeme') := by
  rcases alike with ⟨written, line, touching, broken, minified⟩
  constructor <;> simp_all [Progress.add, finish, Segmentation.minified]

/-- A blank within a gap makes no difference if the gap breaks the line already. -/
theorem alike_add_of_broken (broken : first.gap.any Lexeme.breaksLine = true)
    (blank : lexeme.shape.isBlank = true) (inLine : '\n' ∉ lexeme.text) :
    (first.add lexeme).Alike first := by
  have nonempty : first.gap ≠ [] := by
    intro empty
    simp [empty] at broken
  constructor <;>
    simp [Progress.add, finish, Segmentation.minified, blank, broken, nonempty,
      List.count_eq_zero_of_not_mem inLine]

theorem Alike.trans {third : Progress} (alike : first.Alike second) (alike' : second.Alike third) :
    first.Alike third :=
  ⟨alike.written.trans alike'.written, alike.line.trans alike'.line,
    alike.touching.trans alike'.touching, alike.broken.trans alike'.broken,
    alike.minified.trans alike'.minified⟩

theorem Alike.minifyFrom_eq (alike : first.Alike second) (source : Text) :
    minifyFrom first source = minifyFrom second source := by
  rw [minifyFrom]
  fun_induction segmentFrom first source generalizing second with
  | case1 first =>
      rw [minifyFrom, segmentFrom_nil]
      exact congrArg Except.ok alike.minified
  | case2 first c rest construct failed =>
      rw [alike.written] at failed
      rw [minifyFrom, segmentFrom_of_error failed, alike.line]
  | case3 first c rest shape extent measured ih =>
      rw [alike.written] at measured
      rw [ih (alike.add _), minifyFrom, minifyFrom, segmentFrom.eq_def second]
      simp [measured]

end Progress

/-! ## Other line ends -/

/-- The text with another line end in place of each line feed. -/
def rebreak (lineEnd text : Text) : Text :=
  text.flatMap fun c => if c = '\n' then lineEnd else [c]

/-- A line end is made up of carriage returns and line feeds. -/
structure IsLineEnd (lineEnd : Text) : Prop where
  nonempty : lineEnd ≠ []
  breaks : ∀ c ∈ lineEnd, c = '\r' ∨ c = '\n'

section Rebreak

variable {lineEnd text written rest : Text} {c : Char} {lexeme : Lexeme}

@[simp]
theorem rebreak_nil (lineEnd : Text) : rebreak lineEnd [] = [] :=
  rfl

@[simp]
theorem rebreak_append (lineEnd first second : Text) :
    rebreak lineEnd (first ++ second) = rebreak lineEnd first ++ rebreak lineEnd second :=
  List.flatMap_append

@[simp]
theorem rebreak_feed (lineEnd text : Text) :
    rebreak lineEnd ('\n' :: text) = lineEnd ++ rebreak lineEnd text :=
  rfl

@[simp]
theorem rebreak_cons (other : c ≠ '\n') (lineEnd text : Text) :
    rebreak lineEnd (c :: text) = c :: rebreak lineEnd text := by
  simp [rebreak, other]

theorem rebreak_of_not_mem (inLine : '\n' ∉ text) : rebreak lineEnd text = text := by
  induction text with
  | nil => rfl
  | cons c text ih =>
      simp only [List.mem_cons, not_or] at inLine
      rw [rebreak_cons (Ne.symm inLine.1), ih inLine.2]

theorem directiveExtent_eq_none_iff : directiveExtent text = none ↔
    ∀ rest, text = ':' :: rest → ¬[':', ')'] <+: rest.dropWhile Tag.inBody := by
  rw [directiveExtent_eq, Option.map_eq_none_iff]
  constructor
  · rintro absent rest rfl ⟨after, closing⟩
    rw [Tag.atStart?_of_closing closing.symm] at absent
    cases absent
  · intro unclosed
    cases found : Tag.atStart? ('(' :: text) with
    | none => rfl
    | some parts =>
        rcases Tag.begins_with_opening (Tag.isTag_of_atStart? found) with ⟨front, tag_eq⟩
        have same := Tag.append_of_atStart? found
        rw [← tag_eq] at same
        rcases List.cons.inj same with ⟨-, rfl⟩
        have closing := Tag.closing_of_atStart? found
        exact absurd ⟨_, closing.symm⟩ (unclosed _ rfl)

theorem blockCommentExtent_eq_none_iff {taken : Nat} :
    blockCommentExtent taken text = none ↔ ¬['*', '/'] <:+: text := by
  constructor
  · intro endless inside
    fun_induction blockCommentExtent taken text with
    | case1 => simp at inside
    | case2 => cases endless
    | case3 taken c text goesOn ih =>
        rcases List.infix_cons_iff.mp inside with ⟨rest, here⟩ | later
        · rcases List.cons.inj here with ⟨rfl, rfl⟩
          exact goesOn rfl
        · exact ih endless later
  · intro endless
    cases found : blockCommentExtent taken text with
    | none => rfl
    | some n =>
        rcases exists_of_blockCommentExtent found with ⟨body, rest, rfl, -, -⟩
        exact absurd ⟨body, rest, by simp⟩ endless

theorem closed_eq_error_iff {construct construct' : Construct} {shape : Shape}
    {extent : Option Nat} :
    Lexeme.measure.closed construct shape extent = .error construct' ↔
      construct = construct' ∧ extent = none := by
  cases extent <;> simp [Lexeme.measure.closed]

theorem measure_eq_error_blockComment_iff :
    Lexeme.measure written c rest = .error .blockComment ↔
      c = '/' ∧ ∃ body, rest = '*' :: body ∧ ¬['*', '/'] <:+: body := by
  constructor
  · intro failed
    unfold Lexeme.measure at failed
    split_ifs at failed with blank line block
    · rw [closed_eq_error_iff, blockCommentExtent_eq_none_iff] at failed
      simp only [Bool.and_eq_true, decide_eq_true_eq] at block
      rcases List.head?_eq_some_iff.mp block.2 with ⟨body, rfl⟩
      exact ⟨block.1, body, rfl, failed.2⟩
    · cases (closed_eq_error_iff.mp failed).1
    · cases (closed_eq_error_iff.mp failed).1
    · split at failed <;> cases failed
    · cases (closed_eq_error_iff.mp failed).1
  · rintro ⟨rfl, body, rfl, endless⟩
    exact closed_eq_error_iff.mpr ⟨rfl, blockCommentExtent_eq_none_iff.mpr endless⟩

variable (isLineEnd : IsLineEnd lineEnd)

include isLineEnd

theorem head?_rebreak (text : Text) (other : c ≠ '\r' ∧ c ≠ '\n') :
    (rebreak lineEnd text).head? = some c ↔ text.head? = some c := by
  rcases text with _ | ⟨d, text⟩
  · simp
  · by_cases feed : d = '\n'
    · subst feed
      rcases lineEnd with _ | ⟨b, lineEnd⟩
      · exact absurd rfl isLineEnd.nonempty
      · have breaks := isLineEnd.breaks b List.mem_cons_self
        simp only [rebreak_feed, List.cons_append, List.head?_cons, Option.some.injEq]
        constructor
        · rintro rfl
          exact absurd breaks (by simp [other])
        · exact fun same => absurd same.symm other.2
    · simp [rebreak_cons feed]

theorem dropWhile_rebreak (text : Text) :
    (rebreak lineEnd text).dropWhile Tag.inBody = rebreak lineEnd (text.dropWhile Tag.inBody) := by
  induction text with
  | nil => rfl
  | cons d text ih =>
      by_cases feed : d = '\n'
      · subst feed
        rw [rebreak_feed, List.dropWhile_append_of_pos, ih, List.dropWhile_cons_of_pos (by decide)]
        intro c c_mem
        rcases isLineEnd.breaks c c_mem with rfl | rfl <;> decide
      · rw [rebreak_cons feed]
        cases inside : Tag.inBody d with
        | true =>
            rw [List.dropWhile_cons_of_pos inside, List.dropWhile_cons_of_pos inside, ih]
        | false =>
            rw [List.dropWhile_cons_of_neg (by simp [inside]),
              List.dropWhile_cons_of_neg (by simp [inside]), rebreak_cons feed]

theorem prefix_of_rebreak {pattern : Text} (unbroken : ∀ c ∈ pattern, c ≠ '\r' ∧ c ≠ '\n')
    (here : pattern <+: rebreak lineEnd text) : pattern <+: text := by
  induction pattern generalizing text with
  | nil => exact List.nil_prefix
  | cons p pattern ih =>
      have other := unbroken p List.mem_cons_self
      have head : (rebreak lineEnd text).head? = some p := by
        rcases here with ⟨rest, same⟩
        rw [← same]
        rfl
      rcases List.head?_eq_some_iff.mp ((head?_rebreak isLineEnd text other).mp head) with
        ⟨text, rfl⟩
      rw [rebreak_cons other.2, List.cons_prefix_cons] at here
      rw [List.cons_prefix_cons]
      exact ⟨rfl, ih (fun c c_mem => unbroken c (List.mem_cons_of_mem p c_mem)) here.2⟩

theorem infix_of_rebreak {pattern : Text} (unbroken : ∀ c ∈ pattern, c ≠ '\r' ∧ c ≠ '\n')
    (inside : pattern <:+: rebreak lineEnd text) : pattern <:+: text := by
  rcases pattern with _ | ⟨p, pattern⟩
  · exact List.nil_infix
  have absent : p ∉ lineEnd := by
    intro mem
    have other := unbroken p List.mem_cons_self
    exact (isLineEnd.breaks p mem).elim other.1 other.2
  induction text with
  | nil => exact inside
  | cons d text ih =>
      by_cases feed : d = '\n'
      · subst feed
        exact List.infix_cons (ih (Text.infix_of_infix_append absent inside))
      · rw [rebreak_cons feed, List.infix_cons_iff, ← rebreak_cons feed] at inside
        rw [List.infix_cons_iff]
        exact inside.imp (prefix_of_rebreak isLineEnd unbroken) ih

theorem directiveExtent_rebreak (absent : directiveExtent text = none) :
    directiveExtent (rebreak lineEnd text) = none := by
  rw [directiveExtent_eq_none_iff] at absent ⊢
  intro rest same closing
  have colon : (rebreak lineEnd text).head? = some ':' := by rw [same]; rfl
  rcases List.head?_eq_some_iff.mp ((head?_rebreak isLineEnd text (by decide)).mp colon) with
    ⟨text, rfl⟩
  rw [rebreak_cons (by decide), List.cons.injEq] at same
  rw [← same.2, dropWhile_rebreak isLineEnd] at closing
  exact absent text rfl (prefix_of_rebreak isLineEnd (by simp) closing)

theorem Lexeme.Reads.rebreak (reads : lexeme.Reads written rest)
    (notLine : lexeme.shape ≠ .lineComment) : lexeme.Reads written (rebreak lineEnd rest) := by
  apply reads.transfer (fun _ _ => rfl) (fun line => absurd line notLine)
  · intro code slash
    have apart := reads.apart_of_slash code slash
    rwa [ne_eq, ne_eq, head?_rebreak isLineEnd rest (by decide),
      head?_rebreak isLineEnd rest (by decide)]
  · intro code parenthesis
    have complete := reads.isComplete
    rw [Lexeme.IsComplete, code] at complete
    rcases complete with ⟨c, text_eq, -, -, -, noTag⟩
    rw [parenthesis] at text_eq
    cases text_eq
    exact directiveExtent_rebreak isLineEnd (directiveExtent_eq_none noTag)

theorem Lexeme.Reads.rebreak_blockComment (reads : lexeme.Reads written rest)
    (block : lexeme.shape = .blockComment) :
    Lexeme.Reads ⟨.blockComment, Script.rebreak lineEnd lexeme.text⟩ written rest := by
  have complete := reads.isComplete
  rw [Lexeme.IsComplete, block] at complete
  rcases complete with ⟨body, text_eq, first⟩
  rw [Lexeme.reads_iff]
  refine ⟨⟨Script.rebreak lineEnd body, ?_, ?_⟩, nofun, nofun⟩
  · rw [text_eq, rebreak_cons (by decide), rebreak_cons (by decide), rebreak_append]
    rfl
  · intro inside
    have split : Script.rebreak lineEnd body ++ ['*'] = Script.rebreak lineEnd (body ++ ['*']) := by
      rw [rebreak_append]
      rfl
    rw [split] at inside
    exact first (infix_of_rebreak isLineEnd (by simp) inside)

theorem measure_rebreak_of_blockComment
    (failed : Lexeme.measure written c rest = .error .blockComment) :
    Lexeme.measure written c (rebreak lineEnd rest) = .error .blockComment := by
  rw [measure_eq_error_blockComment_iff] at failed ⊢
  rcases failed with ⟨rfl, body, rfl, endless⟩
  refine ⟨rfl, _, rebreak_cons (by decide) _ _, fun inside => ?_⟩
  exact endless (infix_of_rebreak isLineEnd (by simp) inside)

end Rebreak

/-! ## Carriage returns before line feeds -/

/-- A carriage return and a line feed. -/
def returnAndFeed : Text :=
  ['\r', '\n']

theorem isLineEnd_returnAndFeed : IsLineEnd returnAndFeed :=
  ⟨by simp [returnAndFeed], by simp [returnAndFeed]⟩

section ReturnAndFeed

variable {taken : Nat} {text written rest : Text}

@[simp]
theorem returnAndFeed_append (text : Text) : returnAndFeed ++ text = '\r' :: '\n' :: text :=
  rfl

@[simp]
theorem stringExtent_feed (quote : Char) (taken : Nat) (text : Text) :
    stringExtent quote taken ('\n' :: text) = none := by
  rw [stringExtent.eq_def]
  rfl

@[simp]
theorem templateExtent_feed (taken : Nat) (text : Text) :
    templateExtent taken ('\n' :: text) = templateExtent (taken + 1) text := by
  rw [templateExtent.eq_def]
  rfl

@[simp]
theorem regexExtent_feed (inClass : Bool) (taken : Nat) (text : Text) :
    regexExtent inClass taken ('\n' :: text) = none := by
  rw [regexExtent.eq_def]
  rfl

theorem stringExtent_rebreak {quote : Char} (quotes : quote = '\x27' ∨ quote = '\x22')
    (endless : stringExtent quote taken text = none) (taken' : Nat) :
    stringExtent quote taken' (rebreak returnAndFeed text) = none := by
  fun_induction stringExtent quote taken text generalizing taken' with
  | case1 => rfl
  | case2 => rfl
  | case3 taken d rest ih =>
      by_cases feed : d = '\n'
      · simp [feed, stringExtent]
      · simpa [feed, stringExtent] using ih endless (taken' + 2)
  | case4 taken rest =>
      -- The carriage return stands for itself, and the line feed behind it ends the literal.
      rcases quotes with rfl | rfl <;> simp [stringExtent]
  | case5 => cases endless
  | case6 taken c rest unescaped unbroken goesOn ih =>
      simpa [unbroken, unescaped, goesOn, stringExtent.eq_def quote taken'] using
        ih endless (taken' + 1)

theorem templateExtent_rebreak (endless : templateExtent taken text = none) (taken' : Nat) :
    templateExtent taken' (rebreak returnAndFeed text) = none := by
  fun_induction templateExtent taken text generalizing taken' with
  | case1 => rfl
  | case2 => rfl
  | case3 taken d rest ih =>
      by_cases feed : d = '\n'
      · simpa [feed, templateExtent] using ih endless (taken' + 2 + 1)
      · simpa [feed, templateExtent] using ih endless (taken' + 2)
  | case4 => cases endless
  | case5 taken c rest unescaped goesOn ih =>
      by_cases feed : c = '\n'
      · simpa [feed, templateExtent] using ih endless (taken' + 1 + 1)
      · simpa [feed, unescaped, goesOn, templateExtent.eq_def taken'] using ih endless (taken' + 1)

theorem regexExtent_rebreak {inClass : Bool} (endless : regexExtent inClass taken text = none)
    (taken' : Nat) : regexExtent inClass taken' (rebreak returnAndFeed text) = none := by
  fun_induction regexExtent inClass taken text generalizing taken' with
  | case1 => rfl
  | case2 => simp [regexExtent]
  | case3 => rfl
  | case4 inClass taken d rest _ ih =>
      by_cases feed : d = '\n'
      · simp [feed, regexExtent]
      · simpa [feed, regexExtent] using ih endless (taken' + 2)
  | case5 inClass taken rest _ _ ih =>
      simpa [regexExtent.eq_def inClass taken'] using ih endless (taken' + 1)
  | case6 inClass taken rest _ _ _ ih =>
      simpa [regexExtent.eq_def inClass taken'] using ih endless (taken' + 1)
  | case7 => cases endless
  | case8 inClass taken c rest unbroken unescaped notOpening notClosing goesOn ih =>
      simpa [unbroken, unescaped, notOpening, notClosing, goesOn, regexExtent.eq_def inClass taken']
        using ih endless (taken' + 1)

theorem measure_rebreak_of_error {c : Char} {construct : Construct}
    (failed : Lexeme.measure written c rest = .error construct) :
    Lexeme.measure written c (rebreak returnAndFeed rest) = .error construct := by
  by_cases comment : construct = .blockComment
  · subst comment
    exact measure_rebreak_of_blockComment isLineEnd_returnAndFeed failed
  have slash := @head?_rebreak _ '/' isLineEnd_returnAndFeed rest (by decide)
  have star := @head?_rebreak _ '*' isLineEnd_returnAndFeed rest (by decide)
  unfold Lexeme.measure at failed ⊢
  simp only [slash, star]
  split_ifs at failed ⊢ with blank line block quote backtick parenthesis regex
  · exact absurd (closed_eq_error_iff.mp failed).1.symm comment
  · rw [closed_eq_error_iff] at failed ⊢
    exact ⟨failed.1, stringExtent_rebreak (by simpa using quote) failed.2 0⟩
  · rw [closed_eq_error_iff] at failed ⊢
    exact ⟨failed.1, templateExtent_rebreak failed.2 0⟩
  · split at failed <;> cases failed
  · rw [closed_eq_error_iff] at failed ⊢
    exact ⟨failed.1, regexExtent_rebreak failed.2 0⟩

end ReturnAndFeed

/-! ## Cutting in step -/

section Step

variable {first second : Progress} {lexeme : Lexeme} {lexemes : List Lexeme} {written rest : Text}

theorem reads_space {c : Char} (blank : Pageweave.isBlank c = true) (written rest : Text) :
    Lexeme.Reads ⟨.space, [c]⟩ written rest :=
  ⟨c, [], rfl, .space blank⟩

theorem count_rebreak_returnAndFeed (text : Text) :
    (rebreak returnAndFeed text).count '\n' = text.count '\n' := by
  induction text with
  | nil => rfl
  | cons c text ih => by_cases feed : c = '\n' <;> simp [feed, ih]

theorem contains_rebreak_returnAndFeed (text : Text) :
    (rebreak returnAndFeed text).contains '\n' = text.contains '\n' := by
  rw [Bool.eq_iff_iff, List.contains_iff_mem, List.contains_iff_mem, ← List.count_pos_iff,
    ← List.count_pos_iff, count_rebreak_returnAndFeed]

theorem Lexeme.Reads.exists_lineComment (reads : lexeme.Reads written rest)
    (line : lexeme.shape = .lineComment) :
    ∃ body, lexeme = ⟨.lineComment, '/' :: '/' :: body⟩ ∧ '\n' ∉ body := by
  have complete := reads.isComplete
  rcases lexeme with ⟨shape, text⟩
  dsimp only at line
  subst line
  rcases complete with ⟨body, text_eq, unbroken, -⟩
  exact ⟨body, congrArg _ text_eq, unbroken⟩

theorem Lexeme.Reads.eq_feed (reads : lexeme.Reads written rest) (feed : '\n' ∈ lexeme.text)
    (unbroken : lexeme.shape.isBlank = false → '\n' ∉ lexeme.text)
    (notLine : lexeme.shape ≠ .lineComment) (notBlock : lexeme.shape ≠ .blockComment) :
    lexeme = ⟨.space, ['\n']⟩ := by
  have complete := reads.isComplete
  rcases lexeme with ⟨shape, text⟩
  cases shape with
  | space =>
      rcases complete with ⟨c, rfl, -⟩
      obtain rfl : '\n' = c := by simpa using feed
      rfl
  | lineComment => exact absurd rfl notLine
  | blockComment => exact absurd rfl notBlock
  | string | template | regex | directive | code => exact absurd feed (unbroken rfl)

/-- A carriage return at the end of a line comment may as well stand behind it. -/
theorem minifyFrom_lineComment {body : Text} (unbroken : '\n' ∉ body) (progress : Progress)
    (rest : Text) :
    minifyFrom progress ('/' :: '/' :: body ++ '\r' :: '\n' :: rest) =
      minifyFrom (progress.add ⟨.lineComment, '/' :: '/' :: body⟩) ('\r' :: '\n' :: rest) := by
  have long : Lexeme.Reads ⟨.lineComment, '/' :: '/' :: (body ++ ['\r'])⟩ progress.written
      ('\n' :: rest) := by
    rw [Lexeme.reads_iff]
    exact ⟨⟨_, rfl, by simp [unbroken], Or.inr rfl⟩, nofun, nofun⟩
  have short : Lexeme.Reads ⟨.space, ['\r']⟩
      (progress.add ⟨.lineComment, '/' :: '/' :: body⟩).written ('\n' :: rest) :=
    reads_space (by decide) _ _
  have same : (progress.add ⟨.lineComment, '/' :: '/' :: (body ++ ['\r'])⟩).Alike
      (progress.add ⟨.lineComment, '/' :: '/' :: body⟩) :=
    (Progress.Alike.refl progress).add_of_blank (by rfl) (by rfl) (by rfl) (by simp)
  have again : ((progress.add ⟨.lineComment, '/' :: '/' :: body⟩).add ⟨.space, ['\r']⟩).Alike
      (progress.add ⟨.lineComment, '/' :: '/' :: body⟩) :=
    Progress.alike_add_of_broken rfl rfl (by decide)
  have inside := minifyFrom_append_of_reads long
  have behind := minifyFrom_append_of_reads short
  rw [same.minifyFrom_eq, ← again.minifyFrom_eq] at inside
  simpa using inside.trans behind.symm

/-- A carriage return before a line feed makes no difference to a gap. -/
theorem alike_add_return_feed (progress : Progress) :
    (progress.add ⟨.space, ['\n']⟩).Alike
      ((progress.add ⟨.space, ['\r']⟩).add ⟨.space, ['\n']⟩) := by
  constructor <;>
    simp [Progress.add, Shape.isBlank, Progress.finish, Segmentation.minified, Lexeme.breaksLine]

/-- Both cuts come equally far with each lexeme. -/
theorem exists_next (alike : first.Alike second) (reads : lexeme.Reads first.written rest)
    (unbroken : lexeme.shape.isBlank = false → '\n' ∉ lexeme.text) :
    ∃ next, (first.add lexeme).Alike next ∧
      minifyFrom second (rebreak returnAndFeed (lexeme.text ++ rest)) =
        minifyFrom next (rebreak returnAndFeed rest) := by
  have isLineEnd := isLineEnd_returnAndFeed
  by_cases line : lexeme.shape = .lineComment
  · rcases reads.exists_lineComment line with ⟨body, rfl, inLine⟩
    refine ⟨_, alike.add _, ?_⟩
    rw [rebreak_append, rebreak_of_not_mem (by simpa using inLine)]
    rcases reads.line_ends rfl with rfl | feed
    · rw [alike.written] at reads
      exact minifyFrom_append_of_reads reads
    · -- The carriage return is read as a part of the comment.
      rcases List.head?_eq_some_iff.mp feed with ⟨rest, rfl⟩
      exact minifyFrom_lineComment inLine second (rebreak returnAndFeed rest)
  rw [alike.written] at reads
  have reads' := reads.rebreak isLineEnd line
  by_cases block : lexeme.shape = .blockComment
  · refine ⟨_, alike.add_of_blank (by rw [block]; rfl) rfl ?_ ?_,
      (rebreak_append _ _ _).symm ▸ minifyFrom_append_of_reads
        (reads'.rebreak_blockComment isLineEnd block)⟩
    · rw [Lexeme.breaksLine, Lexeme.breaksLine, block]
      exact (contains_rebreak_returnAndFeed lexeme.text).symm
    · exact (count_rebreak_returnAndFeed lexeme.text).symm
  by_cases feed : '\n' ∈ lexeme.text
  · -- The line feed is a blank by itself, and so is the carriage return before it.
    obtain rfl := reads'.eq_feed feed unbroken line block
    refine ⟨_, (alike.add _).trans (alike_add_return_feed second), ?_⟩
    have first := minifyFrom_append_of_reads (@reads_space '\r' (by decide) second.written
      ('\n' :: rebreak returnAndFeed rest))
    have next := minifyFrom_append_of_reads (@reads_space '\n' (by decide)
      (second.add ⟨.space, ['\r']⟩).written (rebreak returnAndFeed rest))
    exact first.trans next
  · refine ⟨_, alike.add _, ?_⟩
    rw [rebreak_append, rebreak_of_not_mem feed]
    exact minifyFrom_append_of_reads reads'

theorem minifyFrom_rebreak_of_stuck (alike : first.Alike second)
    (stuck : IsStuck first.written rest) :
    minifyFrom second (rebreak returnAndFeed rest) = minifyFrom first rest := by
  rcases rest with _ | ⟨c, rest⟩
  · exact (alike.minifyFrom_eq []).symm
  · rcases stuck c rest rfl with ⟨construct, failed⟩
    have dark : c ≠ '\n' := by
      rintro rfl
      rw [Lexeme.measure, if_pos (by decide)] at failed
      cases failed
    have failed' := measure_rebreak_of_error failed
    rw [alike.written] at failed'
    rw [rebreak_cons dark, minifyFrom, minifyFrom, segmentFrom_of_error failed,
      segmentFrom_of_error failed', alike.line]

theorem minifyFrom_rebreak (alike : first.Alike second) (reads : ReadsAll first lexemes rest)
    (stuck : IsStuck (lexemes.foldl Progress.add first).written rest)
    (unbroken : ∀ lexeme ∈ lexemes, lexeme.shape.isBlank = false → '\n' ∉ lexeme.text) :
    minifyFrom second (rebreak returnAndFeed (lexemes.flatMap Lexeme.text ++ rest)) =
      minifyFrom first (lexemes.flatMap Lexeme.text ++ rest) := by
  induction lexemes generalizing first second with
  | nil => exact minifyFrom_rebreak_of_stuck alike stuck
  | cons lexeme lexemes ih =>
      rcases reads with ⟨here, later⟩
      rcases List.forall_mem_cons.mp unbroken with ⟨unbroken, unbroken'⟩
      rcases exists_next alike here unbroken with ⟨next, alike', minified_eq⟩
      rw [List.flatMap_cons, List.append_assoc, minified_eq, minifyFrom_append_of_reads here]
      exact ih alike' later stuck unbroken'

end Step

/-- A script with a carriage return before each line feed is minified like the script without them,
and fails like it, if no literal and no directive goes on over the end of a line. -/
theorem minify_rebreak {source : Text} (unbroken : ∀ lexeme, IsCompleted source lexeme →
    lexeme.shape.isBlank = false → '\n' ∉ lexeme.text) :
    minify (rebreak returnAndFeed source) = minify source := by
  rcases exists_lexemes {} source with ⟨lexemes, rest, rfl, reads, stuck⟩
  apply minifyFrom_rebreak (.refl {}) reads stuck
  intro lexeme lexeme_mem
  exact unbroken lexeme (isCompleted_of_mem reads lexeme_mem)

/-- What is recognised on the way is what a script that is cut to its end consists of. -/
theorem isCompleted_iff_mem {source : Text} {segmentation : Segmentation} {lexeme : Lexeme}
    (cut : segment source = .ok segmentation) :
    IsCompleted source lexeme ↔ lexeme ∈ segmentation.lexemes := by
  constructor
  · rintro ⟨before, rest, rfl, reads⟩
    have source_eq : before.flatMap Lexeme.text ++ (lexeme.text ++ rest) =
        (before ++ [lexeme]).flatMap Lexeme.text ++ rest := by
      simp
    rw [segment, source_eq, segmentFrom_append_of_readsAll reads] at cut
    rcases exists_of_segmentFrom cut with ⟨after, rfl, reads', segmentation_eq⟩
    have readsAll : ReadsAll {} (before ++ [lexeme] ++ after) [] := by
      rw [readsAll_append, List.append_nil]
      exact ⟨reads, reads'⟩
    rcases exists_areCut_of_readsAll rfl readsAll with ⟨pieces, trailing, lexemes_eq, areCut⟩
    have finish_eq := (@readsAll_of_areCut {} _ _ rfl areCut).2
    rw [← lexemes_eq, List.foldl_append, ← segmentation_eq] at finish_eq
    rw [finish_eq, List.reverse_nil, List.nil_append, ← lexemes_eq]
    simp
  · intro lexeme_mem
    rcases segment_eq_ok_iff.mp cut with ⟨rfl, areCut⟩
    have reads := (@readsAll_of_areCut {} _ _ rfl areCut).1
    have completed := isCompleted_of_mem reads lexeme_mem
    rwa [flatMap_lexemes, List.append_nil] at completed

theorem exists_segmentation_of_all {source : Text} {p : Lexeme → Bool}
    (all : (segment source).map (fun segmentation => segmentation.lexemes.all p) = .ok true) :
    ∃ segmentation, segment source = .ok segmentation ∧
      ∀ lexeme ∈ segmentation.lexemes, p lexeme = true := by
  cases cut : segment source with
  | error failure =>
      rw [cut] at all
      cases all
  | ok segmentation =>
      rw [cut] at all
      exact ⟨segmentation, rfl, List.all_eq_true.mp (Except.ok.inj all)⟩

theorem minify_rebreak_comments :
    minify (rebreak returnAndFeed "// a\nb /* c\n */ + 'd'\n- (:= e:)\n".toList) =
      minify "// a\nb /* c\n */ + 'd'\n- (:= e:)\n".toList := by
  have inLines : ∃ segmentation,
      segment "// a\nb /* c\n */ + 'd'\n- (:= e:)\n".toList = .ok segmentation ∧
        ∀ lexeme ∈ segmentation.lexemes,
          (lexeme.shape.isBlank || !lexeme.text.contains '\n') = true :=
    exists_segmentation_of_all (by decide +kernel)
  rcases inLines with ⟨segmentation, cut, inLines⟩
  apply minify_rebreak
  intro lexeme completed token
  have here := inLines lexeme ((isCompleted_iff_mem cut).mp completed)
  simpa [token] using here

end Pageweave.Script
