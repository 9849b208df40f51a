import Pageweave.Proofs.Uncommented

/-!
# Carriage returns in scripts

A carriage return is a line break between tokens, but it does not end a line comment and does not
count in a block comment. So a script with a carriage return in place of each line feed is cut like
the original, piece by piece, up to the first gap with a line comment in it, which has no end any
more, or the first gap that was broken by nothing but a line feed in a block comment. This decides
whether the two are minified alike (`minifyFrom_returned_iff`), and gives what minifying does to a
script without literals (`minify_without_literals`).
-/

namespace Pageweave.Script

/-! ## Lexemes with carriage returns -/

theorem isLineEnd_return : IsLineEnd ['\r'] :=
  ⟨by simp, by simp⟩

/-- The lexeme with a carriage return in place of each line feed. -/
def Lexeme.returned (lexeme : Lexeme) : Lexeme :=
  { lexeme with text := rebreak ['\r'] lexeme.text }

/-- Carriage returns in place of line feeds make no difference to the gap before the token: no line
comment in it depends on its line feed, and no separator on one in a block comment. -/
def Piece.IsIndifferent (piece : Piece) : Prop :=
  (∀ lexeme ∈ piece.gap, lexeme.shape ≠ .lineComment) ∧
    (piece.separator = ['\n'] →
      ∃ lexeme ∈ piece.gap, lexeme.shape = .space ∧ lexeme.breaksLine = true)

theorem not_mem_rebreak_return (text : Text) : '\n' ∉ rebreak ['\r'] text := by
  simp only [rebreak, List.mem_flatMap, not_exists, not_and]
  intro c _
  split_ifs with feed
  · decide
  · simp [Ne.symm feed]

section Lexeme

variable {lexeme : Lexeme} {written rest : Text} {gap gap' : List Lexeme}

theorem Lexeme.Reads.returned (reads : lexeme.Reads written rest)
    (notLine : lexeme.shape ≠ .lineComment)
    (unbroken : lexeme.shape.isBlank = false → '\n' ∉ lexeme.text) :
    lexeme.returned.Reads written (Script.rebreak ['\r'] rest) := by
  have reads' := reads.rebreak isLineEnd_return notLine
  by_cases block : lexeme.shape = .blockComment
  · rw [Lexeme.returned, block]
    exact reads'.rebreak_blockComment isLineEnd_return block
  · by_cases feed : '\n' ∈ lexeme.text
    · obtain rfl := reads'.eq_feed feed unbroken notLine block
      exact reads_space (by decide) written _
    · rwa [Lexeme.returned, rebreak_of_not_mem feed]

theorem isBlank_map_returned (blank : ∀ lexeme ∈ gap, lexeme.shape.isBlank = true) :
    ∀ lexeme ∈ gap.map Lexeme.returned, lexeme.shape.isBlank = true := by
  simpa [Lexeme.returned] using blank

/-- Of the blanks that break the line, those between comments still do. -/
theorem Lexeme.Reads.breaksLine_returned (reads : lexeme.Reads written rest)
    (blank : lexeme.shape.isBlank = true) (notLine : lexeme.shape ≠ .lineComment) :
    lexeme.returned.breaksLine = true ↔ lexeme.shape = .space ∧ lexeme.breaksLine = true := by
  have complete := reads.isComplete
  rcases lexeme with ⟨shape, text⟩
  cases shape with
  | space =>
      rcases complete with ⟨c, rfl, -⟩
      by_cases feed : c = '\n' <;> simp [Lexeme.returned, Lexeme.breaksLine, feed]
  | lineComment => exact absurd rfl notLine
  | blockComment => simp [Lexeme.returned, Lexeme.breaksLine, not_mem_rebreak_return]
  | string | template | regex | directive | code => cases blank

theorem separator_eq_or_of_breaks (written : Text) (lexeme : Lexeme)
    (touching : gap' = [] ↔ gap = [])
    (breaks : gap'.any Lexeme.breaksLine = true → gap.any Lexeme.breaksLine = true) :
    separator written gap' lexeme = separator written gap lexeme ∨
      separator written gap lexeme = ['\n'] ∧ gap'.any Lexeme.breaksLine = false := by
  cases broken' : gap'.any Lexeme.breaksLine with
  | true => exact Or.inl (separator_of_gaps lexeme touching (broken'.trans (breaks broken').symm))
  | false =>
      have empty : gap'.isEmpty = gap.isEmpty := by
        rw [Bool.eq_iff_iff]
        simpa using touching
      simp only [separator, empty, broken']
      split
      · split_ifs <;> simp_all
      · exact Or.inl rfl

theorem any_breaksLine_of_separator (feed : separator written gap lexeme = ['\n']) :
    gap.any Lexeme.breaksLine = true := by
  rw [separator.eq_def] at feed
  split at feed
  · dsimp only at feed
    split_ifs at feed with empty broken
    · simp only [Bool.and_eq_true] at broken
      exact broken.1.1
    · simp at feed
  · cases feed

end Lexeme

/-! ## Cutting with carriage returns -/

section Cutting

variable {progress : Progress} {lexeme : Lexeme} {lexemes gap : List Lexeme} {pieces : List Piece}
  {trailing : List Lexeme} {source rest : Text}

theorem minified_finish_add_of_blank (progress : Progress) (blank : lexeme.shape.isBlank = true) :
    (progress.add lexeme).finish.minified = progress.finish.minified := by
  simp [Progress.add, blank, Progress.finish, Segmentation.minified]

theorem minified_finish_add_of_token (token : lexeme.shape.isBlank = false) :
    (progress.add lexeme).finish.minified = progress.finish.minified ++
      (separator progress.written progress.gap lexeme ++ lexeme.text) := by
  simp [Progress.add, token, Progress.finish, Segmentation.minified]

/-- What has been written stays at the front of the minified script. -/
theorem prefix_finish_foldl (progress : Progress) (lexemes : List Lexeme) :
    progress.finish.minified <+: (lexemes.foldl Progress.add progress).finish.minified := by
  induction lexemes generalizing progress with
  | nil => exact List.prefix_rfl
  | cons lexeme lexemes ih =>
      apply List.IsPrefix.trans _ (ih (progress.add lexeme))
      cases blank : lexeme.shape.isBlank with
      | true => rw [minified_finish_add_of_blank progress blank]
      | false =>
          rw [minified_finish_add_of_token blank]
          exact List.prefix_append _ _

theorem prefix_of_minifyFrom {minified : Text}
    (done : minifyFrom progress source = .ok minified) : progress.finish.minified <+: minified := by
  cases cut : segmentFrom progress source with
  | error failure =>
      rw [minifyFrom, cut] at done
      cases done
  | ok segmentation =>
      rw [minifyFrom, cut] at done
      cases done
      rcases exists_of_segmentFrom cut with ⟨lexemes, -, -, rfl⟩
      exact prefix_finish_foldl progress lexemes

/-- A line comment without a line feed behind it is the rest of the script. -/
theorem minifyFrom_returned_lineComment (progress : Progress) (body : Text) :
    minifyFrom progress (rebreak ['\r'] ('/' :: '/' :: body)) = .ok progress.finish.minified := by
  have reads : Lexeme.Reads ⟨.lineComment, rebreak ['\r'] ('/' :: '/' :: body)⟩ progress.written
      [] := by
    rw [Lexeme.reads_iff]
    refine ⟨⟨rebreak ['\r'] body, ?_, not_mem_rebreak_return body, Or.inl rfl⟩, nofun, nofun⟩
    rw [rebreak_cons (by decide), rebreak_cons (by decide)]
  have alone := minifyFrom_append_of_reads reads
  rw [List.append_nil] at alone
  rw [alone, minifyFrom, segmentFrom_nil]
  exact congrArg Except.ok (minified_finish_add_of_blank progress rfl)

/-- A gap is gone through in step unless a line comment in it takes the rest of the script. -/
theorem minifyFrom_returned_gap (gapReads : ReadsGap progress.written gap rest) :
    (∀ lexeme ∈ gap, lexeme.shape ≠ .lineComment) ∧
        minifyFrom progress (rebreak ['\r'] (gap.flatMap Lexeme.text ++ rest)) =
          minifyFrom ((gap.map Lexeme.returned).foldl Progress.add progress)
            (rebreak ['\r'] rest) ∨
      (∃ lexeme ∈ gap, lexeme.shape = .lineComment) ∧
        minifyFrom progress (rebreak ['\r'] (gap.flatMap Lexeme.text ++ rest)) =
          .ok progress.finish.minified := by
  induction gap generalizing progress with
  | nil => exact Or.inl ⟨by simp, rfl⟩
  | cons lexeme gap ih =>
      rcases gapReads with ⟨blank, reads, later⟩
      by_cases line : lexeme.shape = .lineComment
      · right
        rcases reads.exists_lineComment line with ⟨body, rfl, -⟩
        refine ⟨⟨_, List.mem_cons_self, rfl⟩, ?_⟩
        rw [List.flatMap_cons, List.append_assoc]
        exact minifyFrom_returned_lineComment progress _
      · have reads' := reads.returned line (by simp [blank])
        have same := (@add_of_blank progress lexeme.returned blank).1
        have split : minifyFrom progress
            (rebreak ['\r'] ((lexeme :: gap).flatMap Lexeme.text ++ rest)) =
              minifyFrom (progress.add lexeme.returned)
                (rebreak ['\r'] (gap.flatMap Lexeme.text ++ rest)) := by
          rw [← minifyFrom_append_of_reads reads', List.flatMap_cons, List.append_assoc,
            rebreak_append]
          rfl
        rw [← same] at later
        rw [split, ← minified_finish_add_of_blank progress
          (show lexeme.returned.shape.isBlank = true from blank)]
        rcases ih later with ⟨noLine, gone⟩ | ⟨⟨other, other_mem, isLine⟩, gone⟩
        · exact Or.inl ⟨List.forall_mem_cons.mpr ⟨line, noLine⟩, gone⟩
        · exact Or.inr ⟨⟨other, List.mem_cons_of_mem lexeme other_mem, isLine⟩, gone⟩

theorem any_breaksLine_returned {written : Text} (gapReads : ReadsGap written gap rest)
    (noLine : ∀ lexeme ∈ gap, lexeme.shape ≠ .lineComment) :
    (gap.map Lexeme.returned).any Lexeme.breaksLine = true ↔
      ∃ lexeme ∈ gap, lexeme.shape = .space ∧ lexeme.breaksLine = true := by
  induction gap with
  | nil => simp
  | cons lexeme gap ih =>
      rcases gapReads with ⟨blank, reads, later⟩
      rcases List.forall_mem_cons.mp noLine with ⟨notLine, noLine⟩
      rw [List.map_cons, List.any_cons, Bool.or_eq_true, ih later noLine, List.exists_mem_cons_iff,
        reads.breaksLine_returned blank notLine]

theorem minified_finish_foldl_of_blank (blank : ∀ lexeme ∈ gap, lexeme.shape.isBlank = true) :
    (gap.foldl Progress.add progress).finish.minified = progress.finish.minified := by
  have pieces_eq := (@foldl_add_of_blank progress gap blank).2.2
  simp only [Progress.finish, Segmentation.minified, pieces_eq]

theorem separator_returned {piece : Piece} {written : Text}
    (gapReads : ReadsGap written piece.gap rest)
    (separator_eq : piece.separator = separator written piece.gap piece.token)
    (noLine : ∀ lexeme ∈ piece.gap, lexeme.shape ≠ .lineComment) :
    separator written (piece.gap.map Lexeme.returned) piece.token = piece.separator ∧
        piece.IsIndifferent ∨
      piece.separator = ['\n'] ∧
        separator written (piece.gap.map Lexeme.returned) piece.token ≠ ['\n'] ∧
          ¬piece.IsIndifferent := by
  have breaks_iff := any_breaksLine_returned gapReads noLine
  have breaks : (piece.gap.map Lexeme.returned).any Lexeme.breaksLine = true →
      piece.gap.any Lexeme.breaksLine = true := by
    intro broken
    rcases breaks_iff.mp broken with ⟨lexeme, lexeme_mem, -, breaksLine⟩
    exact List.any_eq_true.mpr ⟨lexeme, lexeme_mem, breaksLine⟩
  rw [separator_eq]
  by_cases indifferent : piece.IsIndifferent
  · left
    refine ⟨?_, indifferent⟩
    rcases separator_eq_or_of_breaks written piece.token (by simp) breaks with
      same | ⟨feed, unbroken⟩
    · exact same
    · have broken := breaks_iff.mpr (indifferent.2 (separator_eq.trans feed))
      rw [unbroken] at broken
      cases broken
  · right
    have feed : piece.separator = ['\n'] := by
      by_contra other
      exact indifferent ⟨noLine, fun feed => absurd feed other⟩
    refine ⟨separator_eq ▸ feed, ?_, indifferent⟩
    intro feed'
    exact indifferent ⟨noLine, fun _ => breaks_iff.mp (any_breaksLine_of_separator feed')⟩

/-- Two scripts differ where one has a line feed in place of a gap and the other has not, since a
token does not begin with a line feed. -/
theorem eq_feed_of_written {written front : Text} {gap : List Lexeme} {token : Lexeme}
    (reads : token.Reads written rest) (dark : token.shape.isBlank = false)
    (same : front ++ (separator written gap token ++ token.text) <+: front ++ '\n' :: source) :
    separator written gap token = ['\n'] := by
  rw [List.prefix_append_right_inj] at same
  rcases separator_cases written gap token with none | space | feed
  · rcases text_eq : token.text with _ | ⟨c, text⟩
    · exact absurd text_eq reads.ne_nil
    · have head := reads.isBlank_head? dark (by rw [text_eq]; rfl)
      rw [none, text_eq, List.nil_append, List.cons_prefix_cons] at same
      rw [same.1] at head
      exact absurd head (by decide)
  · rw [space, List.singleton_append, List.cons_prefix_cons] at same
    exact absurd same.1 (by decide)
  · exact feed

theorem minifyFrom_returned_blanks (gapReads : ReadsGap progress.written gap []) :
    minifyFrom progress (rebreak ['\r'] (gap.flatMap Lexeme.text)) =
      .ok progress.finish.minified := by
  have blank := isBlank_map_returned (readsGap_iff.mp gapReads).1
  have gone := minifyFrom_returned_gap gapReads
  rw [List.append_nil] at gone
  rcases gone with ⟨-, gone⟩ | ⟨-, gone⟩
  · rw [gone, rebreak_nil, minifyFrom, segmentFrom_nil]
    exact congrArg Except.ok (minified_finish_foldl_of_blank blank)
  · exact gone

theorem exists_after_piece {piece : Piece} (fresh : progress.gap = [])
    (blank : ∀ lexeme ∈ piece.gap, lexeme.shape.isBlank = true)
    (token : piece.token.shape.isBlank = false) (reads : piece.token.Reads progress.written rest)
    (unbroken : '\n' ∉ piece.token.text) :
    ∃ after : Progress,
      minifyFrom ((piece.gap.map Lexeme.returned).foldl Progress.add progress)
          (rebreak ['\r'] (piece.token.text ++ rest)) =
        minifyFrom after (rebreak ['\r'] rest) ∧
      after.gap = [] ∧
      after.written = piece.token.text.reverse ++
        ((separator progress.written (piece.gap.map Lexeme.returned) piece.token).reverse ++
          progress.written) ∧
      after.finish.minified = progress.finish.minified ++
        (separator progress.written (piece.gap.map Lexeme.returned) piece.token ++
          piece.token.text) := by
  have blank' := isBlank_map_returned blank
  have finish_eq := @minified_finish_foldl_of_blank progress _ blank'
  rcases @foldl_add_of_blank progress _ blank' with ⟨written_eq, gap_eq, -⟩
  rw [fresh, List.append_nil] at gap_eq
  generalize (piece.gap.map Lexeme.returned).foldl Progress.add progress = before at *
  rcases @add_of_token before piece.token token with ⟨written_eq', gap_eq', -⟩
  have finish_eq' := @minified_finish_add_of_token before piece.token token
  rw [written_eq, gap_eq, separator_reverse] at written_eq' finish_eq'
  rw [← written_eq] at reads
  have reads' := reads.rebreak isLineEnd_return <| by
    intro line
    rw [line] at token
    cases token
  refine ⟨before.add piece.token, ?_, gap_eq', written_eq', finish_eq'.trans (by rw [finish_eq])⟩
  rw [rebreak_append, rebreak_of_not_mem unbroken]
  exact minifyFrom_append_of_reads reads'

/-- The same is written with carriage returns in place of line feeds just if all gaps between tokens
are indifferent. -/
theorem minifyFrom_returned_iff (fresh : progress.gap = [])
    (areCut : AreCut progress.written pieces trailing)
    (unbroken : ∀ piece ∈ pieces, '\n' ∉ piece.token.text) :
    minifyFrom progress (rebreak ['\r'] (Segmentation.source ⟨pieces, trailing⟩)) =
        .ok (progress.finish.minified ++ Segmentation.minified ⟨pieces, trailing⟩) ↔
      ∀ piece ∈ pieces, piece.IsIndifferent := by
  induction pieces generalizing progress with
  | nil =>
      simpa [Segmentation.source, Segmentation.minified] using minifyFrom_returned_blanks areCut
  | cons piece pieces ih =>
      have blank := ((isBlank_of_areCut areCut).1 piece List.mem_cons_self).1
      rcases areCut with ⟨gapReads, token, reads, separator_eq, later⟩
      rcases List.forall_mem_cons.mp unbroken with ⟨here, unbroken⟩
      have minified_eq : Segmentation.minified ⟨piece :: pieces, trailing⟩ =
          piece.separator ++ (piece.token.text ++ Segmentation.minified ⟨pieces, trailing⟩) := by
        simp [Segmentation.minified]
      rw [source_cons, minified_eq, List.forall_mem_cons]
      rcases minifyFrom_returned_gap gapReads with
        ⟨noLine, gone⟩ | ⟨⟨lexeme, lexeme_mem, line⟩, gone⟩
      · rcases exists_after_piece fresh blank token reads here with
          ⟨after, gone', fresh', written_eq, finish_eq⟩
        rw [gone, gone']
        rcases separator_returned gapReads separator_eq noLine with
          ⟨same, indifferent⟩ | ⟨feed, other, different⟩
        · rw [same] at written_eq finish_eq
          rw [← written_eq] at later
          have rest_iff := ih fresh' later unbroken
          rw [finish_eq, List.append_assoc, List.append_assoc] at rest_iff
          rw [rest_iff]
          exact (and_iff_right indifferent).symm
        · constructor
          · intro same
            have front := prefix_of_minifyFrom same
            rw [finish_eq, feed] at front
            exact absurd (eq_feed_of_written reads token front) other
          · rintro ⟨indifferent, -⟩
            exact absurd indifferent different
      · -- The token and all that follows it are in the comment.
        constructor
        · intro same
          rw [gone] at same
          simpa [reads.ne_nil] using Except.ok.inj same
        · rintro ⟨indifferent, -⟩
          exact absurd line (indifferent.1 lexeme lexeme_mem)

end Cutting

/-! ## Block comments without an end -/

section Endless

variable {progress : Progress} {lexemes : List Lexeme} {source rest : Text}
  {failure : Unterminated}

theorem line_foldl_add (progress : Progress) (lexemes : List Lexeme) :
    (lexemes.foldl Progress.add progress).line =
      progress.line + (lexemes.flatMap Lexeme.text).count '\n' := by
  induction lexemes generalizing progress with
  | nil => rfl
  | cons lexeme lexemes ih =>
      have line_eq : (progress.add lexeme).line = progress.line + lexeme.text.count '\n' := by
        cases blank : lexeme.shape.isBlank <;> simp [Progress.add, blank]
      rw [List.foldl_cons, ih, line_eq, List.flatMap_cons, List.count_append, Nat.add_assoc]

theorem readsAll_rebreak (reads : ReadsAll progress lexemes rest)
    (inLine : '\n' ∉ lexemes.flatMap Lexeme.text) (nonempty : rest ≠ [])
    (goesOn : rest.head? ≠ some '\n') : ReadsAll progress lexemes (rebreak ['\r'] rest) := by
  induction lexemes generalizing progress with
  | nil => trivial
  | cons lexeme lexemes ih =>
      rcases reads with ⟨here, later⟩
      rw [List.flatMap_cons, List.mem_append, not_or] at inLine
      refine ⟨?_, ih later inLine.2⟩
      -- A line comment would end at a line feed, and there is none up to the rest.
      have notLine : lexeme.shape ≠ .lineComment := by
        intro line
        rcases here.line_ends line with nothing | feed
        · exact nonempty (List.append_eq_nil_iff.mp nothing).2
        · rcases before_eq : lexemes.flatMap Lexeme.text with _ | ⟨c, before⟩
          · rw [before_eq] at feed
            exact goesOn feed
          · rw [before_eq] at feed inLine
            obtain rfl : c = '\n' := by simpa using feed
            exact inLine.2 List.mem_cons_self
      have here' := here.rebreak isLineEnd_return notLine
      rwa [rebreak_append, rebreak_of_not_mem inLine.2] at here'

theorem exists_lexemes_of_error (failed : segment source = .error failure) :
    ∃ lexemes c rest, source = lexemes.flatMap Lexeme.text ++ c :: rest ∧
      ReadsAll {} lexemes (c :: rest) ∧
      Lexeme.measure (lexemes.foldl Progress.add {}).written c rest =
        .error failure.construct ∧
      failure.line = 1 + (lexemes.flatMap Lexeme.text).count '\n' := by
  rcases exists_lexemes {} source with ⟨lexemes, rest, rfl, reads, stuck⟩
  rw [segment, segmentFrom_append_of_readsAll reads] at failed
  rcases rest with _ | ⟨c, rest⟩
  · rw [segmentFrom_nil] at failed
    cases failed
  · rcases stuck c rest rfl with ⟨construct, measured⟩
    rw [segmentFrom_of_error measured] at failed
    cases failed
    exact ⟨lexemes, c, rest, rfl, reads, measured, line_foldl_add {} lexemes⟩

theorem segment_error_of_minify (failed : minify source = .error failure) :
    segment source = .error failure := by
  cases cut : segment source with
  | error other =>
      rw [minify, cut] at failed
      exact congrArg Except.error (Except.error.inj failed)
  | ok segmentation =>
      rw [minify, cut] at failed
      cases failed

/-- A block comment without an end is reported alike just if it begins in the first line, since
carriage returns are not counted. -/
theorem minify_returned_of_error (failed : segment source = .error failure)
    (block : failure.construct = .blockComment) :
    minify (rebreak ['\r'] source) = minify source ↔ failure.line = 1 := by
  have failed' : minify source = .error failure := by
    rw [minify, failed]
    rfl
  rw [failed']
  constructor
  · intro same
    rcases exists_lexemes_of_error (segment_error_of_minify same) with
      ⟨lexemes, c, rest, source_eq, -, -, line_eq⟩
    have inLine : '\n' ∉ lexemes.flatMap Lexeme.text := by
      intro feed
      apply not_mem_rebreak_return source
      rw [source_eq]
      exact List.mem_append_left _ feed
    rw [line_eq, List.count_eq_zero_of_not_mem inLine]
  · intro first
    rcases exists_lexemes_of_error failed with ⟨lexemes, c, rest, rfl, reads, measured, line_eq⟩
    have inLine : '\n' ∉ lexemes.flatMap Lexeme.text := by
      apply List.count_eq_zero.mp
      omega
    rw [block] at measured
    have measured' := measure_rebreak_of_blockComment isLineEnd_return measured
    rcases measure_eq_error_blockComment_iff.mp measured with ⟨rfl, body, rfl, -⟩
    have reads' := readsAll_rebreak reads inLine (by simp) (by simp)
    rw [rebreak_append, rebreak_of_not_mem inLine, minify, segment]
    rw [rebreak_cons (by decide)] at reads' ⊢
    rw [segmentFrom_append_of_readsAll reads', segmentFrom_of_error measured', line_foldl_add,
      List.count_eq_zero_of_not_mem inLine, ← block]
    simp [Except.map, ← first]

end Endless

/-! ## Scripts without literals -/

theorem IsCompleted.exists_reads {source : Text} {lexeme : Lexeme}
    (completed : IsCompleted source lexeme) : ∃ written rest, lexeme.Reads written rest := by
  rcases completed with ⟨before, rest, -, reads⟩
  exact ⟨_, _, (readsAll_append.mp reads).2.1⟩

theorem Lexeme.Reads.not_mem_of_code {lexeme : Lexeme} {written rest : Text}
    (reads : lexeme.Reads written rest) (code : lexeme.shape = .code) : '\n' ∉ lexeme.text := by
  rw [← reads.unspaced_text code, unspaced, List.mem_filter]
  rintro ⟨-, dark⟩
  exact absurd dark (by decide)

theorem Lexeme.Reads.not_mem_of_lineComment {lexeme : Lexeme} {written rest : Text}
    (reads : lexeme.Reads written rest) (line : lexeme.shape = .lineComment) :
    '\n' ∉ lexeme.text := by
  rcases reads.exists_lineComment line with ⟨body, rfl, unbroken⟩
  simpa using unbroken

/-- Of a script without literals and directives, minifying drops nothing but white space and the
comments, if a line comment ends at a line feed; so it drops no code behind a carriage return if
there is only white space between that and the line feed. With carriage returns in place of line
feeds the result is the same just if all gaps between tokens are indifferent, or if it is about a
block comment that has no end and begins in the first line. -/
theorem minify_without_literals {source : Text}
    (code : ∀ lexeme, IsCompleted source lexeme →
      lexeme.shape.isBlank = false → lexeme.shape = .code)
    (comment : ∀ failure, segment source = .error failure → failure.construct = .blockComment) :
    (∀ segmentation, segment source = .ok segmentation →
      unspaced segmentation.minified = unspaced (uncommented (· = '\n') source) ∧
      ((∀ lexeme ∈ segmentation.lexemes,
          lexeme.shape = .lineComment → lexeme.EndsInBlanks isLineBreak) →
        unspaced segmentation.minified = unspaced (uncommented isLineBreak source)) ∧
      (minify (rebreak ['\r'] source) = minify source ↔
        ∀ piece ∈ segmentation.pieces, piece.IsIndifferent)) ∧
    ∀ failure, segment source = .error failure →
      (minify (rebreak ['\r'] source) = minify source ↔ failure.line = 1) := by
  constructor
  · intro segmentation cut
    have tokens : ∀ lexeme ∈ segmentation.lexemes,
        lexeme.shape.isBlank = false → lexeme.shape = .code :=
      fun lexeme lexeme_mem => code lexeme ((isCompleted_iff_mem cut).mpr lexeme_mem)
    refine ⟨?_, ?_, ?_⟩
    · apply unspaced_minified_eq cut (by simp) _ tokens
      intro lexeme lexeme_mem line before c after text_eq feed
      rcases ((isCompleted_iff_mem cut).mpr lexeme_mem).exists_reads with ⟨_, _, reads⟩
      obtain rfl : c = '\n' := by simpa using feed
      apply absurd _ (reads.not_mem_of_lineComment line)
      simp [text_eq]
    · intro inBlanks
      exact unspaced_minified_eq cut (by decide) inBlanks tokens
    · have minified_eq : minify source = .ok segmentation.minified := by
        rw [minify, cut]
        rfl
      have unbroken : ∀ piece ∈ segmentation.pieces, '\n' ∉ piece.token.text := by
        intro piece piece_mem
        have token_mem : piece.token ∈ segmentation.lexemes := by
          simpa [Segmentation.lexemes] using Or.inl ⟨piece, piece_mem, Or.inr rfl⟩
        rcases ((isCompleted_iff_mem cut).mpr token_mem).exists_reads with ⟨_, _, reads⟩
        exact reads.not_mem_of_code (tokens _ token_mem
          ((isBlank_of_areCut (segment_eq_ok_iff.mp cut).2).1 piece piece_mem).2)
      rcases segment_eq_ok_iff.mp cut with ⟨rfl, areCut⟩
      rw [minified_eq]
      exact @minifyFrom_returned_iff {} _ _ rfl areCut unbroken
  · intro failure failed
    exact minify_returned_of_error failed (comment failure failed)

theorem minify_without_literals_comments :
    ∃ segmentation, segment "a // b\nc /* d\n */ + /* e */\n- f".toList = .ok segmentation ∧
      unspaced segmentation.minified =
        unspaced (uncommented isLineBreak "a // b\nc /* d\n */ + /* e */\n- f".toList) ∧
      (minify (rebreak ['\r'] "a // b\nc /* d\n */ + /* e */\n- f".toList) =
          minify "a // b\nc /* d\n */ + /* e */\n- f".toList ↔
        ∀ piece ∈ segmentation.pieces, piece.IsIndifferent) := by
  have plain : ∃ segmentation,
      segment "a // b\nc /* d\n */ + /* e */\n- f".toList = .ok segmentation ∧
        ∀ lexeme ∈ segmentation.lexemes,
          ((lexeme.shape.isBlank || lexeme.shape = .code) &&
            (lexeme.shape ≠ .lineComment || !lexeme.text.any isLineBreak)) = true :=
    exists_segmentation_of_all (by decide +kernel)
  rcases plain with ⟨segmentation, cut, plain⟩
  have settled := @minify_without_literals "a // b\nc /* d\n */ + /* e */\n- f".toList
    (by
      intro lexeme completed token
      have here := plain lexeme ((isCompleted_iff_mem cut).mp completed)
      simp only [token, Bool.false_or, Bool.and_eq_true, decide_eq_true_eq] at here
      exact here.1)
    (by
      intro failure failed
      rw [cut] at failed
      cases failed)
  rcases settled.1 segmentation cut with ⟨-, kept, returned⟩
  refine ⟨segmentation, cut, kept ?_, returned⟩
  intro lexeme lexeme_mem line before c after text_eq breaks
  have here := plain lexeme lexeme_mem
  simp [line, text_eq, breaks] at here

/-- A carriage return does not end a line comment, so the code behind it is dropped with the
comment. -/
theorem return_hides_code :
    ¬∀ source, (uncommented isLineBreak source).all
        (fun c => Pageweave.isBlank c || isOrdinary c) = true →
      ∀ minified, minify source = .ok minified →
        unspaced minified = unspaced (uncommented isLineBreak source) := by
  intro kept
  have lost := kept "a // c\rb".toList (by decide) "a".toList (by decide +kernel)
  exact absurd lost (by decide)

end Pageweave.Script
