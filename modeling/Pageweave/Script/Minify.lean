import Pageweave.Script.Lexeme

/-!
# Minifying scripts

A script is minified by dropping its blanks and writing its tokens one after the other. Between
two tokens that had a gap between them a separator is written where it could matter: a line feed
where a statement may have ended, and otherwise a space where the two tokens would merge.

`segment` cuts the source into pieces, each a gap, the separator chosen for it and a token; the
minified script is read off the pieces, and so is the source.
-/

namespace Pageweave.Script

/-- Why a script could not be minified: a construct without an end, and the line it starts on. -/
structure Unterminated where
  /-- The construct that has no end. -/
  construct : Construct
  /-- The number of the line where the construct starts, counted from one. -/
  line : Nat
deriving DecidableEq, Repr

/-- The message for a script that could not be minified. -/
def Unterminated.message (failure : Unterminated) : Text :=
  "unterminated ".toList ++ failure.construct.name.toList ++ " starting on line ".toList ++
    Text.ofNat failure.line

/-- A token with the blanks before it and the separator written in their place. -/
structure Piece where
  /-- The blank lexemes between the previous token and this one. -/
  gap : List Lexeme
  /-- What is written in place of the gap. -/
  separator : Text
  /-- The token. -/
  token : Lexeme
deriving DecidableEq, Repr

/-- A script cut into lexemes. -/
structure Segmentation where
  /-- The tokens in their order, each with the gap before it. -/
  pieces : List Piece
  /-- The blanks after the last token. -/
  trailing : List Lexeme
deriving DecidableEq, Repr

/-- The script that was cut. -/
def Segmentation.source (segmentation : Segmentation) : Text :=
  segmentation.pieces.flatMap (fun piece => piece.gap.flatMap Lexeme.text ++ piece.token.text) ++
    segmentation.trailing.flatMap Lexeme.text

/-- The minified script. -/
def Segmentation.minified (segmentation : Segmentation) : Text :=
  segmentation.pieces.flatMap fun piece => piece.separator ++ piece.token.text

/-- What is written in place of a gap between the text written so far (latest character first)
and the next token, whose first character is `first`. A directive may expand to a word, so it is
kept apart like one. -/
def separator (written : Text) (gap : List Lexeme) (next : Lexeme) : Text :=
  match written, next.text with
  | previous :: _, first :: _ =>
      let previousWord := isWord previous || Text.startsWith [')', ':'] written
      let nextWord := isWord first || next.shape = .directive
      let number := ((lastWord written).head?.map Char.isDigit).getD false
      if gap.isEmpty then []
      else if gap.any Lexeme.breaksLine && endsStatement previous && startsStatement first then
        ['\n']
      else if (previousWord && nextWord) || (previous = '+' && first = '+') ||
          (previous = '-' && first = '-') || (previous = '/' && first = '/') ||
          (first = '.' && number) then
        [' ']
      else []
  | _, _ => []

/-- How far a script has been cut. All lists have the latest item first. -/
structure Progress where
  /-- The pieces completed so far. -/
  pieces : List Piece := []
  /-- The blanks since the last token. -/
  gap : List Lexeme := []
  /-- The minified text of the pieces. -/
  written : Text := []
  /-- The number of the line that the rest of the source begins on. -/
  line : Nat := 1

/-- The progress after one more lexeme. -/
def Progress.add (progress : Progress) (lexeme : Lexeme) : Progress :=
  let line := progress.line + lexeme.text.count '\n'
  if lexeme.shape.isBlank then { progress with gap := lexeme :: progress.gap, line }
  else
    let separator := separator progress.written progress.gap lexeme
    { pieces := ⟨progress.gap.reverse, separator, lexeme⟩ :: progress.pieces
      gap := []
      written := lexeme.text.reverse ++ (separator.reverse ++ progress.written)
      line }

/-- Cuts the rest of a script, given how far it has been cut. -/
def segmentFrom (progress : Progress) : Text → Except Unterminated Segmentation
  | [] => .ok ⟨progress.pieces.reverse, progress.gap.reverse⟩
  | c :: rest =>
      match Lexeme.measure progress.written c rest with
      | .error construct => .error ⟨construct, progress.line⟩
      | .ok (shape, extent) =>
          segmentFrom (progress.add ⟨shape, c :: rest.take extent⟩) (rest.drop extent)
termination_by source => source.length
decreasing_by
  simp only [List.length_drop, List.length_cons]
  omega

/-- Cuts a script into lexemes. -/
def segment (source : Text) : Except Unterminated Segmentation :=
  segmentFrom {} source

/-- The script without its comments and its redundant white space. -/
def minify (source : Text) : Except Unterminated Text :=
  (segment source).map Segmentation.minified

end Pageweave.Script
