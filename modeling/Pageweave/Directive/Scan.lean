import Pageweave.Context
import Pageweave.Directive.Basic
import Pageweave.Notice

/-!
# Scanning a text for directives

A scan goes through the tags of a text from left to right. A substitution puts the text of a value
in place of its tag and goes on at the start of that text, so directives in a value are acted on as
well; every other tag is passed over. The number of substitutions in one scan is limited.

The outcome is the list of steps taken, each with the text passed before its tag. The resulting
text, the directives met and the notices are read off the steps.
-/

namespace Pageweave

/-- What a scan does with a tag. -/
inductive Action where
  /-- The tag gives way to the text of a value; `missing` is the segment the value lacks, if the
  key path did not lead to its end. -/
  | substituted (keyPath value : Text) (missing : Option Text)
  /-- The tag stays, since the context has no value for it. -/
  | unresolved (keyPath : Text)
  /-- The tag stays, since no more substitutions are allowed. -/
  | refused (keyPath : Text)
  /-- The tag stays, to be replaced by another view. -/
  | inclusion (path : Text)
  /-- The tag stays, since it has no meaning. -/
  | unknown
deriving DecidableEq, Repr

/-- One step of a scan. -/
structure Step where
  /-- The text between the place where the scan went on and the tag. -/
  before : Text
  /-- The tag. -/
  tag : Text
  /-- What is done with the tag. -/
  action : Action
deriving DecidableEq, Repr

/-- What a step leaves of the text it passed: the tag is gone if a value takes its place, since the
value is scanned by the steps that follow. -/
def Step.text (step : Step) : Text :=
  match step.action with
  | .substituted _ _ _ => step.before
  | _ => step.before ++ step.tag

/-- The steps of a scan and the text after the last of them. -/
structure Scan where
  /-- The steps in the order they are taken. -/
  steps : List Step
  /-- The text after the last tag. -/
  tail : Text
deriving DecidableEq, Repr

namespace Scan

/-- The scan that takes `step` first. -/
def cons (step : Step) (scan : Scan) : Scan :=
  { scan with steps := step :: scan.steps }

/-- Scans a text with at most `limit` substitutions. -/
def run (context : Context) (limit : Nat) (text : Text) : Scan :=
  match _h : Tag.first? text with
  | none => ⟨[], text⟩
  | some (before, tag, rest) =>
      match Directive.ofTag? tag with
      | none => (run context limit rest).cons ⟨before, tag, .unknown⟩
      | some (.inclusion _ path) => (run context limit rest).cons ⟨before, tag, .inclusion path⟩
      | some (.substitution _ keyPath) =>
          match limit with
          | 0 => (run context 0 rest).cons ⟨before, tag, .refused keyPath⟩
          | limit + 1 =>
              match context.resolve keyPath with
              | .missing =>
                  (run context (limit + 1) rest).cons ⟨before, tag, .unresolved keyPath⟩
              | .found value =>
                  (run context limit (value.interpolated ++ rest)).cons
                    ⟨before, tag, .substituted keyPath value.interpolated none⟩
              | .partly value missing =>
                  (run context limit (value.interpolated ++ rest)).cons
                    ⟨before, tag, .substituted keyPath value.interpolated (some missing)⟩
termination_by (limit, text.length)
decreasing_by
  all_goals
    have shorter := Tag.length_rest_lt_of_first? _h
    first
    | exact Prod.Lex.right _ shorter
    | exact Prod.Lex.left _ _ (Nat.lt_succ_self _)

/-- The text a scan leaves. -/
def text (scan : Scan) : Text :=
  scan.steps.flatMap Step.text ++ scan.tail

/-- The substitutions met, in their order. -/
def substitutions (scan : Scan) : List Directive :=
  scan.steps.filterMap fun step =>
    match step.action with
    | .substituted keyPath _ _ | .unresolved keyPath | .refused keyPath =>
        some (.substitution step.tag keyPath)
    | .inclusion _ | .unknown => none

/-- The paths of the inclusions met with their tags, in their order. -/
def inclusions (scan : Scan) : List (Text × Text) :=
  scan.steps.filterMap fun step =>
    match step.action with
    | .inclusion path => some (step.tag, path)
    | _ => none

/-- The tags of the substitutions that were not made. -/
def unresolved (scan : Scan) : List Text :=
  scan.steps.filterMap fun step =>
    match step.action with
    | .unresolved _ | .refused _ => some step.tag
    | _ => none

/-- The tags without a meaning. -/
def unknown (scan : Scan) : List Text :=
  scan.steps.filterMap fun step =>
    match step.action with
    | .unknown => some step.tag
    | _ => none

/-- The notices of some steps of a scan with the given limit; `reported` says whether the limit has
been reported before. -/
def noticesOf (limit : Nat) (reported : Bool) : List Step → List Notice
  | [] => []
  | step :: steps =>
      match step.action with
      | .substituted _ _ none | .inclusion _ => noticesOf limit reported steps
      | .substituted _ _ (some missing) =>
          .partialValue step.tag missing :: noticesOf limit reported steps
      | .unresolved _ => .missingValue step.tag :: noticesOf limit reported steps
      | .refused _ =>
          if reported then noticesOf limit true steps
          else .substitutionLimit limit :: noticesOf limit true steps
      | .unknown => .unknownDirective step.tag :: noticesOf limit reported steps

/-- The notices of a scan with the given limit. The limit is reported once. -/
def notices (limit : Nat) (scan : Scan) : List Notice :=
  noticesOf limit false scan.steps

end Scan

end Pageweave
