import Pageweave.Context
import Pageweave.Text.CaseFold

/-!
# Data snapshots

A page can hand its data to client-side scripts: its comments are removed, and before the first
anchor a script block is inserted that assigns the JSON text of the context to a global name. A
page without the anchor gets no block.
-/

namespace Pageweave.Snapshot

/-- The text after the comment at the start of a text: a comment begins with `<!--` and ends at the
first `-->` after that. -/
def afterComment? (text : Text) : Option Text := do
  let body ← Text.after? "<!--".toList text
  let (_, rest) ← Text.search (Text.after? "-->".toList) body
  return rest

theorem length_lt_of_afterComment? {text rest : Text} (h : afterComment? text = some rest) :
    rest.length < text.length := by
  simp only [afterComment?, Option.bind_eq_bind, Option.bind_eq_some_iff, Prod.exists,
    Option.pure_def, Option.some.injEq] at h
  obtain ⟨body, text_eq, before, after, found, rfl⟩ := h
  obtain ⟨place, body_eq, place_eq⟩ := Text.search_eq_some found
  rw [Text.after?_eq_some_iff] at text_eq place_eq
  rw [text_eq, body_eq, place_eq]
  simp
  omega

/-- The text without its comments; they are found from left to right and do not overlap. -/
def removeComments (text : Text) : Text :=
  match _h : Text.search afterComment? text with
  | none => text
  | some (before, rest) => before ++ removeComments rest
termination_by text.length
decreasing_by
  obtain ⟨place, text_eq, found⟩ := Text.search_eq_some _h
  have := length_lt_of_afterComment? found
  rw [text_eq]
  simp
  omega

/-- The JSON text of a context in a form that cannot end a script element. -/
def safeJson (context : Context) : Text :=
  Text.replaceAll "</".toList "<\\/".toList context.toJson

/-- The script block that assigns the data of a context to a global name. -/
def block (clientVariable : Text) (context : Context) : Text :=
  "<script type=\"text/javascript\">window.".toList ++ clientVariable ++ " = ".toList ++
    safeJson context ++ ";</script>\n".toList

/-- The text before and from the first anchor on. -/
def splitAtAnchor? (anchor text : Text) : Option (Text × Text) :=
  Text.search (fun place => if Text.startsWithLetters anchor place then some place else none) text

/-- The content without its comments and with a script block before the first anchor. -/
def embed (anchor clientVariable : Text) (context : Context) (content : Text) : Text :=
  let text := removeComments content
  match splitAtAnchor? anchor text with
  | none => text
  | some (before, place) => before ++ block clientVariable context ++ place

variable {anchor clientVariable content before place : Text} {context : Context}

theorem removeComments_of_none (noComment : Text.search afterComment? content = none) :
    removeComments content = content := by
  rw [removeComments]
  split
  · rfl
  · next found => simp [noComment] at found

/-- A text without comments and without the anchor is not changed by embedding. -/
theorem embed_of_none (noComment : Text.search afterComment? content = none)
    (noAnchor : splitAtAnchor? anchor content = none) :
    embed anchor clientVariable context content = content := by
  rw [embed, removeComments_of_none noComment, noAnchor]

/-- The script block is put before the first anchor. -/
theorem embed_of_some
    (anchored : splitAtAnchor? anchor (removeComments content) = some (before, place)) :
    embed anchor clientVariable context content =
      before ++ (block clientVariable context ++ place) := by
  rw [embed, anchored]
  simp

end Pageweave.Snapshot
