import Pageweave.Text.Basic

/-!
# Recognised starts of texts

A reader takes something off the start of a text and leaves a shorter rest. The rest comes with
the proof that it is shorter, so a reader can be used again on the rest until the text is used up.
-/

namespace Pageweave

/-- What was recognised at the start of a text, and the rest of the text. -/
structure Found (α : Type) (text : Text) where
  /-- What was recognised. -/
  value : α
  /-- What follows it. -/
  rest : Text
  /-- Something was taken off. -/
  shorter : rest.length < text.length

namespace Found

/-- The same finding at the start of a text that is at least as long. -/
def widen {α : Type} {text longer : Text} (found : Found α text)
    (h : text.length ≤ longer.length) : Found α longer :=
  { found with shorter := Nat.lt_of_lt_of_le found.shorter h }

/-- The finding with a function applied to what was recognised. -/
def map {α β : Type} {text : Text} (f : α → β) (found : Found α text) : Found β text :=
  { found with value := f found.value }

end Found

end Pageweave
