import Pageweave.Text.Blank

/-!
# Lexemes of a script

A script is cut into lexemes: blank ones, which are white space and comments, and tokens, which
are literals, template directives and single characters of code. `Lexeme.measure` recognises the
lexeme at the front of the remaining source and says how many further characters belong to it.

Only one decision depends on what came before: a slash begins a regular expression literal unless
the code before it ends in an operand. `regexAllowed` takes that decision from the minified text
that was written so far, which is kept with its latest character first.
-/

namespace Pageweave.Script

/-- A character that can be part of a word, that is of a name, a keyword or a number. Every
character beyond ASCII counts as one. -/
def isWord (c : Char) : Bool :=
  c.isAlphanum || c = '_' || c = '$' || 128 ≤ c.toNat

/-- A character after which a line break may end a statement. -/
def endsStatement (c : Char) : Bool :=
  isWord c || [')', ']', '\x7d', '\x27', '\x22', '\x60', '+', '-', '/'].contains c

/-- A character that may begin a statement on the next line. -/
def startsStatement (c : Char) : Bool :=
  isWord c || ['(', '[', '\x7b', '\x27', '\x22', '\x60', '+', '-', '!', '~', '/'].contains c

/-- What a lexeme is. -/
inductive Shape where
  /-- One character of white space. -/
  | space
  /-- A comment from `//` up to the line feed that ends its line. -/
  | lineComment
  /-- A comment between `/*` and `*/`. -/
  | blockComment
  /-- A string literal with its quotes. -/
  | string
  /-- A template literal with its backticks. -/
  | template
  /-- A regular expression literal between its slashes. -/
  | regex
  /-- A template directive from `(:` through `:)`. -/
  | directive
  /-- One other character. -/
  | code
deriving DecidableEq, Repr

/-- Whether a lexeme of this shape is white space or a comment. -/
def Shape.isBlank : Shape → Bool
  | space | lineComment | blockComment => true
  | string | template | regex | directive | code => false

/-- A piece of a script: its shape and its exact text. -/
structure Lexeme where
  /-- What the lexeme is. -/
  shape : Shape
  /-- The characters of the lexeme as they stand in the source. -/
  text : Text
deriving DecidableEq, Repr

/-- Whether a blank lexeme counts as a line break: a line feed, a carriage return, a line comment,
or a block comment with a line feed in it. -/
def Lexeme.breaksLine (lexeme : Lexeme) : Bool :=
  match lexeme.shape with
  | .space => lexeme.text = ['\n'] || lexeme.text = ['\r']
  | .lineComment => true
  | .blockComment => lexeme.text.contains '\n'
  | _ => false

/-- A construct of the language that has an opening and a closing delimiter. -/
inductive Construct where
  /-- A comment between `/*` and `*/`. -/
  | blockComment
  /-- A string literal. -/
  | string
  /-- A template literal. -/
  | template
  /-- A regular expression literal. -/
  | regex
deriving DecidableEq, Repr

/-- The name of a construct in messages. -/
def Construct.name : Construct → String
  | blockComment => "block comment"
  | string => "string literal"
  | template => "template literal"
  | regex => "regular expression literal"

/-- The length of a string literal after its opening quote, through the closing quote, added to
`taken`. A line feed ends the literal too early unless a backslash stands before it. -/
def stringExtent (quote : Char) (taken : Nat) : Text → Option Nat
  | [] => none
  | c :: rest =>
      if c = '\\' then
        match rest with
        | [] => none
        | _ :: rest => stringExtent quote (taken + 2) rest
      else if c = '\n' then none
      else if c = quote then some (taken + 1)
      else stringExtent quote (taken + 1) rest

/-- The length of a template literal after its opening backtick, through the next backtick that
no backslash stands before, added to `taken`. -/
def templateExtent (taken : Nat) : Text → Option Nat
  | [] => none
  | c :: rest =>
      if c = '\\' then
        match rest with
        | [] => none
        | _ :: rest => templateExtent (taken + 2) rest
      else if c = '\x60' then some (taken + 1)
      else templateExtent (taken + 1) rest

/-- The length of a regular expression literal after its opening slash, through the slash that
ends it, added to `taken`. A slash inside a character class does not end the literal. -/
def regexExtent (inClass : Bool) (taken : Nat) : Text → Option Nat
  | [] => none
  | c :: rest =>
      if c = '\n' then none
      else if c = '\\' then
        match rest with
        | [] => none
        | _ :: rest => regexExtent inClass (taken + 2) rest
      else if c = '[' then regexExtent true (taken + 1) rest
      else if c = ']' then regexExtent false (taken + 1) rest
      else if c = '/' && !inClass then some (taken + 1)
      else regexExtent inClass (taken + 1) rest

/-- The length of a block comment after its opening delimiter, through the first `*/`, added to
`taken`. -/
def blockCommentExtent (taken : Nat) : Text → Option Nat
  | [] => none
  | c :: rest =>
      if c = '*' && rest.head? = some '/' then some (taken + 2)
      else blockCommentExtent (taken + 1) rest

/-- The length of a directive after its opening parenthesis, if one stands there: a colon, then
characters other than `:` and `)`, then `:)`. -/
def directiveExtent : Text → Option Nat
  | ':' :: rest =>
      let body := rest.takeWhile fun c => c ≠ ':' && c ≠ ')'
      match rest.drop body.length with
      | ':' :: ')' :: _ => some (body.length + 3)
      | _ => none
  | _ => none

/-- The words after which an operand is expected, so that a slash begins a literal. -/
def operatorWords : List Text :=
  ["return", "typeof", "instanceof", "in", "of", "new", "delete", "void", "throw", "case", "do",
    "else", "yield", "await"].map String.toList

/-- The word at the end of the text written so far (latest character first), or the empty text. -/
def lastWord (written : Text) : Text :=
  (written.takeWhile isWord).reverse

/-- The punctuation that an operand may end with. -/
def operandEnds : List Char :=
  [')', ']', '\x7d', '\x27', '\x22', '\x60']

/-- Whether a slash begins a regular expression literal after the text written so far (latest
character first), rather than being a division. -/
def regexAllowed (written : Text) : Bool :=
  match written with
  | [] => true
  | c :: _ =>
      if isWord c then operatorWords.contains (lastWord written)
      else !operandEnds.contains c

/-- Recognises the lexeme that begins with `c` when `rest` follows: its shape, and how many
characters of `rest` belong to it. Fails with the construct that has no end. -/
def Lexeme.measure (written : Text) (c : Char) (rest : Text) : Except Construct (Shape × Nat) :=
  if Pageweave.isBlank c then .ok (.space, 0)
  else if c = '/' && rest.head? = some '/' then
    .ok (.lineComment, (rest.takeWhile (· ≠ '\n')).length)
  else if c = '/' && rest.head? = some '*' then
    closed .blockComment .blockComment (blockCommentExtent 1 rest.tail)
  else if c = '\x27' || c = '\x22' then closed .string .string (stringExtent c 0 rest)
  else if c = '\x60' then closed .template .template (templateExtent 0 rest)
  else if c = '(' then
    match directiveExtent rest with
    | some extent => .ok (.directive, extent)
    | none => .ok (.code, 0)
  else if c = '/' && regexAllowed written then closed .regex .regex (regexExtent false 0 rest)
  else .ok (.code, 0)
where
  /-- The measured construct, or the failure that it has no end. -/
  closed (construct : Construct) (shape : Shape) (extent : Option Nat) :
      Except Construct (Shape × Nat) :=
    match extent with
    | some extent => .ok (shape, extent)
    | none => .error construct

end Pageweave.Script
