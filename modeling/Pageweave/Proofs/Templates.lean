import Mathlib.Computability.Language
import Mathlib.Data.List.Infix
import Pageweave.Proofs.Minified

/-!
# Template literals in template literals

In the language a template literal goes on to its matching backtick, and the code of its
substitutions may have further literals in it. A template lexeme goes on to the next backtick only,
so the characters of a literal in a literal are read as code, those of a literal in such a literal
belong to a lexeme again, and so on.

A literal is kept with all literals in it, outside the code of their substitutions, if that code has
no backtick of its own where it is in a lexeme, and if the characters that are read as code are
tokens by themselves (`literals_kept_of_segment`). It need not be kept otherwise
(`nested_literal_lost`).

The proof goes over the two kinds of syntax at once, and over both ways of reading each of them.
-/

namespace Pageweave.Script

/-! ## Syntax -/

mutual

/-- The inside of a template literal, from a place in it on. -/
inductive Parts where
  | nil
  | character (c : Char) (rest : Parts)
  | escape (c : Char) (rest : Parts)
  | substitution (code : Code) (rest : Parts)

/-- The code of a substitution, from a place in it on, cut at the template literals in it. -/
inductive Code where
  | nil
  | lexemes (lexemes : List Lexeme) (rest : Code)
  | literal (parts : Parts) (rest : Code)

end

/-- A text between backticks. -/
def quoted (text : Text) : Text :=
  '\x60' :: (text ++ ['\x60'])

mutual

/-- The characters of the inside of a literal. -/
def Parts.text : Parts → Text
  | .nil => []
  | .character c rest => c :: rest.text
  | .escape c rest => '\\' :: c :: rest.text
  | .substitution code rest => ['$', '\x7b'] ++ code.text ++ ['\x7d'] ++ rest.text

/-- The characters of code. -/
def Code.text : Code → Text
  | .nil => []
  | .lexemes lexemes rest => lexemes.flatMap Lexeme.text ++ rest.text
  | .literal parts rest => quoted parts.text ++ rest.text

end

/-- The depth of braces behind a lexeme of code. -/
def Lexeme.depth (depth : Nat) (lexeme : Lexeme) : Option Nat :=
  if lexeme = ⟨.code, ['\x7b']⟩ then some (depth + 1)
  else if lexeme = ⟨.code, ['\x7d']⟩ then
    match depth with
    | 0 => none
    | depth + 1 => some depth
  else some depth

/-- Lexemes other than template literals that are complete where they stand before a text. -/
def AreComplete : List Lexeme → Text → Prop
  | [], _ => True
  | lexeme :: lexemes, rest =>
      lexeme.shape ≠ .template ∧ lexeme.IsComplete (lexemes.flatMap Lexeme.text ++ rest) ∧
        AreComplete lexemes rest

mutual

/-- The inside of a literal goes on to the backtick that matches the one before it. -/
def Parts.IsDelimited : Parts → Text → Prop
  | .nil, _ => True
  | .character c rest, after =>
      inTemplate c = true ∧ (c = '$' → rest.text.head? ≠ some '\x7b') ∧ rest.IsDelimited after
  | .escape _ rest, after => rest.IsDelimited after
  | .substitution code rest, after =>
      code.IsDelimited 0 ('\x7d' :: (rest.text ++ '\x60' :: after)) ∧ rest.IsDelimited after

/-- Code goes on to the brace that matches the one before it, from a depth of braces on. -/
def Code.IsDelimited : Code → Nat → Text → Prop
  | .nil, depth, _ => depth = 0
  | .lexemes lexemes rest, depth, after =>
      AreComplete lexemes (rest.text ++ after) ∧
        ∃ depth', lexemes.foldlM Lexeme.depth depth = some depth' ∧ rest.IsDelimited depth' after
  | .literal parts rest, depth, after =>
      parts.IsDelimited (rest.text ++ after) ∧ rest.IsDelimited depth after

end

/-- A character that is a token by itself in code before a text. -/
def StandsAlone (c : Char) (rest : Text) : Prop :=
  isOrdinary c = true ∨ c = '(' ∧ rest.head? ≠ some ':'

mutual

/-- The inside of a literal is kept where it is copied, or where its characters are read as code. -/
def Parts.IsSpared (isCode : Bool) : Parts → Prop
  | .nil => True
  | .character c rest => (isCode = true → StandsAlone c rest.text) ∧ rest.IsSpared isCode
  | .escape c rest => (isCode = true → StandsAlone c rest.text) ∧ rest.IsSpared isCode
  | .substitution code rest => code.IsSpared isCode ∧ rest.IsSpared isCode

/-- The literals in code are kept where the code is copied, or where it is read as code. A backtick
in copied code would end a lexeme, and a slash in code that is read could begin one. -/
def Code.IsSpared (isCode : Bool) : Code → Prop
  | .nil => True
  | .lexemes lexemes rest =>
      (isCode = false → Escaped inTemplate (lexemes.flatMap Lexeme.text)) ∧
        (isCode = true → ∀ lexeme ∈ lexemes, lexeme.shape ≠ .regex ∧ lexeme.text ≠ ['/']) ∧
        rest.IsSpared isCode
  | .literal parts rest => parts.IsSpared (!isCode) ∧ rest.IsSpared isCode

end

mutual

/-- The texts that have the characters of the inside of a literal, with anything in place of the
code between the literals in it. -/
def Parts.kept : Parts → Language Char
  | .nil => 1
  | .character c rest => {[c]} * rest.kept
  | .escape c rest => {['\\', c]} * rest.kept
  | .substitution code rest => {['$', '\x7b']} * code.kept * {['\x7d']} * rest.kept

/-- The texts that have the literals of some code, with anything between them. -/
def Code.kept : Code → Language Char
  | .nil => 1
  | .lexemes _ rest => ⊤ * rest.kept
  | .literal parts rest => {['\x60']} * parts.kept * {['\x60']} * rest.kept

end

/-! ## What lexemes write -/

/-- What is written for the first lexemes of a script. -/
def writtenBy (lexemes : List Lexeme) : Text :=
  (lexemes.foldl Progress.add {}).written.reverse

/-- Lexemes write a text and leave no gap open. -/
structure Writes (progress : Progress) (lexemes : List Lexeme) (text : Text) : Prop where
  written : (lexemes.foldl Progress.add progress).written = text.reverse ++ progress.written
  gap : (lexemes.foldl Progress.add progress).gap = []

section Writes

variable {progress progress' : Progress} {lexeme : Lexeme} {lexemes first second : List Lexeme}
  {text text' : Text}

theorem writes_nil (fresh : progress.gap = []) : Writes progress [] [] :=
  ⟨rfl, fresh⟩

theorem writes_token (fresh : progress.gap = []) (token : lexeme.shape.isBlank = false) :
    Writes progress [lexeme] lexeme.text := by
  rcases @add_of_token progress lexeme token with ⟨written_eq, gap_eq, -⟩
  refine ⟨?_, gap_eq⟩
  simpa [fresh] using written_eq

theorem Writes.append (writes : Writes progress first text)
    (writes' : Writes (first.foldl Progress.add progress) second text') :
    Writes progress (first ++ second) (text ++ text') where
  written := by simp [writes'.written, writes.written]
  gap := by simpa using writes'.gap

theorem foldl_add_congr (written_eq : progress.written = progress'.written)
    (gap_eq : progress.gap = progress'.gap) :
    (lexemes.foldl Progress.add progress).written =
        (lexemes.foldl Progress.add progress').written ∧
      (lexemes.foldl Progress.add progress).gap = (lexemes.foldl Progress.add progress').gap := by
  induction lexemes generalizing progress progress' with
  | nil => exact ⟨written_eq, gap_eq⟩
  | cons lexeme lexemes ih =>
      apply ih
      · cases blank : lexeme.shape.isBlank <;> simp [Progress.add, blank, written_eq, gap_eq]
      · cases blank : lexeme.shape.isBlank <;> simp [Progress.add, blank, gap_eq]

theorem exists_written (progress : Progress) (lexemes : List Lexeme) :
    ∃ text, (lexemes.foldl Progress.add progress).written = text ++ progress.written := by
  induction lexemes generalizing progress with
  | nil => exact ⟨[], rfl⟩
  | cons lexeme lexemes ih =>
      rcases ih (progress.add lexeme) with ⟨text, written_eq⟩
      rw [List.foldl_cons, written_eq]
      cases blank : lexeme.shape.isBlank with
      | false =>
          rw [(add_of_token blank).1]
          exact ⟨text ++ (lexeme.text.reverse ++
            (separator progress.written progress.gap lexeme).reverse), by simp⟩
      | true =>
          rw [(add_of_blank blank).1]
          exact ⟨text, rfl⟩

/-- What is written for an open gap may as well have been written before. -/
theorem writes_of_settled (token : lexeme.shape.isBlank = false)
    (writes : Writes
      { progress with
        written := (separator progress.written progress.gap lexeme).reverse ++ progress.written
        gap := [] } (lexeme :: lexemes) text) :
    Writes progress (lexeme :: lexemes)
      (separator progress.written progress.gap lexeme ++ text) := by
  generalize settled_eq : ({ progress with
    written := (separator progress.written progress.gap lexeme).reverse ++ progress.written
    gap := [] } : Progress) = settled at writes
  have same : (progress.add lexeme).written = (settled.add lexeme).written := by
    rw [(add_of_token token).1, (add_of_token token).1, ← settled_eq, separator_nil]
    simp
  have same' : (progress.add lexeme).gap = (settled.add lexeme).gap := by
    rw [(add_of_token token).2.1, (add_of_token token).2.1]
  rcases @foldl_add_congr _ _ lexemes same same' with ⟨written_eq, gap_eq⟩
  constructor
  · rw [List.foldl_cons, written_eq, ← List.foldl_cons, writes.written, ← settled_eq]
    simp
  · rw [List.foldl_cons, gap_eq]
    exact writes.gap

theorem minified_finish (written_eq : progress.written.reverse = progress.finish.minified) :
    (lexemes.foldl Progress.add progress).written.reverse =
      (lexemes.foldl Progress.add progress).finish.minified := by
  induction lexemes generalizing progress with
  | nil => exact written_eq
  | cons lexeme lexemes ih =>
      apply ih
      rw [Progress.finish, Segmentation.minified] at written_eq ⊢
      cases blank : lexeme.shape.isBlank with
      | false =>
          rcases @add_of_token progress lexeme blank with ⟨written_eq', -, pieces_eq⟩
          rw [written_eq', pieces_eq]
          simp [written_eq]
      | true =>
          rcases @add_of_blank progress lexeme blank with ⟨written_eq', -, pieces_eq⟩
          rw [written_eq', pieces_eq, written_eq]

end Writes

theorem writtenBy_append (first second : List Lexeme) :
    writtenBy first <+: writtenBy (first ++ second) := by
  rcases exists_written (first.foldl Progress.add {}) second with ⟨text, written_eq⟩
  refine ⟨text.reverse, ?_⟩
  rw [writtenBy, writtenBy, List.foldl_append, written_eq, List.reverse_append]

/-! ## Reading a literal -/

/-- Lexemes are recognised one after the other before a text, whatever is written before them. -/
def AreRead : List Lexeme → Text → Prop
  | [], _ => True
  | lexeme :: lexemes, rest =>
      (∀ written, lexeme.Reads written (lexemes.flatMap Lexeme.text ++ rest)) ∧
        AreRead lexemes rest

theorem areRead_append {first second : List Lexeme} {rest : Text} :
    AreRead (first ++ second) rest ↔
      AreRead first (second.flatMap Lexeme.text ++ rest) ∧ AreRead second rest := by
  induction first with
  | nil => simp [AreRead]
  | cons lexeme first ih => simp [AreRead, ih, and_assoc]

/-- A text is read as lexemes that write a text of a language if no gap is open before them. -/
def IsRead (kept : Language Char) (text rest : Text) : Prop :=
  ∃ own : List Lexeme, own.flatMap Lexeme.text = text ∧ AreRead own rest ∧
    ∀ progress : Progress, progress.gap = [] → ∃ text' ∈ kept, Writes progress own text'

/-- A text is read as lexemes that write a text of a language behind what is written for the gap
that is open before them. -/
def IsReadAfterGap (kept : Language Char) (text rest : Text) : Prop :=
  ∃ own : List Lexeme, own.flatMap Lexeme.text = text ∧ AreRead own rest ∧
    ∀ progress : Progress, ∃ lead, ∃ text' ∈ kept, lead ∈ [[], [' '], ['\n']] ∧
      (progress.gap = [] → lead = []) ∧ Writes progress own (lead ++ text')

/-- A text is read as the rest of a template lexeme that began before it, lexemes, and the first
part of a template lexeme that goes on behind it. -/
def IsCopied (kept : Language Char) (text rest : Text) : Prop :=
  ∀ taken, Escaped inTemplate taken → ∃ (own : List Lexeme) (taken' : Text),
    Escaped inTemplate taken' ∧
      own.flatMap Lexeme.text ++ '\x60' :: taken' = '\x60' :: (taken ++ text) ∧
      AreRead own ('\x60' :: (taken' ++ rest)) ∧
      ∀ progress : Progress, progress.gap = [] → ∃ text' ∈ kept, ∃ out,
        '\x60' :: (taken ++ text') = out ++ '\x60' :: taken' ∧ Writes progress own out

section Reading

variable {kept kept' : Language Char} {text first second rest : Text}

theorem reads_template {body : Text} (escaped : Escaped inTemplate body) (written rest : Text) :
    Lexeme.Reads ⟨.template, quoted body⟩ written rest := by
  rw [Lexeme.reads_iff]
  exact ⟨⟨body, rfl, escaped⟩, nofun, nofun⟩

theorem reads_of_standsAlone {c : Char} (alone : StandsAlone c rest) (written : Text) :
    Lexeme.Reads ⟨.code, [c]⟩ written rest := by
  refine ⟨c, [], rfl, ?_⟩
  rcases alone with ordinary | ⟨rfl, next⟩
  · exact .ordinary ordinary
  · apply Measures.parenthesis
    cases rest with
    | nil => rfl
    | cons d rest =>
        have notColon : d ≠ ':' := by simpa using next
        simp [directiveExtent, notColon]

theorem StandsAlone.append {c : Char} (alone : StandsAlone c text) (rest : Text) :
    StandsAlone c (text ++ '\x60' :: rest) := by
  rcases alone with ordinary | ⟨parenthesis, next⟩
  · exact Or.inl ordinary
  · refine Or.inr ⟨parenthesis, ?_⟩
    cases text with
    | nil => simp
    | cons d text => exact next

theorem isRead_nil : IsRead 1 [] rest :=
  ⟨[], rfl, trivial, fun _ fresh => ⟨[], rfl, writes_nil fresh⟩⟩

theorem isRead_of_standsAlone {c : Char} (alone : StandsAlone c rest) : IsRead {[c]} [c] rest := by
  refine ⟨[⟨.code, [c]⟩], rfl, ⟨fun written => reads_of_standsAlone alone written, trivial⟩, ?_⟩
  intro progress fresh
  exact ⟨[c], rfl, writes_token fresh rfl⟩

theorem IsRead.append (isRead : IsRead kept first (second ++ rest))
    (isRead' : IsRead kept' second rest) : IsRead (kept * kept') (first ++ second) rest := by
  rcases isRead with ⟨own, rfl, areRead, writes⟩
  rcases isRead' with ⟨own', rfl, areRead', writes'⟩
  refine ⟨own ++ own', by simp, areRead_append.mpr ⟨areRead, areRead'⟩, ?_⟩
  intro progress fresh
  rcases writes progress fresh with ⟨text, text_mem, writes⟩
  rcases writes' _ writes.gap with ⟨text', text_mem', writes'⟩
  exact ⟨text ++ text', Language.append_mem_mul text_mem text_mem', writes.append writes'⟩

theorem singleton_mul_singleton (first second : Text) :
    ({first} * {second} : Language Char) = {first ++ second} :=
  Set.image2_singleton

theorem IsRead.append_singleton (isRead : IsRead {first} first (second ++ rest))
    (isRead' : IsRead {second} second rest) : IsRead {first ++ second} (first ++ second) rest := by
  rw [← singleton_mul_singleton]
  exact isRead.append isRead'

theorem IsReadAfterGap.isRead (isRead : IsReadAfterGap kept text rest) : IsRead kept text rest := by
  rcases isRead with ⟨own, text_eq, areRead, writes⟩
  refine ⟨own, text_eq, areRead, ?_⟩
  intro progress fresh
  rcases writes progress with ⟨lead, text', text_mem, -, settled, writes⟩
  obtain rfl := settled fresh
  exact ⟨text', text_mem, writes⟩

theorem IsReadAfterGap.append (isRead : IsReadAfterGap kept first (second ++ rest))
    (isRead' : IsRead kept' second rest) :
    IsReadAfterGap (kept * kept') (first ++ second) rest := by
  rcases isRead with ⟨own, rfl, areRead, writes⟩
  rcases isRead' with ⟨own', rfl, areRead', writes'⟩
  refine ⟨own ++ own', by simp, areRead_append.mpr ⟨areRead, areRead'⟩, ?_⟩
  intro progress
  rcases writes progress with ⟨lead, text, text_mem, lead_mem, settled, writes⟩
  rcases writes' _ writes.gap with ⟨text', text_mem', writes'⟩
  refine ⟨lead, text ++ text', Language.append_mem_mul text_mem text_mem', lead_mem, settled, ?_⟩
  simpa using writes.append writes'

/-- A gap before a token is settled by the separator that is written there. -/
theorem isReadAfterGap_of_token {lexeme : Lexeme} {lexemes : List Lexeme}
    (token : lexeme.shape.isBlank = false) (areRead : AreRead (lexeme :: lexemes) rest)
    (writes : ∀ progress : Progress, progress.gap = [] →
      ∃ text' ∈ kept, Writes progress (lexeme :: lexemes) text') :
    IsReadAfterGap kept ((lexeme :: lexemes).flatMap Lexeme.text) rest := by
  refine ⟨lexeme :: lexemes, rfl, areRead, ?_⟩
  intro progress
  rcases writes { progress with
    written := (separator progress.written progress.gap lexeme).reverse ++ progress.written
    gap := [] } rfl with ⟨text', text_mem, writes⟩
  refine ⟨separator progress.written progress.gap lexeme, text', text_mem, ?_, ?_,
    writes_of_settled token writes⟩
  · simpa using separator_cases progress.written progress.gap lexeme
  · intro fresh
    rw [fresh, separator_nil]

/-- A gap before the lexemes of code counts as code. -/
theorem isReadAfterGap_of_lexemes {lexemes : List Lexeme} (areRead : AreRead lexemes (text ++ rest))
    (isRead : IsReadAfterGap kept text rest) :
    IsReadAfterGap (⊤ * kept) (lexemes.flatMap Lexeme.text ++ text) rest := by
  rcases isRead with ⟨own, rfl, areRead', writes⟩
  refine ⟨lexemes ++ own, by simp, areRead_append.mpr ⟨areRead, areRead'⟩, ?_⟩
  intro progress
  rcases exists_written progress lexemes with ⟨written, written_eq⟩
  rcases writes (lexemes.foldl Progress.add progress) with ⟨lead, text', text_mem, -, -, writes⟩
  refine ⟨[], (written.reverse ++ lead) ++ text', Language.append_mem_mul trivial text_mem,
    by simp, fun _ => rfl, ?_, ?_⟩
  · rw [List.foldl_append, writes.written, written_eq]
    simp
  · rw [List.foldl_append]
    exact writes.gap

theorem isCopied_of_escaped (escaped : Escaped inTemplate text) (text_mem : text ∈ kept) :
    IsCopied kept text rest := by
  intro taken escaped'
  refine ⟨[], taken ++ text, escaped'.append escaped, rfl, trivial, ?_⟩
  intro progress fresh
  exact ⟨text, text_mem, [], rfl, writes_nil fresh⟩

theorem IsCopied.append (isCopied : IsCopied kept first (second ++ rest))
    (isCopied' : IsCopied kept' second rest) : IsCopied (kept * kept') (first ++ second) rest := by
  intro taken escaped
  rcases isCopied taken escaped with ⟨own, taken', escaped', text_eq, areRead, writes⟩
  rcases isCopied' taken' escaped' with ⟨own', taken'', escaped'', text_eq', areRead', writes'⟩
  have following_eq : own'.flatMap Lexeme.text ++ '\x60' :: (taken'' ++ rest) =
      '\x60' :: (taken' ++ (second ++ rest)) := by
    have following := congrArg (· ++ rest) text_eq'
    simpa using following
  refine ⟨own ++ own', taken'', escaped'', ?_, areRead_append.mpr ⟨?_, areRead'⟩, ?_⟩
  · calc
      (own ++ own').flatMap Lexeme.text ++ '\x60' :: taken'' =
          own.flatMap Lexeme.text ++ '\x60' :: taken' ++ second := by simp [text_eq']
      _ = '\x60' :: (taken ++ (first ++ second)) := by simp [text_eq]
  · rwa [following_eq]
  · intro progress fresh
    rcases writes progress fresh with ⟨text, text_mem, out, out_eq, writes⟩
    rcases writes' _ writes.gap with ⟨text', text_mem', out', out_eq', writes'⟩
    refine ⟨text ++ text', Language.append_mem_mul text_mem text_mem', out ++ out', ?_,
      writes.append writes'⟩
    calc
      '\x60' :: (taken ++ (text ++ text')) = '\x60' :: (taken ++ text) ++ text' := by simp
      _ = out ++ '\x60' :: (taken' ++ text') := by simp [out_eq]
      _ = (out ++ out') ++ '\x60' :: taken'' := by simp [out_eq']

/-- The backticks of a literal that is read as code are those of the lexemes around it. -/
theorem isCopied_quoted (isRead : IsRead kept text ('\x60' :: rest)) :
    IsCopied ({['\x60']} * kept * {['\x60']}) (quoted text) rest := by
  intro taken escaped
  rcases isRead with ⟨own, rfl, areRead, writes⟩
  refine ⟨⟨.template, quoted taken⟩ :: own, [], .nil, by simp [quoted],
    ⟨fun written => reads_template escaped written _, areRead⟩, ?_⟩
  intro progress fresh
  have template := @writes_token _ ⟨.template, quoted taken⟩ fresh rfl
  rcases writes _ template.gap with ⟨text', text_mem, writes⟩
  exact ⟨['\x60'] ++ text' ++ ['\x60'],
    Language.append_mem_mul (Language.append_mem_mul rfl text_mem) rfl, quoted taken ++ text',
    by simp [quoted], template.append writes⟩

/-- No comment and no white space begins with a backtick. -/
theorem not_blank_of_backtick {lexeme : Lexeme} {written : Text} (reads : lexeme.Reads written rest)
    (backtick : lexeme.text.head? = some '\x60') : lexeme.shape.isBlank = false := by
  rcases reads.isComplete.exists_head with ⟨c, text, text_eq, opens⟩
  rw [text_eq] at backtick
  cases backtick
  rcases lexeme with ⟨shape, text⟩
  cases shape with
  | space | lineComment | blockComment => cases opens
  | string | template | regex | directive | code => rfl

/-- The backticks of a literal that is copied begin and end lexemes. -/
theorem IsCopied.isReadAfterGap (isCopied : IsCopied kept text ('\x60' :: rest)) :
    IsReadAfterGap ({['\x60']} * kept * {['\x60']}) (quoted text) rest := by
  rcases isCopied [] .nil with ⟨own, taken, escaped, text_eq, areRead, writes⟩
  generalize closing_eq : (⟨.template, quoted taken⟩ : Lexeme) = closing
  have closing_text : closing.text = quoted taken := by rw [← closing_eq]
  have text_eq' : (own ++ [closing]).flatMap Lexeme.text = quoted text := by
    rw [List.nil_append] at text_eq
    rw [quoted, ← List.cons_append, ← text_eq]
    simp [closing_text, quoted]
  have areRead' : AreRead (own ++ [closing]) rest := by
    rw [← closing_eq]
    refine areRead_append.mpr ⟨?_, fun written => reads_template escaped written _, trivial⟩
    simpa [quoted] using areRead
  have writes' : ∀ progress : Progress, progress.gap = [] →
      ∃ text' ∈ {['\x60']} * kept * {['\x60']}, Writes progress (own ++ [closing]) text' := by
    intro progress fresh
    rcases writes progress fresh with ⟨text', text_mem, out, out_eq, writes⟩
    have template := @writes_token _ closing writes.gap (by rw [← closing_eq]; rfl)
    refine ⟨['\x60'] ++ text' ++ ['\x60'],
      Language.append_mem_mul (Language.append_mem_mul rfl text_mem) rfl, ?_⟩
    have whole : ['\x60'] ++ text' ++ ['\x60'] = out ++ closing.text := by
      rw [List.nil_append] at out_eq
      rw [List.singleton_append, out_eq, closing_text]
      simp [quoted]
    rw [whole]
    exact writes.append template
  rw [← text_eq']
  cases own_eq : own ++ [closing] with
  | nil => simp at own_eq
  | cons lexeme own =>
      rw [own_eq] at text_eq' areRead' writes'
      apply isReadAfterGap_of_token _ areRead' writes'
      apply not_blank_of_backtick (areRead'.1 [])
      have head := congrArg List.head? text_eq'
      rwa [List.flatMap_cons, List.head?_append_of_ne_nil _ (areRead'.1 []).ne_nil] at head

end Reading

theorem areRead_of_areComplete {lexemes : List Lexeme} {rest : Text}
    (complete : AreComplete lexemes rest)
    (plain : ∀ lexeme ∈ lexemes, lexeme.shape ≠ .regex ∧ lexeme.text ≠ ['/']) :
    AreRead lexemes rest := by
  induction lexemes with
  | nil => trivial
  | cons lexeme lexemes ih =>
      rcases complete with ⟨-, here, later⟩
      rcases List.forall_mem_cons.mp plain with ⟨plain, plain'⟩
      refine ⟨?_, ih later plain'⟩
      intro written
      rw [Lexeme.reads_iff]
      exact ⟨here, fun regex => absurd regex plain.1, fun _ slash => absurd slash plain.2⟩

/-! ## Both ways of reading a literal -/

mutual

/-- The inside of a literal is copied where it begins in a lexeme. -/
theorem Parts.isCopied (parts : Parts) (rest : Text) (delimited : parts.IsDelimited rest)
    (spared : parts.IsSpared false) : IsCopied parts.kept parts.text ('\x60' :: rest) := by
  cases parts with
  | nil => exact isCopied_of_escaped .nil rfl
  | character c parts =>
      have here : IsCopied {[c]} [c] (parts.text ++ '\x60' :: rest) :=
        isCopied_of_escaped (.plain delimited.1 .nil) rfl
      exact here.append (parts.isCopied rest delimited.2.2 spared.2)
  | escape c parts =>
      have here : IsCopied {['\\', c]} ['\\', c] (parts.text ++ '\x60' :: rest) :=
        isCopied_of_escaped (.escape .nil) rfl
      exact here.append (parts.isCopied rest delimited spared.2)
  | substitution code parts =>
      have opening : IsCopied {['$', '\x7b']} ['$', '\x7b']
          (code.text ++ '\x7d' :: (parts.text ++ '\x60' :: rest)) :=
        isCopied_of_escaped (.plain rfl (.plain rfl .nil)) rfl
      have inner := code.isCopied 0 _ delimited.1 spared.1
      have closing : IsCopied {['\x7d']} ['\x7d'] (parts.text ++ '\x60' :: rest) :=
        isCopied_of_escaped (.plain rfl .nil) rfl
      have later := parts.isCopied rest delimited.2 spared.2
      exact ((opening.append inner).append closing).append later

/-- Code with literals in it is copied where it begins in a lexeme. -/
theorem Code.isCopied (code : Code) (depth : Nat) (rest : Text)
    (delimited : code.IsDelimited depth rest) (spared : code.IsSpared false) :
    IsCopied code.kept code.text rest := by
  cases code with
  | nil => exact isCopied_of_escaped .nil rfl
  | lexemes lexemes code =>
      rcases delimited with ⟨-, depth, -, delimited⟩
      have here : IsCopied ⊤ (lexemes.flatMap Lexeme.text) (code.text ++ rest) :=
        isCopied_of_escaped (spared.1 rfl) trivial
      exact here.append (code.isCopied depth rest delimited spared.2.2)
  | literal parts code =>
      -- The inside of the inner literal stands between two lexemes, so it is read as code.
      have inner := isCopied_quoted (parts.isRead (code.text ++ rest) delimited.1 spared.1)
      exact inner.append (code.isCopied depth rest delimited.2 spared.2)

/-- The inside of a literal is read as code. -/
theorem Parts.isRead (parts : Parts) (rest : Text) (delimited : parts.IsDelimited rest)
    (spared : parts.IsSpared true) : IsRead parts.kept parts.text ('\x60' :: rest) := by
  cases parts with
  | nil => exact isRead_nil
  | character c parts =>
      have here : IsRead {[c]} [c] (parts.text ++ '\x60' :: rest) :=
        isRead_of_standsAlone ((spared.1 rfl).append rest)
      exact here.append (parts.isRead rest delimited.2.2 spared.2)
  | escape c parts =>
      have backslash : IsRead {['\\']} ['\\'] ([c] ++ (parts.text ++ '\x60' :: rest)) :=
        isRead_of_standsAlone (Or.inl (by decide))
      have here : IsRead {[c]} [c] (parts.text ++ '\x60' :: rest) :=
        isRead_of_standsAlone ((spared.1 rfl).append rest)
      exact (backslash.append_singleton here).append (parts.isRead rest delimited spared.2)
  | substitution code parts =>
      have dollar : IsRead {['$']} ['$'] (['\x7b'] ++
          (code.text ++ ['\x7d'] ++ (parts.text ++ '\x60' :: rest))) :=
        isRead_of_standsAlone (Or.inl (by decide))
      have opening : IsRead {['\x7b']} ['\x7b']
          (code.text ++ ['\x7d'] ++ (parts.text ++ '\x60' :: rest)) :=
        isRead_of_standsAlone (Or.inl (by decide))
      have inner := (code.isRead 0 _ delimited.1 spared.1).isRead
      have later := parts.isRead rest delimited.2 spared.2
      have joined := ((dollar.append_singleton opening).append inner).append later
      simpa [Parts.text, Parts.kept, mul_assoc] using joined

/-- Code with literals in it is read as code, up to the brace that ends it. -/
theorem Code.isRead (code : Code) (depth : Nat) (rest : Text)
    (delimited : code.IsDelimited depth ('\x7d' :: rest)) (spared : code.IsSpared true) :
    IsReadAfterGap (code.kept * {['\x7d']}) (code.text ++ ['\x7d']) rest := by
  cases code with
  | nil =>
      have closing : IsReadAfterGap {['\x7d']} ['\x7d'] rest := by
        apply @isReadAfterGap_of_token _ _ ⟨.code, ['\x7d']⟩ [] rfl
        · exact ⟨reads_of_standsAlone (Or.inl (by decide)), trivial⟩
        · intro progress fresh
          exact ⟨['\x7d'], rfl, writes_token fresh rfl⟩
      rw [Code.kept, one_mul]
      exact closing
  | lexemes lexemes code =>
      rcases delimited with ⟨complete, depth, -, delimited⟩
      have areRead : AreRead lexemes (code.text ++ ['\x7d'] ++ rest) := by
        apply areRead_of_areComplete _ (spared.2.1 rfl)
        simpa using complete
      have joined := isReadAfterGap_of_lexemes areRead (code.isRead depth rest delimited spared.2.2)
      rw [Code.kept, Code.text, mul_assoc, List.append_assoc]
      exact joined
  | literal parts code =>
      -- The inner literal begins a lexeme again, behind what is written for a gap in the code.
      have inner := parts.isCopied (code.text ++ ['\x7d'] ++ rest) (by simpa using delimited.1)
        spared.1
      have later := code.isRead depth rest delimited.2 spared.2
      have joined := inner.isReadAfterGap.append later.isRead
      rw [Code.kept, Code.text, mul_assoc, List.append_assoc]
      exact joined

end

/-! ## Literals of a script -/

theorem Lexeme.Reads.eq_of_append {first second : Lexeme} {written rest rest' : Text}
    (reads : first.Reads written rest) (reads' : second.Reads written rest')
    (same : first.text ++ rest = second.text ++ rest') : first = second := by
  rcases first with ⟨shape, text⟩
  rcases second with ⟨shape', text'⟩
  rcases reads with ⟨c, body, text_eq, measures⟩
  rcases reads' with ⟨c', body', text_eq', measures'⟩
  dsimp only at text_eq text_eq' measures measures' same
  subst text_eq text_eq'
  obtain ⟨rfl, body_eq⟩ : c = c' ∧ body ++ rest = body' ++ rest' := by simpa using same
  have measured := measure_of_measures measures
  rw [body_eq, measure_of_measures measures'] at measured
  rcases Prod.mk.inj (Except.ok.inj measured) with ⟨rfl, length_eq⟩
  rw [(List.append_inj body_eq length_eq.symm).1]

/-- Lexemes that are recognised whatever is written before them are those that a script is cut
into. -/
theorem exists_append_of_areRead {progress : Progress} {own lexemes : List Lexeme} {rest : Text}
    (areRead : AreRead own rest) (reads : ReadsAll progress lexemes [])
    (text_eq : lexemes.flatMap Lexeme.text = own.flatMap Lexeme.text ++ rest) :
    ∃ after, lexemes = own ++ after := by
  induction own generalizing progress lexemes with
  | nil => exact ⟨lexemes, rfl⟩
  | cons lexeme own ih =>
      rcases areRead with ⟨here, later⟩
      cases lexemes with
      | nil => simp [(here []).ne_nil] at text_eq
      | cons lexeme' lexemes =>
          rcases reads with ⟨here', later'⟩
          rw [List.append_nil] at here'
          rw [List.flatMap_cons, List.flatMap_cons, List.append_assoc] at text_eq
          obtain rfl := here'.eq_of_append (here progress.written) text_eq
          rcases ih later later' (List.append_cancel_left text_eq) with ⟨after, rfl⟩
          exact ⟨after, rfl⟩

theorem minified_eq_writtenBy {source : Text} {segmentation : Segmentation}
    (cut : segment source = .ok segmentation) :
    segmentation.minified = writtenBy segmentation.lexemes := by
  have areCut := (segment_eq_ok_iff.mp cut).2
  have finish_eq := (@readsAll_of_areCut {} _ _ rfl areCut).2
  have minified_eq := @minified_finish {} segmentation.lexemes rfl
  rw [writtenBy, minified_eq, finish_eq]
  rfl

/-- A template literal that begins with a lexeme of a script ends with one, and is written with all
literals in it, outside the code of their substitutions, if it is spared. -/
theorem literals_kept_of_segment {source rest : Text} {segmentation : Segmentation}
    {before later : List Lexeme} {parts : Parts} (cut : segment source = .ok segmentation)
    (lexemes_eq : segmentation.lexemes = before ++ later)
    (stands : later.flatMap Lexeme.text = quoted parts.text ++ rest)
    (delimited : parts.IsDelimited rest) (spared : parts.IsSpared false) :
    ∃ own after lead back, ∃ text ∈ parts.kept,
      later = own ++ after ∧ own.flatMap Lexeme.text = quoted parts.text ∧
        lead ∈ [[], [' '], ['\n']] ∧
        writtenBy (before ++ own) = writtenBy before ++ (lead ++ quoted text) ∧
        minify source = .ok (writtenBy (before ++ own) ++ back) := by
  have minified_eq := minified_eq_writtenBy cut
  have areCut := (segment_eq_ok_iff.mp cut).2
  have reads := (@readsAll_of_areCut {} _ _ rfl areCut).1
  rw [lexemes_eq] at reads minified_eq
  have isRead := (parts.isCopied rest delimited spared).isReadAfterGap
  rcases isRead with ⟨own, own_text, areRead, writes⟩
  rw [← own_text] at stands
  rcases exists_append_of_areRead areRead (readsAll_append.mp reads).2 stands with ⟨after, rfl⟩
  rcases writes (before.foldl Progress.add {}) with ⟨lead, _, quoted_mem, lead_mem, -, writes⟩
  rcases Language.mem_mul.mp quoted_mem with ⟨_, opened_mem, _, rfl, rfl⟩
  rcases Language.mem_mul.mp opened_mem with ⟨_, rfl, text, text_mem, rfl⟩
  rcases writtenBy_append (before ++ own) after with ⟨back, back_eq⟩
  refine ⟨own, after, lead, back, text, text_mem, rfl, own_text, lead_mem, ?_, ?_⟩
  · rw [writtenBy, writtenBy, List.foldl_append, writes.written]
    simp [quoted]
  · rw [back_eq, List.append_assoc, ← minified_eq, minify, cut]
    rfl

theorem literals_kept_of_segment_sum : ∃ segmentation own after lead back,
    ∃ text ∈ (Parts.substitution (.literal (.character 'a' (.substitution
      (.lexemes [⟨.code, ['x']⟩, ⟨.space, [' ']⟩, ⟨.code, ['+']⟩, ⟨.space, [' ']⟩]
        (.literal (.character ' ' (.character ' ' .nil)) .nil)) .nil)) .nil) .nil).kept,
      Segmentation.lexemes segmentation = own ++ after ∧
        own.flatMap Lexeme.text = "\x60$\x7b\x60a$\x7bx + \x60  \x60\x7d\x60\x7d\x60".toList ∧
        lead ∈ [[], [' '], ['\n']] ∧ writtenBy ([] ++ own) = [] ++ (lead ++ quoted text) ∧
        minify "\x60$\x7b\x60a$\x7bx + \x60  \x60\x7d\x60\x7d\x60".toList =
          .ok (writtenBy ([] ++ own) ++ back) := by
  have done : minify "\x60$\x7b\x60a$\x7bx + \x60  \x60\x7d\x60\x7d\x60".toList =
      .ok "\x60$\x7b\x60a$\x7bx+\x60  \x60\x7d\x60\x7d\x60".toList := by
    decide +kernel
  rcases exists_segment_of_minify done with ⟨segmentation, cut, -⟩
  have stands : segmentation.lexemes.flatMap Lexeme.text =
      "\x60$\x7b\x60a$\x7bx + \x60  \x60\x7d\x60\x7d\x60".toList ++ [] :=
    (flatMap_lexemes segmentation).trans (segment_eq_ok_iff.mp cut).1.symm
  refine ⟨segmentation, @literals_kept_of_segment _ [] segmentation [] _ _ cut rfl stands ?_ ?_⟩
  · have code : ∀ c rest, isOrdinary c = true → Lexeme.IsComplete ⟨.code, [c]⟩ rest :=
      fun c rest ordinary => (reads_of_standsAlone (Or.inl ordinary) []).isComplete
    have space : ∀ rest, Lexeme.IsComplete ⟨.space, [' ']⟩ rest :=
      fun rest => ⟨' ', rfl, by decide⟩
    have complete : ∀ rest, AreComplete
        [⟨.code, ['x']⟩, ⟨.space, [' ']⟩, ⟨.code, ['+']⟩, ⟨.space, [' ']⟩] rest := by
      intro rest
      exact ⟨nofun, code 'x' _ (by decide), nofun, space _, nofun, code '+' _ (by decide), nofun,
        space _, trivial⟩
    simp [Parts.IsDelimited, Code.IsDelimited, inTemplate, Parts.text, Lexeme.depth, complete]
  · simp [Parts.IsSpared, Code.IsSpared, StandsAlone, isOrdinary, Pageweave.isBlank]

/-- The blank at the start of a literal in a literal is lost. -/
theorem nested_literal_lost : ¬∀ (source rest : Text) (segmentation : Segmentation)
    (before later : List Lexeme) (parts : Parts), segment source = .ok segmentation →
    segmentation.lexemes = before ++ later →
    later.flatMap Lexeme.text = quoted parts.text ++ rest → parts.IsDelimited rest →
    ∃ text ∈ parts.kept, quoted text <:+: segmentation.minified := by
  intro kept
  have done : minify "\x60a$\x7b\x60 b\x60\x7d\x60".toList =
      .ok "\x60a$\x7b\x60b\x60\x7d\x60".toList := by
    decide +kernel
  rcases exists_segment_of_minify done with ⟨segmentation, cut, minified_eq⟩
  have stands : segmentation.lexemes.flatMap Lexeme.text =
      quoted (Parts.text (.character 'a' (.substitution
        (.literal (.character ' ' (.character 'b' .nil)) .nil) .nil))) ++ [] :=
    (flatMap_lexemes segmentation).trans (segment_eq_ok_iff.mp cut).1.symm
  have delimited : Parts.IsDelimited (.character 'a' (.substitution
      (.literal (.character ' ' (.character 'b' .nil)) .nil) .nil)) [] := by
    simp [Parts.IsDelimited, Code.IsDelimited, inTemplate, Parts.text]
  rcases kept _ [] segmentation [] _ _ cut rfl stands delimited with ⟨text, text_mem, inside⟩
  simp only [Parts.kept, Code.kept, mul_one, singleton_mul_singleton] at text_mem
  obtain rfl : text = "a$\x7b\x60 b\x60\x7d".toList := text_mem
  rw [← minified_eq] at inside
  exact absurd inside.length_le (by decide)

end Pageweave.Script
