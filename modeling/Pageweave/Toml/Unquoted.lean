import Pageweave.Json.Token
import Pageweave.Number.Shortest
import Pageweave.Toml.Layout
import Pageweave.Toml.Value

/-!
# Unquoted values

Truth values, numbers, dates and times. Such a value is a run of characters, and a date may be
followed by a space and a time. The run as a whole has to have one of the forms below. Digits may be
grouped by single underscores between them.

The form of a number is looser than what stands for a number. Integers have at most 128 bits, and a
floating-point number must not be beyond the greatest finite one; an integer in another base than
ten may be written without digits, and the later groups of a decimal integer may hold other
characters. A run that has the form but stands for no number is illegible.
-/

namespace Pageweave.Toml

/-- The characters that end an unquoted value. -/
def runEnds : Text :=
  [' ', '\t', '\r', '\n', '#', ',', '=', '[', ']', '\x7b', '\x7d']

/-- A character of an unquoted value. -/
def inRun (c : Char) : Bool :=
  !runEnds.contains c

/-- Whether a text has a sign, whether that is a minus sign, and what follows it. -/
def signed (text : Text) : Bool × Bool × Text :=
  match text with
  | '-' :: rest => (true, true, rest)
  | '+' :: rest => (true, false, rest)
  | rest => (false, false, rest)

/-- A digit in a base up to sixteen. -/
def isDigitIn (base : Nat) (c : Char) : Bool :=
  (Json.hexValue? c).any (· < base)

/-- Whether a text is digits in a base that single underscores may group. -/
def isGrouped (base : Nat) (text : Text) : Bool :=
  (Text.splitOn '_' text).all fun group => group ≠ [] && group.all (isDigitIn base)

/-- The digits of a text without the underscores that group them. -/
def ungroup (text : Text) : Text :=
  text.filter (· ≠ '_')

/-- The number that digits stand for in a base. -/
def valueOfDigits (base : Nat) (digits : Text) : Nat :=
  digits.foldl (fun n c => base * n + (Json.hexValue? c).getD 0) 0

/-- The base of an integer without a sign, and what follows the mark of the base. -/
def based (text : Text) : Nat × Text :=
  match text with
  | '0' :: 'x' :: digits => (16, digits)
  | '0' :: 'o' :: digits => (8, digits)
  | '0' :: 'b' :: digits => (2, digits)
  | digits => (10, digits)

/-- Whether a text has the form of a decimal integer without its sign. It starts with a group of
digits and has no superfluous zero at its start. The other groups start and end with hexadecimal
digits, and the last one need not end with one. -/
def isDecimal (text : Text) : Bool :=
  match text with
  | '0' :: rest => rest = []
  | text =>
      match Text.splitOn '_' text with
      | [] => false
      | first :: others =>
          first ≠ [] && first.all Char.isDigit &&
            text.all (fun c => c ≠ '.' && c ≠ 'e' && c ≠ 'E') &&
            others.all (fun group => group.head?.any (isDigitIn 16)) &&
            others.dropLast.all (fun group => group.getLast?.any (isDigitIn 16))

/-- Whether a text has the form of an integer. Only a decimal one may have a sign. -/
def isInteger (text : Text) : Bool :=
  let (hasSign, _, unsigned) := signed text
  let (base, digits) := based unsigned
  if base = 10 then isDecimal digits
  else !hasSign && (digits = [] || isGrouped base digits)

/-- The integer that a text in the form of an integer stands for. -/
def integer? (text : Text) : Option Int :=
  let (_, negative, unsigned) := signed text
  let (base, grouped) := based unsigned
  let digits := ungroup grouped
  let magnitude := valueOfDigits base digits
  let value : Int := if negative then -magnitude else magnitude
  if digits ≠ [] && digits.all (isDigitIn base) &&
      -(Nat.pow 2 127 : Nat) ≤ value && value < (Nat.pow 2 128 : Nat) then some value
  else none

/-- The text before and after the first character that satisfies a condition. -/
def splitAtFirst (p : Char → Bool) (text : Text) : Text × Option Text :=
  match text.dropWhile fun c => !p c with
  | [] => (text, none)
  | _ :: rest => (text.takeWhile fun c => !p c, some rest)

/-- Whether a text is the digits before the point of a number, without a superfluous zero at their
start. -/
def isWhole (text : Text) : Bool :=
  match text with
  | '0' :: rest => rest = []
  | text => isGrouped 10 text

/-- The decimal that a text in the form of a floating-point number stands for, without its sign.
The form is whole digits and then a fraction, an exponent or both. -/
def float? (text : Text) : Option Decimal :=
  let (_, _, unsigned) := signed text
  let (decimal, exponent) := splitAtFirst (fun c => c = 'e' || c = 'E') unsigned
  let (whole, fraction) := splitAtFirst (· = '.') decimal
  let (_, exponentNegative, exponentDigits) := signed (exponent.getD [])
  if isWhole whole && fraction.all (isGrouped 10) &&
      (exponent.isNone || isGrouped 10 exponentDigits) &&
      (fraction.isSome || exponent.isSome) then
    let fraction := ungroup (fraction.getD [])
    let shift : Int := valueOfDigits 10 (ungroup exponentDigits)
    some ⟨valueOfDigits 10 (ungroup whole ++ fraction),
      (if exponentNegative then -shift else shift) - fraction.length⟩
  else none

/-- Whether a decimal is at most the greatest finite floating-point number. A decimal with very many
digits before or after the point is judged by their number. -/
def isFinite (decimal : Decimal) : Bool :=
  let order := (Text.ofNat decimal.digits).length + decimal.exponent
  decimal.digits = 0 || order < -400 || (order < 400 && decimal.toMagnitude?.isSome)

/-- Whether a text is an infinity or the value that is no number. -/
def isSpecial (text : Text) : Bool :=
  let (_, _, rest) := signed text
  rest = "inf".toList || rest = "nan".toList

/-- The number written by exactly `count` digits. -/
def fixedDigits? (count : Nat) (text : Text) : Option Nat :=
  if text.length = count then Text.toNat? text else none

/-- The number of days in a month. -/
def daysIn (year month : Nat) : Nat :=
  if month = 2 then
    if year % 4 = 0 && (year % 100 ≠ 0 || year % 400 = 0) then 29 else 28
  else if month = 4 || month = 6 || month = 9 || month = 11 then 30
  else 31

/-- Whether a text is a date. -/
def isDate (text : Text) : Bool :=
  match Text.splitOn '-' text with
  | [year, month, day] =>
      match fixedDigits? 4 year, fixedDigits? 2 month, fixedDigits? 2 day with
      | some year, some month, some day =>
          1 ≤ month && month ≤ 12 && 1 ≤ day && day ≤ daysIn year month
      | _, _, _ => false
  | _ => false

/-- Whether a text is a number of two digits up to a greatest one. -/
def isUpTo (greatest : Nat) (text : Text) : Bool :=
  (fixedDigits? 2 text).any (· ≤ greatest)

/-- Whether a text is the seconds of a time, perhaps with a fraction. -/
def isSeconds (text : Text) : Bool :=
  let (whole, fraction) := splitAtFirst (· = '.') text
  isUpTo 60 whole && fraction.all fun digits => (Text.toNat? digits).isSome

/-- Whether a text is a time of day; the seconds may be missing. -/
def isTime (text : Text) : Bool :=
  match Text.splitOn ':' text with
  | [hour, minute] => isUpTo 23 hour && isUpTo 59 minute
  | [hour, minute, second] => isUpTo 23 hour && isUpTo 59 minute && isSeconds second
  | _ => false

/-- Whether a text is a distance from universal time: `Z`, or a sign with hours and minutes. -/
def isOffset (text : Text) : Bool :=
  match text with
  | ['Z'] | ['z'] => true
  | sign :: rest =>
      (sign = '+' || sign = '-') &&
        match Text.splitOn ':' rest with
        | [hour, minute] => isUpTo 23 hour && isUpTo 59 minute
        | _ => false
  | [] => false

/-- Whether a text is a time of day, perhaps with an offset. -/
def isZonedTime (text : Text) : Bool :=
  let isLocal (c : Char) : Bool := c.isDigit || c = ':' || c = '.'
  let offset := text.dropWhile isLocal
  isTime (text.takeWhile isLocal) && (offset = [] || isOffset offset)

/-- Whether a text is a date, a time, or a date with a time. -/
def isMoment (text : Text) : Bool :=
  isTime text || isDate text ||
    (isDate (text.take 10) &&
      match text.drop 10 with
      | c :: time => (c = 'T' || c = 't' || c = ' ') && isZonedTime time
      | [] => false)

/-- The value that a run of characters stands for. -/
def ofRun? (run : Text) : Option Value :=
  if run = "true".toList then some (.boolean true)
  else if run = "false".toList then some (.boolean false)
  else if isSpecial run then some (.float run)
  else if isMoment run then some (.moment run)
  else if isInteger run then some ((integer? run).elim (.illegible run) .integer)
  else (float? run).map fun decimal => if isFinite decimal then .float run else .illegible run

/-- The number of characters in the unquoted value at the start of a text. -/
def runLength (text : Text) : Nat :=
  let run := text.takeWhile inRun
  match text.drop run.length with
  | ' ' :: c :: rest =>
      if isDate run && c.isDigit then run.length + 1 + ((c :: rest).takeWhile inRun).length
      else run.length
  | _ => run.length

/-- The unquoted value at the start of a text. -/
def unquoted? (text : Text) : Option (Found Value text) :=
  let length := runLength text
  if h : 0 < length ∧ 0 < text.length then
    (ofRun? (text.take length)).map fun value =>
      ⟨value, text.drop length, by simp only [List.length_drop]; omega⟩
  else none

end Pageweave.Toml
