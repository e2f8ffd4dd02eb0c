import VariadicGenerics.Options

/-!
# Options as text

Options are given as a JSON object, with keys `maxInstantiationDepth`, `parallel` and
`reportOverloadCandidates`, or as a JSON list of their values in that order. What is missing keeps
its default and what is not known is passed over. A text that gives no options ends too early, is
not JSON, or is JSON that does not describe options; the first such problem in reading order
counts.

A value that is passed over is read less closely than one that is needed: its strings may hold
halves of surrogate pairs, and its numbers may have any size.

The reader works on the list of the characters that are left, and every step of it either takes a
character or decides what to do next; reading lists and objects is done with a number of steps that
is twice the length of the text, which is never used up. Strings need no such number, since each
escape is shown to take a character.

Numbers are read as they are written, and are turned into a value only where a value is needed. That
a number is out of range is decided as a reader of doubles decides it, with the significand cut to
what a double can hold before the power of ten is applied.

## Main results

* `OptionsText.length_of_hexEscape`, `OptionsText.length_of_escape`: an escape is not empty, so
  reading a string comes to an end.
-/

namespace VariadicGenerics

/-- Why a text gives no options. -/
inductive OptionsError where
  | endOfText
  | malformed
  | unsuitable
  deriving DecidableEq, Repr

/-- The options that can be given. -/
inductive OptionName where
  | maxInstantiationDepth
  | parallel
  | reportOverloadCandidates
  deriving DecidableEq, Repr

namespace OptionName

/-- All options, in the order of a list. -/
def all : List OptionName := [maxInstantiationDepth, parallel, reportOverloadCandidates]

/-- The key of an option in an object. -/
def key : OptionName → String
  | maxInstantiationDepth => "maxInstantiationDepth"
  | parallel => "parallel"
  | reportOverloadCandidates => "reportOverloadCandidates"

/-- The option with a given key. -/
def ofKey? (key : String) : Option OptionName := all.find? fun o => o.key == key

end OptionName

namespace OptionsText

/-- A step of reading: it takes characters from the front of the text, or fails. -/
abbrev Reader := StateT (List Char) (Except OptionsError)

/-! ### Characters and words -/

/-- Whether a character may stand between the parts of a text. -/
def isBlank (c : Char) : Bool := c == ' ' || c == '\n' || c == '\t' || c == '\r'

/-- Pass over blanks and look at the next character without taking it. -/
def peek : Reader (Option Char) := do
  modify (List.dropWhile isBlank)
  return (← get).head?

/-- Take one character. -/
def skip : Reader Unit := modify List.tail

/-- Take a given word. -/
def word : List Char → Reader Unit
  | [] => pure ()
  | expected :: rest => do
    match (← get).head? with
    | none => throw .endOfText
    | some c =>
      if c = expected then
        skip
        word rest
      else throw .malformed

/-! ### Strings -/

/-- The value of a hexadecimal digit. -/
def hexDigit? (c : Char) : Option Nat :=
  if '0' ≤ c ∧ c ≤ '9' then some (c.toNat - '0'.toNat)
  else if 'a' ≤ c ∧ c ≤ 'f' then some (c.toNat - 'a'.toNat + 10)
  else if 'A' ≤ c ∧ c ≤ 'F' then some (c.toNat - 'A'.toNat + 10)
  else none

/-- The value of four hexadecimal digits, and the rest. A text with fewer than four bytes ends too
early. -/
def hexEscape : List Char → Except OptionsError (Nat × List Char)
  | a :: b :: c :: d :: rest =>
    match [a, b, c, d].mapM hexDigit? with
    | some digits => .ok (digits.foldl (fun n digit => n * 16 + digit) 0, rest)
    | none => .error .malformed
  | few => .error (if (few.map Char.utf8Size).foldr (· + ·) 0 < 4 then .endOfText else .malformed)

/-- The character that a backslash and a letter stand for. -/
def plainEscape? : Char → Option Char
  | '"' => some '"'
  | '\\' => some '\\'
  | '/' => some '/'
  | 'b' => some '\x08'
  | 'f' => some '\x0c'
  | 'n' => some '\n'
  | 'r' => some '\r'
  | 't' => some '\t'
  | _ => none

/-- Whether a number is the first half of a surrogate pair. -/
def isHighSurrogate (n : Nat) : Bool := decide (0xD800 ≤ n ∧ n ≤ 0xDBFF)

/-- Whether a number is the second half of a surrogate pair. -/
def isLowSurrogate (n : Nat) : Bool := decide (0xDC00 ≤ n ∧ n ≤ 0xDFFF)

/-- The character of a surrogate pair, after its first half. -/
def secondHalf (high : Nat) : List Char → Except OptionsError (Char × List Char)
  | [] | ['\\'] => .error .endOfText
  | '\\' :: 'u' :: text =>
    (hexEscape text).bind fun (low, rest) =>
      if isLowSurrogate low then
        .ok (.ofNat ((high - 0xD800) * 0x400 + (low - 0xDC00) + 0x10000), rest)
      else .error .malformed
  | _ => .error .malformed

/-- The character of an escape by number, after its `u`. The halves of a surrogate pair have to
follow one another. -/
def numberedEscape (text : List Char) : Except OptionsError (Char × List Char) :=
  (hexEscape text).bind fun (n, rest) =>
    if isLowSurrogate n then .error .malformed
    else if isHighSurrogate n then secondHalf n rest
    else .ok (.ofNat n, rest)

/-- The character of an escape, after its backslash. -/
def escape : List Char → Except OptionsError (Char × List Char)
  | [] => .error .endOfText
  | c :: rest =>
    if c = 'u' then numberedEscape rest
    else match plainEscape? c with
      | some d => .ok (d, rest)
      | none => .error .malformed

/-- What follows an escape, after its backslash, whatever it stands for. -/
def afterEscape : List Char → Except OptionsError (List Char)
  | [] => .error .endOfText
  | c :: rest =>
    if c = 'u' then (hexEscape rest).map Prod.snd
    else if (plainEscape? c).isSome then .ok rest
    else .error .malformed

/-- Four hexadecimal digits are consumed. -/
theorem length_of_hexEscape {text rest : List Char} {n : Nat}
    (h : hexEscape text = .ok (n, rest)) : rest.length < text.length := by
  unfold hexEscape at h
  split at h
  · split at h
    · cases h
      simp only [List.length_cons]
      omega
    · cases h
  · cases h

/-- The second half of a pair is consumed. -/
theorem length_of_secondHalf {high : Nat} {text rest : List Char} {c : Char}
    (h : secondHalf high text = .ok (c, rest)) : rest.length < text.length := by
  unfold secondHalf at h
  split at h
  · cases h
  · cases h
  · next after =>
    cases hh : hexEscape after with
    | error e => simp [hh, Except.bind] at h
    | ok second =>
      have := length_of_hexEscape hh
      simp only [hh, Except.bind] at h
      split at h
      · simp only [Except.ok.injEq, Prod.mk.injEq] at h
        obtain ⟨-, rfl⟩ := h
        simp only [List.length_cons]
        omega
      · cases h
  · cases h

/-- An escape by number is consumed. -/
theorem length_of_numberedEscape {text rest : List Char} {c : Char}
    (h : numberedEscape text = .ok (c, rest)) : rest.length < text.length := by
  unfold numberedEscape at h
  cases hh : hexEscape text with
  | error e => simp [hh, Except.bind] at h
  | ok first =>
    have hlt := length_of_hexEscape hh
    simp only [hh, Except.bind] at h
    split at h
    · cases h
    · split at h
      · have := length_of_secondHalf h
        omega
      · simp only [Except.ok.injEq, Prod.mk.injEq] at h
        obtain ⟨-, rfl⟩ := h
        exact hlt

/-- An escape is consumed. -/
theorem length_of_escape {text rest : List Char} {c : Char}
    (h : escape text = .ok (c, rest)) : rest.length < text.length := by
  unfold escape at h
  split at h
  · cases h
  · split at h
    · have := length_of_numberedEscape h
      simp only [List.length_cons]
      omega
    · split at h
      · cases h
        simp
      · cases h

/-- Skipping an escape consumes it. -/
theorem length_of_afterEscape {text rest : List Char} (h : afterEscape text = .ok rest) :
    rest.length < text.length := by
  unfold afterEscape at h
  split at h
  · cases h
  · next c after =>
    split at h
    · cases hh : hexEscape after with
      | error e => simp [hh, Except.map] at h
      | ok first =>
        simp only [hh, Except.map, Except.ok.injEq] at h
        subst h
        have := length_of_hexEscape hh
        simp only [List.length_cons]
        omega
    · split at h
      · cases h
        simp
      · cases h

/-- The characters of a string, after its opening quote, and the rest. -/
def stringChars (text : List Char) : Except OptionsError (List Char × List Char) :=
  match text with
  | [] => .error .endOfText
  | c :: rest =>
    if c = '"' then .ok ([], rest)
    else if c = '\\' then
      match _ : escape rest with
      | .error e => .error e
      | .ok (d, after) => do
        let (cs, after) ← stringChars after
        return (d :: cs, after)
    else if c < ' ' then .error .malformed
    else do
      let (cs, after) ← stringChars rest
      return (c :: cs, after)
termination_by text.length
decreasing_by
  · have := length_of_escape (by assumption)
    simp only [List.length_cons]
    omega
  · simp

/-- What follows a string, after its opening quote. -/
def afterString (text : List Char) : Except OptionsError (List Char) :=
  match text with
  | [] => .error .endOfText
  | c :: rest =>
    if c = '"' then .ok rest
    else if c = '\\' then
      match _ : afterEscape rest with
      | .error e => .error e
      | .ok after => afterString after
    else if c < ' ' then .error .malformed
    else afterString rest
termination_by text.length
decreasing_by
  · have := length_of_afterEscape (by assumption)
    simp only [List.length_cons]
    omega
  · simp

/-- Read a string, after its opening quote. -/
def string : Reader String := fun text => do
  let (cs, rest) ← stringChars text
  return (.ofList cs, rest)

/-- Pass over a string, after its opening quote. -/
def skipString : Reader Unit := fun text => do
  return ((), ← afterString text)

/-! ### Numbers -/

/-- A number as it is written: its sign, the digits before and after the point, and the exponent.
A number without a point has no fraction. -/
structure Numeral where
  negative : Bool
  whole : List Char
  fraction : Option (List Char)
  exponent : Option Int
  deriving Repr

/-- Take the digits in front. -/
def digits : Reader (List Char) := do
  let text ← get
  set (text.dropWhile Char.isDigit)
  return text.takeWhile Char.isDigit

/-- Take the digits in front, of which there has to be one at least. -/
def someDigits : Reader (List Char) := do
  match ← digits with
  | [] => throw (if (← get).isEmpty then .endOfText else .malformed)
  | ds => return ds

/-- Take one of several characters if it is next. -/
def optional (allowed : List Char) : Reader (Option Char) := do
  match (← get).head? with
  | some c =>
    if c ∈ allowed then
      skip
      return some c
    else return none
  | none => return none

/-- The number that decimal digits stand for. -/
def digitsValue (ds : List Char) : Nat :=
  ds.foldl (fun n c => n * 10 + (c.toNat - '0'.toNat)) 0

/-- Read a number. Nothing but a point or an exponent follows a leading zero. -/
def numeral : Reader Numeral := do
  let sign ← optional ['-']
  let whole ← someDigits
  if whole.head? = some '0' ∧ 1 < whole.length then throw .malformed
  let point ← optional ['.']
  let fraction ← point.mapM fun _ => someDigits
  let mark ← optional ['e', 'E']
  let exponent ← mark.mapM fun _ => do
    let sign ← optional ['+', '-']
    let magnitude : Int := digitsValue (← someDigits)
    return if sign = some '-' then -magnitude else magnitude
  return { negative := sign.isSome, whole, fraction, exponent }

/-- The largest significand that is kept exactly. -/
def maxSignificand : Nat := 18446744073709551615

/-- Append digits to a significand as long as it can be kept exactly. The second part of the
answer is the number of digits left over. -/
def appendDigits : Nat → List Char → Nat × Nat
  | n, [] => (n, 0)
  | n, c :: rest =>
    let next := n * 10 + (c.toNat - '0'.toNat)
    if next ≤ maxSignificand then appendDigits next rest else (n, rest.length + 1)

/-- A number rounded to 53 binary digits, a tie to the even neighbour. -/
def roundToDouble (n : Nat) : Nat :=
  let unit := Nat.pow 2 (n.log2 - 52)
  let quotient := n / unit
  let remainder := n % unit
  if 2 * remainder < unit ∨ (2 * remainder = unit ∧ quotient % 2 = 0) then quotient * unit
  else (quotient + 1) * unit

/-- The least number that rounds to more than the largest double. -/
def doubleOverflow : Nat := Nat.pow 2 1024 - Nat.pow 2 970

/-- The largest power of ten that is a double. -/
def maxPowerOfTen : Nat := 308

namespace Numeral

/-- The significand and the power of ten of a number. Digits that do not fit into the significand
raise the power if they stand before the point, and are dropped after it. -/
def scaled (n : Numeral) : Nat × Int :=
  let (significand, raised) := appendDigits 0 n.whole
  let fraction := n.fraction.getD []
  let (significand, dropped) := appendDigits significand fraction
  (significand, raised - (fraction.length - dropped : Nat) + n.exponent.getD 0)

/-- Whether a number is too large for a double, the significand and the power of ten being rounded
before they are multiplied. -/
def isOutOfRange (n : Numeral) : Bool :=
  let (significand, power) := n.scaled
  significand != 0 && (decide (maxPowerOfTen < power) ||
    (decide (0 ≤ power) &&
      decide (doubleOverflow ≤ roundToDouble significand * roundToDouble (Nat.pow 10 power.toNat))))

/-- The natural number that a numeral without sign, point and exponent stands for. -/
def natural? (n : Numeral) : Option Nat :=
  if n.negative || n.fraction.isSome || n.exponent.isSome then none else some (digitsValue n.whole)

end Numeral

/-! ### Values -/

/-- Whether a number starts with a character. -/
def startsNumber (c : Char) : Bool := c == '-' || c.isDigit

/-- Read a value where another kind of value belongs. A value that cannot be read is reported as
such; a list or an object is not looked into. -/
def mismatch {α : Type} : Reader α := do
  match ← peek with
  | none => throw .endOfText
  | some 'n' =>
    word "null".toList
    throw .unsuitable
  | some 't' =>
    word "true".toList
    throw .unsuitable
  | some 'f' =>
    word "false".toList
    throw .unsuitable
  | some '"' =>
    skip
    let _ ← string
    throw .unsuitable
  | some '[' | some '{' => throw .unsuitable
  | some c =>
    if startsNumber c then
      let n ← numeral
      throw (if n.isOutOfRange then .malformed else .unsuitable)
    else throw .malformed

/-- The largest depth that can be chosen. -/
def maxDepth : Nat := 4294967295

/-- Read a depth, a natural number without point and exponent. -/
def depth : Reader Nat := do
  match ← peek with
  | some c =>
    if startsNumber c then
      let n ← numeral
      if n.isOutOfRange then throw .malformed
      match n.natural? with
      | some value => if value ≤ maxDepth then return value else throw .unsuitable
      | none => throw .unsuitable
    else mismatch
  | none => mismatch

/-- Read a truth value. -/
def truth : Reader Bool := do
  match ← peek with
  | some 't' =>
    word "true".toList
    return true
  | some 'f' =>
    word "false".toList
    return false
  | _ => mismatch

/-- Pass over a value that is neither a list nor an object. -/
def skipScalar : Reader Unit := do
  match ← peek with
  | none => throw .endOfText
  | some 'n' => word "null".toList
  | some 't' => word "true".toList
  | some 'f' => word "false".toList
  | some '"' =>
    skip
    skipString
  | some c =>
    if startsNumber c then
      try discard numeral catch _ => throw .malformed
    else throw .malformed

/-- Take a given character, after blanks. -/
def expect (expected : Char) : Reader Unit := do
  match ← peek with
  | none => throw .endOfText
  | some c => if c = expected then skip else throw .malformed

/-- Go on after an item: a comma leads to the next item and `close` ends the list. -/
def afterItem {α : Type} (close : Char) (next finish : Reader α) : Reader α := do
  match ← peek with
  | none => throw .endOfText
  | some c =>
    if c = ',' then
      skip
      next
    else if c = close then
      skip
      finish
    else throw .malformed

/-- Go on after an opening bracket: `close` ends the list at once. -/
def afterOpening {α : Type} (close : Char) (items finish : Reader α) : Reader α := do
  skip
  if (← peek) = some close then
    skip
    finish
  else items

mutual

/-- Pass over a value with at most `fuel` steps. -/
def skipValue : Nat → Reader Unit
  | 0 => throw .malformed
  | fuel + 1 => do
    match ← peek with
    | some '[' => afterOpening ']' (skipItems fuel) (pure ())
    | some '{' => afterOpening '}' (skipMembers fuel) (pure ())
    | _ => skipScalar

/-- Pass over the rest of a list, from an item on. -/
def skipItems : Nat → Reader Unit
  | 0 => throw .malformed
  | fuel + 1 => do
    skipValue fuel
    afterItem ']' (skipItems fuel) (pure ())

/-- Pass over the rest of an object, from a key on. -/
def skipMembers : Nat → Reader Unit
  | 0 => throw .malformed
  | fuel + 1 => do
    expect '"'
    skipString
    expect ':'
    skipValue fuel
    afterItem '}' (skipMembers fuel) (pure ())

end

/-! ### Options -/

/-- Read the value of an option. -/
def value (options : CheckerOptions) : OptionName → Reader CheckerOptions
  | .maxInstantiationDepth => do return { options with maxInstantiationDepth := ← depth }
  | .parallel => do return { options with parallel := ← truth }
  | .reportOverloadCandidates => do return { options with reportOverloadCandidates := ← truth }

/-- Read the rest of an object, from a key on, with at most `fuel` steps. An option may be given
once. -/
def members (options : CheckerOptions) (given : List OptionName) : Nat → Reader CheckerOptions
  | 0 => throw .malformed
  | fuel + 1 => do
    expect '"'
    match OptionName.ofKey? (← string) with
    | none =>
      expect ':'
      skipValue fuel
      afterItem '}' (members options given fuel) (pure options)
    | some name =>
      if name ∈ given then throw .unsuitable
      expect ':'
      let options ← value options name
      afterItem '}' (members options (name :: given) fuel) (pure options)

/-- Read the rest of a list, from an item on; its items are the values of the given options. -/
def items (options : CheckerOptions) : List OptionName → Reader CheckerOptions
  | [] => throw .malformed
  | name :: rest => do
    let options ← value options name
    afterItem ']' (items options rest) (pure options)

/-- Read options, and nothing after them, with at most `fuel` steps. -/
def document (fuel : Nat) : Reader CheckerOptions := do
  let options ←
    match ← peek with
    | some '[' => afterOpening ']' (items .default OptionName.all) (pure .default)
    | some '{' => afterOpening '}' (members .default [] fuel) (pure .default)
    | _ => mismatch
  match ← peek with
  | none => return options
  | some _ => throw .malformed

end OptionsText

/-- The options that a text describes. Of two steps of reading one at least takes a character, so
twice the length of the text bounds their number. -/
def CheckerOptions.ofText (text : String) : Except OptionsError CheckerOptions :=
  (OptionsText.document (2 * text.length + 2)).run' text.toList

end VariadicGenerics
