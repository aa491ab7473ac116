/-
  Formulary.Json.Dictionary

  Reading a dictionary: a JSON object whose values are all texts. Blanks may stand around
  every part; anything else than such an object, or anything behind it, is no dictionary.
  Of two members with the same name the later one counts, and the names come in the order
  of their code points.
-/

import Formulary.Names
import Formulary.Text.Ascii

namespace Formulary

namespace Json

/-- The blanks of JSON. -/
def isSpace (c : Char) : Bool := c = ' ' || c = '\t' || c = '\n' || c = '\r'

/-- The character that a letter behind a backslash stands for. -/
def escape? (c : Char) : Option Char :=
  match c with
  | '"' => some '"'
  | '\\' => some '\\'
  | '/' => some '/'
  | 'b' => some '\x08'
  | 'f' => some '\x0c'
  | 'n' => some '\n'
  | 'r' => some '\r'
  | 't' => some '\t'
  | _ => none

/-- Where inside a text the reader is. `high` is the high surrogate that waits for its low
one. -/
inductive TextPlace where
  | plain
  | escape (high : Option Nat)
  /-- Inside the four digits behind `\u`: how many are missing and their value so far. -/
  | hex (missing value : Nat) (high : Option Nat)
  /-- Behind a high surrogate, in front of the backslash that has to follow. -/
  | surrogate (high : Nat)
  deriving DecidableEq, Repr

/-- The place behind four hexadecimal digits, and the character they complete. -/
def unit? (high : Option Nat) (n : Nat) : Option (TextPlace × Option Char) :=
  let isHigh := 0xD800 ≤ n ∧ n < 0xDC00
  let isLow := 0xDC00 ≤ n ∧ n < 0xE000
  match high with
  | none =>
    if isHigh then some (.surrogate n, none)
    else if isLow then none
    else some (.plain, some (Char.ofNat n))
  | some h =>
    if isLow then
      some (.plain, some (Char.ofNat (0x10000 + (h - 0xD800) * 0x400 + (n - 0xDC00))))
    else none

/-- The rest of a text and what follows its closing quote; `read` holds the characters so
far, latest first. -/
def textFrom (place : TextPlace) (read : List Char) : List Char → Option (String × List Char)
  | [] => none
  | c :: cs =>
    match place with
    | .plain =>
      if c = '"' then some (String.ofList read.reverse, cs)
      else if c = '\\' then textFrom (.escape none) read cs
      else if c.toNat < 0x20 then none
      else textFrom .plain (c :: read) cs
    | .escape high =>
      if c = 'u' then textFrom (.hex 4 0 high) read cs
      else if high.isSome then none
      else
        match escape? c with
        | some d => textFrom .plain (d :: read) cs
        | none => none
    | .hex missing value high =>
      match Text.hexValue? c with
      | none => none
      | some d =>
        if 1 < missing then textFrom (.hex (missing - 1) (value * 16 + d) high) read cs
        else
          match unit? high (value * 16 + d) with
          | some (place, some char) => textFrom place (char :: read) cs
          | some (place, none) => textFrom place read cs
          | none => none
    | .surrogate high => if c = '\\' then textFrom (.escape (some high)) read cs else none

/-- What follows the blanks and the given character. -/
def after? (c : Char) (cs : List Char) : Option (List Char) :=
  match cs.dropWhile isSpace with
  | d :: rest => if d = c then some rest else none
  | [] => none

/-- A member of an object and what follows it. -/
def member? (cs : List Char) : Option ((String × String) × List Char) := do
  let (name, rest) ← textFrom .plain [] (← after? '"' cs)
  let (value, rest) ← textFrom .plain [] (← after? '"' (← after? ':' rest))
  return ((name, value), rest)

/-- The members of an object up to its end, at most `limit`, and what follows it. -/
def members? (limit : Nat) (cs : List Char) : Option (List (String × String) × List Char) :=
  match limit with
  | 0 => none
  | limit + 1 => do
    let (m, rest) ← member? cs
    match after? '\x7d' rest with
    | some rest => return ([m], rest)
    | none =>
      let (ms, rest) ← members? limit (← after? ',' rest)
      return (m :: ms, rest)

/-- The members of the object that a text is, as they stand there. -/
def object? (text : String) : Option (List (String × String)) := do
  let cs ← after? '\x7b' text.toList
  let (ms, rest) ← match after? '\x7d' cs with
    | some rest => some ([], rest)
    | none => members? cs.length cs
  if rest.all isSpace then some ms else none

/-- The dictionary that a text is: every name once, in the order of code points, with the
value of its last member. -/
def dictionary? (text : String) : Option (List (String × String)) :=
  (object? text).map fun ms =>
    (Names.ofList (ms.map Prod.fst)).filterMap fun n => ms.reverse.find? fun m => m.1 = n

end Json

end Formulary
