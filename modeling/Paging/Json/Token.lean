import Paging.Numeral
import Paging.Text.Hex

/-!
# Tokens of JSON texts

A text is cut into brackets, punctuation, literal words, numerals and strings. The grammar of JSON
never has two values side by side, so that each token can be taken as long as possible: `01` becomes
two tokens and is refused later, like every other text in which values are not separated.

Numerals are not evaluated here, and neither are strings with escapes of surrogates that do not pair:
such a string is a token without a text. A value that nobody asks for may therefore hold numbers out
of range or broken strings.
-/

namespace Paging.Json

/-- A token. A string has no text if some surrogate in it does not pair. -/
inductive Token where
  | leftBrace
  | rightBrace
  | leftBracket
  | rightBracket
  | colon
  | comma
  | null
  | bool (value : Bool)
  | num (numeral : Numeral)
  | str (text : Option String)
deriving DecidableEq

namespace Token

/-! ## Strings -/

/-- A part of a string: a character, or the code unit of a `\u` escape. -/
inductive Piece where
  | char (c : Char)
  | unit (code : Nat)
deriving DecidableEq

/-- The code unit that four hexadecimal digits denote. -/
def codeUnit? (a b c d : Char) : Option Nat := do
  let a ← Text.Hex.value? a
  let b ← Text.Hex.value? b
  let c ← Text.Hex.value? c
  let d ← Text.Hex.value? d
  return ((a * 16 + b) * 16 + c) * 16 + d

/-- The character that a one-letter escape stands for. -/
def escaped? (letter : Char) : Option Char :=
  match letter with
  | '"' => some '"'
  | '\\' => some '\\'
  | '/' => some '/'
  | 'b' => some '\x08'
  | 'f' => some '\x0c'
  | 'n' => some '\n'
  | 'r' => some '\r'
  | 't' => some '\t'
  | _ => none

/-- The parts of a string up to its closing quote, and the text after it. Control characters below
U+0020 have to be escaped. -/
def takeString? : List Char → Option (List Piece × List Char)
  | [] => none
  | '"' :: rest => some ([], rest)
  | '\\' :: 'u' :: a :: b :: c :: d :: rest => do
      let code ← codeUnit? a b c d
      let (pieces, after) ← takeString? rest
      return (.unit code :: pieces, after)
  | '\\' :: letter :: rest => do
      let c ← escaped? letter
      let (pieces, after) ← takeString? rest
      return (.char c :: pieces, after)
  | c :: rest =>
      if c = '\\' ∨ c.toNat < 0x20 then none
      else do
        let (pieces, after) ← takeString? rest
        return (.char c :: pieces, after)

/-- Whether a code unit is the first of a surrogate pair. -/
def isHighSurrogate (code : Nat) : Bool := 0xD800 ≤ code && code < 0xDC00

/-- Whether a code unit is the second of a surrogate pair. -/
def isLowSurrogate (code : Nat) : Bool := 0xDC00 ≤ code && code < 0xE000

/-- The characters of a string, pairs of surrogates combined. There are none if a surrogate does
not pair. -/
def characters? : List Piece → Option (List Char)
  | [] => some []
  | .char c :: rest => (characters? rest).map (c :: ·)
  | .unit high :: .unit low :: rest =>
      if isHighSurrogate high then
        if isLowSurrogate low then
          let code := 0x10000 + (high - 0xD800) * 0x400 + (low - 0xDC00)
          (characters? rest).map (Char.ofNat code :: ·)
        else none
      else if isLowSurrogate high then none
      else (characters? (.unit low :: rest)).map (Char.ofNat high :: ·)
  | .unit code :: rest =>
      if isHighSurrogate code || isLowSurrogate code then none
      else (characters? rest).map (Char.ofNat code :: ·)

/-! ## Cutting a text -/

/-- The space, tab, line feed and carriage return, which may stand between tokens. -/
def isSpace (c : Char) : Bool := c = ' ' || c = '\t' || c = '\n' || c = '\r'

/-- The token at the front of a text that starts with no space, and the text after it. -/
def take? : List Char → Option (Token × List Char)
  | '\x7b' :: rest => some (.leftBrace, rest)
  | '\x7d' :: rest => some (.rightBrace, rest)
  | '[' :: rest => some (.leftBracket, rest)
  | ']' :: rest => some (.rightBracket, rest)
  | ':' :: rest => some (.colon, rest)
  | ',' :: rest => some (.comma, rest)
  | 'n' :: 'u' :: 'l' :: 'l' :: rest => some (.null, rest)
  | 't' :: 'r' :: 'u' :: 'e' :: rest => some (.bool true, rest)
  | 'f' :: 'a' :: 'l' :: 's' :: 'e' :: rest => some (.bool false, rest)
  | '"' :: rest => do
      let (pieces, after) ← takeString? rest
      return (.str ((characters? pieces).map String.ofList), after)
  | text => do
      let (numeral, after) ← Numeral.takeJson? text
      return (.num numeral, after)

/-- The tokens of a text, of which at most `fuel` characters and tokens are looked at. -/
def takeAll? : Nat → List Char → Option (List Token)
  | 0, _ => none
  | _ + 1, [] => some []
  | fuel + 1, c :: rest =>
      if isSpace c then takeAll? fuel rest
      else do
        let (token, after) ← take? (c :: rest)
        let tokens ← takeAll? fuel after
        return token :: tokens

/-- The tokens of a text. Each step takes one character at least, so that the length of the text
bounds their number. -/
def ofText? (text : List Char) : Option (List Token) := takeAll? (text.length + 1) text

end Token

end Paging.Json
