/-!
# UTF-8

Octets are natural numbers. `encode` writes one to four octets for a character. `decode` reads any
octets: the machine in it remembers how many octets the current character still owes and the range
that the next one must lie in. Octets that belong to no character become U+FFFD, one for each
longest start of a character that is broken off, so that no input is refused.
-/

namespace Paging.Text.Utf8

/-- The character that stands for octets which encode none. -/
def replacement : Char := '\uFFFD'

/-- The octets of one character. -/
def encodeChar (c : Char) : List Nat :=
  let code := c.toNat
  if code < 0x80 then [code]
  else if code < 0x800 then [0xC0 + code / 0x40, 0x80 + code % 0x40]
  else if code < 0x10000 then
    [0xE0 + code / 0x1000, 0x80 + code / 0x40 % 0x40, 0x80 + code % 0x40]
  else
    [0xF0 + code / 0x40000, 0x80 + code / 0x1000 % 0x40, 0x80 + code / 0x40 % 0x40,
      0x80 + code % 0x40]

/-- The octets of a text. -/
def encode (text : List Char) : List Nat := text.flatMap encodeChar

/-- A character that is not complete yet. -/
structure Pending where
  /-- The bits read so far. -/
  code : Nat
  /-- How many octets are owed. -/
  owed : Nat
  /-- The least octet that may come next. -/
  low : Nat
  /-- The greatest octet that may come next. -/
  high : Nat

/-- What an octet between two characters begins: a whole character, a longer one, or nothing. -/
inductive Start where
  | whole (c : Char)
  | longer (pending : Pending)
  | invalid

/-- The ranges of the second octet keep out overlong forms, surrogates and codes past U+10FFFF. -/
def start (octet : Nat) : Start :=
  if octet < 0x80 then .whole (Char.ofNat octet)
  else if octet < 0xC2 then .invalid
  else if octet < 0xE0 then .longer ⟨octet - 0xC0, 1, 0x80, 0xBF⟩
  else if octet = 0xE0 then .longer ⟨0, 2, 0xA0, 0xBF⟩
  else if octet = 0xED then .longer ⟨0xD, 2, 0x80, 0x9F⟩
  else if octet < 0xF0 then .longer ⟨octet - 0xE0, 2, 0x80, 0xBF⟩
  else if octet = 0xF0 then .longer ⟨0, 3, 0x90, 0xBF⟩
  else if octet < 0xF4 then .longer ⟨octet - 0xF0, 3, 0x80, 0xBF⟩
  else if octet = 0xF4 then .longer ⟨4, 3, 0x80, 0x8F⟩
  else .invalid

/-- One octet between two characters: the characters it completes and what it leaves pending. -/
def first (octet : Nat) : List Char × Option Pending :=
  match start octet with
  | .whole c => ([c], none)
  | .longer pending => ([], some pending)
  | .invalid => ([replacement], none)

/-- One octet after the start of a character. An octet out of range breaks the character off and
is read again as the start of the next one. -/
def resume (pending : Pending) (octet : Nat) : List Char × Option Pending :=
  if pending.low ≤ octet ∧ octet ≤ pending.high then
    let code := pending.code * 0x40 + (octet - 0x80)
    if pending.owed ≤ 1 then ([Char.ofNat code], none)
    else ([], some ⟨code, pending.owed - 1, 0x80, 0xBF⟩)
  else
    let (done, next) := first octet
    (replacement :: done, next)

/-- The characters of the octets that follow, given what is pending. -/
def decodeFrom : Option Pending → List Nat → List Char
  | none, [] => []
  | some _, [] => [replacement]
  | none, octet :: rest =>
      let (done, next) := first octet
      done ++ decodeFrom next rest
  | some pending, octet :: rest =>
      let (done, next) := resume pending octet
      done ++ decodeFrom next rest

/-- The text that octets stand for. -/
def decode (octets : List Nat) : List Char := decodeFrom none octets

end Paging.Text.Utf8
