import Paging.Json.Printer

/-!
# SQL values

What can be bound in a statement, and how a bound value is written as a literal when the statement
is shown in one piece. Literals of strings depend on the dialect: some double the quote, some escape
with backslashes.
-/

namespace Paging.Sql

/-- The kind of database a statement is meant for. -/
inductive Dialect where
  | sqlite
  | postgres
  | mysql
deriving DecidableEq, Repr

/-- A value that can be bound. -/
inductive Value where
  | bool (value : Bool)
  /-- An integer of 32 bits. -/
  | int (value : Int)
  /-- An integer of 64 bits. -/
  | bigInt (value : Int)
  /-- A 64-bit word. -/
  | word (value : UInt64)
  | double (value : Double)
  | text (value : String)
deriving DecidableEq

/-! ## Quoting -/

/-- Text between two quote characters, of which those inside are doubled. -/
def doubling (quote : Char) (text : String) : List Char :=
  quote :: text.toList.flatMap (fun c => if c = quote then [c, c] else [c]) ++ [quote]

/-- The name of a table or column. -/
def Dialect.identifier (dialect : Dialect) (name : String) : List Char :=
  match dialect with
  | .mysql => doubling '\x60' name
  | .sqlite | .postgres => doubling '"' name

/-- One character of a string literal with backslash escapes. -/
def backslashChar (c : Char) : List Char :=
  if c = '\\' ∨ c = '"' ∨ c = '\'' then ['\\', c]
  else if c = '\x00' then ['\\', '0']
  else if c = '\x08' then ['\\', 'b']
  else if c = '\t' then ['\\', 't']
  else if c = '\x1a' then ['\\', 'z']
  else if c = '\n' then ['\\', 'n']
  else if c = '\r' then ['\\', 'r']
  else [c]

/-- A string literal. -/
def Dialect.quoted (dialect : Dialect) (text : String) : List Char :=
  let escaped := text.toList.flatMap backslashChar
  match dialect with
  | .sqlite => doubling '\'' text
  | .mysql => '\'' :: escaped ++ ['\'']
  | .postgres =>
      let literal := '\'' :: escaped ++ ['\'']
      if '\\' ∈ escaped then 'E' :: literal else literal

/-! ## Literals -/

/-- A double with its shortest digits, positionally and without a point after an integer. -/
def doubleChars (x : Double) : List Char :=
  let magnitude := (x.shortest .away).positional
  if x.negative then '-' :: magnitude else magnitude

/-- A value as a literal. -/
def Value.literal (dialect : Dialect) : Value → List Char
  | .bool true => ['T', 'R', 'U', 'E']
  | .bool false => ['F', 'A', 'L', 'S', 'E']
  | .int n | .bigInt n => Json.intChars n
  | .word n => Nat.toDigits 10 n.toNat
  | .double x => doubleChars x
  | .text s => dialect.quoted s

end Paging.Sql
