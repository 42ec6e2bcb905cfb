import TemplateMarkup.Json.Form

/-!
# The grammar of JSON texts

Which texts are JSON, said as a grammar and not by reading them, and what strings and objects
stand for. The functions that read are compared with it, and so is the one that writes: they have
nothing in common with it but the characters.

## The model

Every rule says of a list of characters that it is a text of some kind. `Spells cs s` says that
`s` is one of the ways to write the characters `cs` between quotes; `IsString s` asks only that
`s` is well formed, so that half of a surrogate pair may stand alone in it. `IsValue` says that a
text is a value, of whatever kind, depth and size; the parts of arrays and of objects are alike
but for the names in front of them (`IsLead`). `IsObject ms s` says that `s` is an object, and
which members it has in which order: for each member its name, however it is spelled, and the
text of its value.
-/

namespace TemplateMarkup

namespace Json

/-- **Blanks**: any number of the characters that may stand between the parts of a text. -/
def Blanks (s : List Char) : Prop := ∀ c ∈ s, c ∈ [' ', '\t', '\n', '\r']

/-! ### Strings -/

/-- `HexDigit n c`: the character `c` is a hexadecimal digit of the value `n`. -/
def HexDigit (n : Nat) (c : Char) : Prop :=
  "0123456789abcdef".toList[n]? = some c ∨ "0123456789ABCDEF".toList[n]? = some c

/-- `HexFour n s`: four hexadecimal digits of the value `n`. -/
inductive HexFour : Nat → List Char → Prop where
  /-- They are given from the highest to the lowest. -/
  | digits {i j k l : Nat} {a b c d : Char} : HexDigit i a → HexDigit j b → HexDigit k c →
      HexDigit l d → HexFour (0x1000 * i + 0x100 * j + 0x10 * k + l) [a, b, c, d]

/-- The characters that can be escaped by a single one, behind the one that does it. -/
def shortEscapes : List (Char × Char) :=
  [('"', '"'), ('\\', '\\'), ('/', '/'), ('b', '\x08'), ('f', '\x0c'), ('n', '\n'), ('r', '\r'),
   ('t', '\t')]

/-- A character that stands for itself between quotes. -/
def IsPlain (c : Char) : Prop := ' ' ≤ c ∧ c ≠ '"' ∧ c ≠ '\\'

/-- `SpellsChar c s`: the text `s` is a way to write the character `c` between quotes. -/
inductive SpellsChar : Char → List Char → Prop where
  /-- As itself. -/
  | plain {c : Char} : IsPlain c → SpellsChar c [c]
  /-- As a letter behind a backslash. -/
  | short {e c : Char} : (e, c) ∈ shortEscapes → SpellsChar c ['\\', e]
  /-- By its code point, if that fits into sixteen bits. -/
  | unit {c : Char} {s : List Char} : HexFour c.toNat s → SpellsChar c ('\\' :: 'u' :: s)
  /-- By its two surrogates, if it does not. -/
  | pair {c : Char} {s t : List Char} : 0x10000 ≤ c.toNat →
      HexFour (0xd800 + (c.toNat - 0x10000) / 0x400) s →
      HexFour (0xdc00 + (c.toNat - 0x10000) % 0x400) t →
      SpellsChar c ('\\' :: 'u' :: s ++ '\\' :: 'u' :: t)

/-- `Spells cs s`: the text `s` is a way to write the characters `cs` between quotes. -/
inductive Spells : List Char → List Char → Prop where
  /-- There is nothing to write. -/
  | nil : Spells [] []
  /-- The characters are written one after the other. -/
  | cons {c : Char} {cs s t : List Char} : SpellsChar c s → Spells cs t → Spells (c :: cs) (s ++ t)

/-- A text that may stand between quotes as a piece by itself. -/
inductive IsStringPiece : List Char → Prop where
  /-- A character that stands for itself. -/
  | plain {c : Char} : IsPlain c → IsStringPiece [c]
  /-- A letter behind a backslash. -/
  | short {e c : Char} : (e, c) ∈ shortEscapes → IsStringPiece ['\\', e]
  /-- Any four hexadecimal digits, those of a surrogate too. -/
  | unit {n : Nat} {s : List Char} : HexFour n s → IsStringPiece ('\\' :: 'u' :: s)

/-- A text that may stand between quotes. -/
inductive IsString : List Char → Prop where
  /-- Nothing. -/
  | nil : IsString []
  /-- A piece, and more behind it. -/
  | cons {s t : List Char} : IsStringPiece s → IsString t → IsString (s ++ t)

/-- A text with quotes around it. -/
def inQuotes (s : List Char) : List Char := '"' :: s ++ ['"']

/-- `Quotes s t`: the text `s` is the string `t`, in quotes and spelled in whichever way. -/
inductive Quotes : List Char → String → Prop where
  /-- Its characters are spelled between the quotes. -/
  | spelled {t : String} {s : List Char} : Spells t.toList s → Quotes (inQuotes s) t

/-! ### Numerals -/

/-- Digits, at least one. -/
def IsDigits (s : List Char) : Prop := s ≠ [] ∧ ∀ c ∈ s, c.isDigit = true

/-- What stands before the point: a zero, or digits that do not start with one. -/
inductive IsWhole : List Char → Prop where
  /-- A single zero. -/
  | zero : IsWhole ['0']
  /-- Digits that start with another one. -/
  | digits {c : Char} {s : List Char} : c ≠ '0' → IsDigits (c :: s) → IsWhole (c :: s)

/-- A point and digits, or nothing. -/
inductive IsFraction : List Char → Prop where
  /-- Nothing. -/
  | none : IsFraction []
  /-- A point and digits. -/
  | digits {s : List Char} : IsDigits s → IsFraction ('.' :: s)

/-- The letter of an exponent, a sign or none, and digits; or nothing at all. -/
inductive IsExponent : List Char → Prop where
  /-- Nothing. -/
  | none : IsExponent []
  /-- An exponent. -/
  | digits {e : Char} {sign s : List Char} : e ∈ ['e', 'E'] → sign ∈ [[], ['+'], ['-']] →
      IsDigits s → IsExponent (e :: sign ++ s)

/-- A numeral, of whatever size. -/
inductive IsNumeral : List Char → Prop where
  /-- It may have a minus sign. -/
  | parts {sign whole fraction exponent : List Char} : sign ∈ [[], ['-']] → IsWhole whole →
      IsFraction fraction → IsExponent exponent →
      IsNumeral (sign ++ (whole ++ (fraction ++ exponent)))

/-! ### Values -/

/-- The character that opens a bracket. -/
def Bracket.opener : Bracket → Char
  | square => '['
  | curly => '{'

/-- `IsLead b s`: what may stand in front of a value in the bracket `b`, blanks included. -/
inductive IsLead : Bracket → List Char → Prop where
  /-- Nothing stands in front of an element of an array. -/
  | element {blanks : List Char} : Blanks blanks → IsLead .square blanks
  /-- A name and a colon stand in front of the value of a member. -/
  | name {before s between behind : List Char} : Blanks before → IsString s → Blanks between →
      Blanks behind → IsLead .curly (before ++ (inQuotes s ++ (between ++ ':' :: behind)))

mutual

/-- `IsValue s`: the text `s` is a value. -/
inductive IsValue : List Char → Prop where
  /-- One of three words. -/
  | word {s : List Char} : s ∈ ["null".toList, "true".toList, "false".toList] → IsValue s
  /-- A number. -/
  | numeral {s : List Char} : IsNumeral s → IsValue s
  /-- A string. -/
  | string {s : List Char} : IsString s → IsValue (inQuotes s)
  /-- An array or an object with nothing in it. -/
  | empty {b : Bracket} {blanks : List Char} : Blanks blanks →
      IsValue (b.opener :: blanks ++ [b.closer])
  /-- An array or an object with something in it. -/
  | filled {b : Bracket} {s : List Char} : IsItems b s → IsValue (b.opener :: s ++ [b.closer])

/-- `IsItems b s`: what may stand in the bracket `b`, if anything does. -/
inductive IsItems : Bracket → List Char → Prop where
  /-- A single value. -/
  | one {b : Bracket} {lead s blanks : List Char} : IsLead b lead → IsValue s → Blanks blanks →
      IsItems b (lead ++ (s ++ blanks))
  /-- A value, and more behind a comma. -/
  | more {b : Bracket} {lead s blanks rest : List Char} : IsLead b lead → IsValue s →
      Blanks blanks → IsItems b rest → IsItems b (lead ++ (s ++ (blanks ++ ',' :: rest)))

end

/-! ### Objects and their members -/

/-- A member of an object: its name, and the text of its value. -/
abbrev Member := String × List Char

/-- `IsMember m s`: the text `s` is the member `m`, with the blanks around it. -/
inductive IsMember : Member → List Char → Prop where
  /-- The name may be spelled in any way. -/
  | parts {name : String} {value before s between behind after : List Char} : Blanks before →
      Spells name.toList s → Blanks between → Blanks behind → Blanks after →
      IsMember (name, value)
        (before ++ (inQuotes s ++ (between ++ ':' :: (behind ++ (value ++ after)))))

/-- `AreMembers ms s`: the text `s` is the members `ms`, with commas between them. -/
inductive AreMembers : List Member → List Char → Prop where
  /-- A single member. -/
  | one {m : Member} {s : List Char} : IsMember m s → AreMembers [m] s
  /-- A member, and more behind a comma. -/
  | more {m : Member} {ms : List Member} {s rest : List Char} : IsMember m s → AreMembers ms rest →
      AreMembers (m :: ms) (s ++ ',' :: rest)

/-- `IsObject ms s`: the text `s` is an object with the members `ms`, in this order. -/
inductive IsObject : List Member → List Char → Prop where
  /-- An object without members. -/
  | empty {blanks : List Char} : Blanks blanks → IsObject [] ('{' :: blanks ++ ['}'])
  /-- An object with members. -/
  | members {ms : List Member} {s : List Char} : AreMembers ms s → IsObject ms ('{' :: s ++ ['}'])

end Json

end TemplateMarkup
