import Hotplug.Proofs.Json.Numerals
/-!
The grammar of JSON, said without its reader: how strings and numerals are written, which lexemes
make up a document, and that blanks may stand between them. Also what a document says. One that
holds half a surrogate pair, or a number too large to be kept, is a document and says nothing.
-/
namespace Hotplug.Json

open Hotplug.Text

/-- A character of a string, or a unit of 16 bits that is written by its number. -/
inductive Piece where
  | char (c : Char)
  | unit (n : Nat)
  deriving DecidableEq, Repr

def escapes : List (Char × Char) :=
  [('"', '"'), ('\\', '\\'), ('/', '/'), ('b', '\x08'), ('f', '\x0c'), ('n', '\n'), ('r', '\r'),
    ('t', '\t')]

inductive Piece.Spelled : Piece → List Char → Prop
  | plain {c : Char} : c ≠ '"' → c ≠ '\\' → 0x20 ≤ c.toNat → Spelled (.char c) [c]
  | letter {e c : Char} : (e, c) ∈ escapes → Spelled (.char c) ['\\', e]
  | number {a b c d : Char} {i j k l : Nat} : hexValue? a = some i → hexValue? b = some j →
    hexValue? c = some k → hexValue? d = some l →
    Spelled (.unit (i * 4096 + j * 256 + k * 16 + l)) ['\\', 'u', a, b, c, d]

inductive Body : List Piece → List Char → Prop
  | nil : Body [] []
  | cons {p : Piece} {ps : List Piece} {w s : List Char} : p.Spelled w → Body ps s →
    Body (p :: ps) (w ++ s)

/-- The characters that the pieces stand for. Two units of a surrogate pair are one character; a
unit of a pair that stands alone is none. -/
def charsOf? : List Piece → Option (List Char)
  | [] => some []
  | .char c :: ps => (charsOf? ps).map (c :: ·)
  | .unit n :: .unit m :: ps =>
    if 0xD800 ≤ n ∧ n ≤ 0xDBFF then
      if 0xDC00 ≤ m ∧ m ≤ 0xDFFF then
        (charsOf? ps).map (Char.ofNat (0x10000 + (n - 0xD800) * 0x400 + (m - 0xDC00)) :: ·)
      else none
    else if 0xDC00 ≤ n ∧ n ≤ 0xDFFF then none
    else (charsOf? (.unit m :: ps)).map (Char.ofNat n :: ·)
  | .unit n :: ps =>
    if 0xD800 ≤ n ∧ n ≤ 0xDFFF then none else (charsOf? ps).map (Char.ofNat n :: ·)

def textOf? (ps : List Piece) : Option String := (charsOf? ps).map String.ofList

inductive ExponentSpelled : Option Int → List Char → Prop
  | none : ExponentSpelled none []
  | some {letter : Char} {sign cs : List Char} : letter ∈ ['e', 'E'] →
    sign ∈ [[], ['+'], ['-']] → Digits cs →
    ExponentSpelled (some (Numeral.signed (sign == ['-']) (Numeral.ofDigits (cs.map digit))))
      (letter :: (sign ++ cs))

def signText (negative : Bool) : List Char := if negative then ['-'] else []

inductive Numeral.Spelled : Numeral → List Char → Prop
  | parts {cs es : List Char} {fraction : Option (List Char)} {exponent : Option Int}
    (negative : Bool) : Whole cs → (∀ ds ∈ fraction, Digits ds) → ExponentSpelled exponent es →
    Spelled ⟨negative, cs.map digit, (fraction.getD []).map digit, exponent⟩
      (signText negative ++ (cs ++ (fractionText fraction ++ es)))

inductive Lexeme where
  | opening (bracket : Bracket)
  | closing (bracket : Bracket)
  | comma
  | colon
  | literal (value : Literal)
  | number (numeral : Numeral)
  | string (pieces : List Piece)

def Bracket.front : Bracket → Char
  | .square => '['
  | .curly => '\x7b'

def Bracket.back : Bracket → Char
  | .square => ']'
  | .curly => '\x7d'

def Literal.text : Literal → List Char
  | .null => ['n', 'u', 'l', 'l']
  | .bool true => ['t', 'r', 'u', 'e']
  | .bool false => ['f', 'a', 'l', 's', 'e']

inductive Lexeme.Spelled : Lexeme → List Char → Prop
  | opening (bracket : Bracket) : Spelled (.opening bracket) [bracket.front]
  | closing (bracket : Bracket) : Spelled (.closing bracket) [bracket.back]
  | comma : Spelled .comma [',']
  | colon : Spelled .colon [':']
  | literal (value : Literal) : Spelled (.literal value) value.text
  | number {numeral : Numeral} {s : List Char} : numeral.Spelled s → Spelled (.number numeral) s
  | string {pieces : List Piece} {s : List Char} : Body pieces s →
    Spelled (.string pieces) ('"' :: (s ++ ['"']))

def Blank (s : List Char) : Prop := ∀ c ∈ s, c ∈ [' ', '\n', '\t', '\r']

/-- The text begins with the lexemes, with blanks before each, and goes on with the rest. -/
inductive Begins : List Lexeme → List Char → List Char → Prop
  | nil (s : List Char) : Begins [] s s
  | cons {l : Lexeme} {ls : List Lexeme} {blanks w s rest : List Char} : Blank blanks →
    l.Spelled w → Begins ls s rest → Begins (l :: ls) (blanks ++ (w ++ s)) rest

inductive Document where
  | literal (value : Literal)
  | number (numeral : Numeral)
  | string (pieces : List Piece)
  | array (items : List Document)
  | object (members : List (List Piece × Document))

mutual

def Document.lexemes : Document → List Lexeme
  | .literal value => [.literal value]
  | .number numeral => [.number numeral]
  | .string pieces => [.string pieces]
  | .array [] => [.opening .square, .closing .square]
  | .array (item :: items) =>
    .opening .square :: (item.lexemes ++ (itemLexemes items ++ [.closing .square]))
  | .object [] => [.opening .curly, .closing .curly]
  | .object ((key, value) :: members) =>
    .opening .curly :: .string key :: .colon ::
      (value.lexemes ++ (memberLexemes members ++ [.closing .curly]))

def itemLexemes : List Document → List Lexeme
  | [] => []
  | item :: items => .comma :: (item.lexemes ++ itemLexemes items)

def memberLexemes : List (List Piece × Document) → List Lexeme
  | [] => []
  | (key, value) :: members =>
    .comma :: .string key :: .colon :: (value.lexemes ++ memberLexemes members)

end

/-- The text is the document, with blanks wherever there may be some. -/
def Document.Spelled (d : Document) (s : List Char) : Prop :=
  ∃ rest, Begins d.lexemes s rest ∧ Blank rest

mutual

def Document.depth : Document → Nat
  | .literal _ | .number _ | .string _ => 0
  | .array items => itemsDepth items + 1
  | .object members => membersDepth members + 1

def itemsDepth : List Document → Nat
  | [] => 0
  | item :: items => max item.depth (itemsDepth items)

def membersDepth : List (List Piece × Document) → Nat
  | [] => 0
  | (_, value) :: members => max value.depth (membersDepth members)

end

def keysOf (told : Members) : List String := (told.map (·.1)).eraseDups

def last? (told : Members) (key : String) : Option Value := told.reverse.lookup key

/-- What members say that may repeat a key: it keeps its first place and takes its last value. -/
def merged (told : Members) : Members :=
  (keysOf told).filterMap fun key => (last? told key).map (key, ·)

def Literal.toValue : Literal → Value
  | .null => .null
  | .bool b => .bool b

mutual

/-- What a document says. -/
def Document.value? : Document → Option Value
  | .literal value => some value.toValue
  | .number numeral => numeral.value?.map .number
  | .string pieces => (textOf? pieces).map .string
  | .array items => (itemsTold? items).map .array
  | .object members => (membersTold? members).map fun told => .object (merged told)

def itemsTold? : List Document → Option (List Value)
  | [] => some []
  | item :: items => do
    let first ← item.value?
    let rest ← itemsTold? items
    return first :: rest

def membersTold? : List (List Piece × Document) → Option Members
  | [] => some []
  | (key, value) :: members => do
    let name ← textOf? key
    let first ← value.value?
    let rest ← membersTold? members
    return (name, first) :: rest

end

/-- The text is an object that holds the members, in the order and with the repeats in which they
are written, and at most 127 brackets are open in it at once. -/
def Tells (text : String) (told : Members) : Prop :=
  ∃ members, (Document.object members).Spelled text.toList ∧
    (Document.object members).depth ≤ 127 ∧ membersTold? members = some told

end Hotplug.Json
