import Mathlib.Algebra.Order.Ring.Nat
import Mathlib.Data.Int.Notation
import Mathlib.Data.List.Basic
import Mathlib.Data.List.Nodup
import Mathlib.Tactic.Common

/-! Values of JSON, their texts, and a reader of texts that gives every value back. -/
namespace JsonText

/-- What the reader takes besides numbers. -/
inductive Constant where
  | nan
  | infinity
  | negInfinity
  deriving Repr, DecidableEq

/-- Values over a type of finite floats. -/
inductive Value (F : Type) where
  | null
  | bool (b : Bool)
  | int (n : ℤ)
  | float (f : F)
  | constant (c : Constant)
  | str (s : String)
  | arr (items : List (Value F))
  | obj (fields : List (String × Value F))

/-! Numbers. -/

/-- A whole number: zero, or digits that do not start with it. -/
def IsWhole : List Char → Prop
  | [] => False
  | '0' :: ds => ds = []
  | d :: ds => d.isDigit = true ∧ ∀ c ∈ ds, c.isDigit = true

/-- One digit at least. -/
def IsDigits (ds : List Char) : Prop := ds ≠ [] ∧ ∀ c ∈ ds, c.isDigit = true

def IsFraction (fraction : List Char) : Prop :=
  fraction = [] ∨ ∃ ds, fraction = '.' :: ds ∧ IsDigits ds

/-- The exponent of a number, with its sign. -/
def IsExponent (exponent : List Char) : Prop :=
  exponent = [] ∨ ∃ e sign ds, exponent = e :: (sign ++ ds) ∧ (e = 'e' ∨ e = 'E') ∧
    (sign = [] ∨ sign = ['+'] ∨ sign = ['-']) ∧ IsDigits ds

/-- The text of a float has a fraction or an exponent. -/
def IsFloat (text : List Char) : Prop :=
  ∃ negative : Bool, ∃ whole fraction exponent : List Char,
    text = (if negative then ['-'] else []) ++ whole ++ fraction ++ exponent ∧ IsWhole whole ∧
    IsFraction fraction ∧ IsExponent exponent ∧ (fraction ≠ [] ∨ exponent ≠ [])

theorem isFloat_zero : Unit → IsFloat "0.0".toList := fun _ =>
  ⟨false,['0'],['.','0'],[],rfl,rfl,.inr ⟨['0'],rfl,by simp,by simp⟩,.inl rfl,.inl (by simp)⟩

/-- Finite floats: the text of one, and what a text reads as. -/
class FloatText (F : Type) where
  repr : F → List Char
  read : List Char → F
  isFloat_repr : ∀ f, IsFloat (repr f)
  read_repr : ∀ f, read (repr f) = f

def intText (n : ℤ) : List Char := (if n < 0 then ['-'] else []) ++ Nat.toDigits 10 n.natAbs

/-- `int(text)`. -/
def readInt : List Char → ℤ
  | '-' :: ds => -(Nat.ofDigitChars 10 ds 0 : ℤ)
  | ds => (Nat.ofDigitChars 10 ds 0 : ℤ)

/-! Strings. -/

/-- The hexadecimal digit of a number below sixteen. -/
def hexDigit (n : ℕ) : Char := if n < 10 then Char.ofNat (48 + n) else Char.ofNat (87 + n)

def hexValue (c : Char) : Option ℕ :=
  let n := c.toNat
  if 48 ≤ n ∧ n ≤ 57 then some (n - 48)
  else if 97 ≤ n ∧ n ≤ 102 then some (n - 87)
  else if 65 ≤ n ∧ n ≤ 70 then some (n - 55)
  else none

/-- `\uXXXX`. -/
def unicodeEscape (n : ℕ) : List Char :=
  ['\\','u',hexDigit (n / 4096 % 16),hexDigit (n / 256 % 16),hexDigit (n / 16 % 16),hexDigit (n % 16)]

def highSurrogate (n : ℕ) : ℕ := 55296 + (n - 65536) / 1024

def lowSurrogate (n : ℕ) : ℕ := 56320 + (n - 65536) % 1024

/-- A character of a string as its text holds it. -/
def escapeChar (ascii : Bool) (c : Char) : List Char :=
  if c = '"' then ['\\','"']
  else if c = '\\' then ['\\','\\']
  else if c.toNat = 8 then ['\\','b']
  else if c.toNat = 9 then ['\\','t']
  else if c.toNat = 10 then ['\\','n']
  else if c.toNat = 12 then ['\\','f']
  else if c.toNat = 13 then ['\\','r']
  else if c.toNat < 32 then unicodeEscape c.toNat
  else if ascii = true ∧ 126 < c.toNat then
    if c.toNat < 65536 then unicodeEscape c.toNat
    else unicodeEscape (highSurrogate c.toNat) ++ unicodeEscape (lowSurrogate c.toNat)
  else [c]

def stringText (ascii : Bool) (s : String) : List Char :=
  '"' :: (s.toList.flatMap (escapeChar ascii) ++ ['"'])

/-- The code of a short escape. -/
def shortEscape (c : Char) : Option ℕ :=
  if c = '"' ∨ c = '\\' ∨ c = '/' then some c.toNat
  else if c = 'b' then some 8
  else if c = 't' then some 9
  else if c = 'n' then some 10
  else if c = 'f' then some 12
  else if c = 'r' then some 13
  else none

/-- The codes up to the closing quote of a string, and what follows it. -/
def parseUnits : List Char → Option (List ℕ × List Char)
  | [] => none
  | '"' :: cs => some ([],cs)
  | '\\' :: 'u' :: a :: b :: c :: d :: cs => do
      let a ← hexValue a
      let b ← hexValue b
      let c ← hexValue c
      let d ← hexValue d
      let (units,rest) ← parseUnits cs
      return ((((a * 16 + b) * 16 + c) * 16 + d) :: units,rest)
  | '\\' :: c :: cs => do
      let n ← shortEscape c
      let (units,rest) ← parseUnits cs
      return (n :: units,rest)
  | c :: cs =>
      if c = '\\' ∨ c.toNat < 32 then none
      else do
        let (units,rest) ← parseUnits cs
        return (c.toNat :: units,rest)

def isHigh (n : ℕ) : Bool := decide (55296 ≤ n ∧ n ≤ 56319)

def isLow (n : ℕ) : Bool := decide (56320 ≤ n ∧ n ≤ 57343)

/-- The character of a code; half a pair is none. -/
def charOf (n : ℕ) : Char := if n.isValidChar then Char.ofNat n else Char.ofNat 65533

/-- Pairs of codes that stand for one character are joined. -/
def joinUnits : List ℕ → List Char
  | [] => []
  | [n] => [charOf n]
  | h :: l :: units =>
      if isHigh h && isLow l then
        charOf (65536 + (h - 55296) * 1024 + (l - 56320)) :: joinUnits units
      else charOf h :: joinUnits (l :: units)

def parseString (cs : List Char) : Option (String × List Char) :=
  (parseUnits cs).map fun (units,rest) => (String.ofList (joinUnits units),rest)

/-! Texts of values. -/

/-- Whether texts are ASCII, and whether separators are followed by a space. -/
structure Layout where
  ascii : Bool
  spaced : Bool

def Layout.separator (l : Layout) (c : Char) : List Char := if l.spaced then [c,' '] else [c]

def constantText : Constant → List Char
  | .nan => "NaN".toList
  | .infinity => "Infinity".toList
  | .negInfinity => "-Infinity".toList

section

variable {F : Type} [FloatText F]

mutual

def encode (l : Layout) : Value F → List Char
  | .null => "null".toList
  | .bool true => "true".toList
  | .bool false => "false".toList
  | .int n => intText n
  | .float f => FloatText.repr f
  | .constant c => constantText c
  | .str s => stringText l.ascii s
  | .arr [] => "[]".toList
  | .arr (item :: items) => '[' :: (encode l item ++ encodeItems l items)
  | .obj [] => "\x7b\x7d".toList
  | .obj ((key,value) :: fields) =>
      '\x7b' :: (stringText l.ascii key ++ l.separator ':' ++ encode l value ++
        encodeFields l fields)

/-- The items after the first, and the bracket that closes them. -/
def encodeItems (l : Layout) : List (Value F) → List Char
  | [] => [']']
  | item :: items => l.separator ',' ++ encode l item ++ encodeItems l items

def encodeFields (l : Layout) : List (String × Value F) → List Char
  | [] => ['\x7d']
  | (key,value) :: fields => l.separator ',' ++ stringText l.ascii key ++ l.separator ':' ++
      encode l value ++ encodeFields l fields

end

theorem encode_int (l : Layout) (n : ℤ) : encode l (.int n : Value F) = intText n := rfl

theorem encode_str (l : Layout) (s : String) :
    encode l (.str s : Value F) = stringText l.ascii s := rfl

theorem encode_arr_cons (l : Layout) (item : Value F) (items : List (Value F)) :
    encode l (.arr (item :: items)) = '[' :: (encode l item ++ encodeItems l items) := rfl

theorem encode_obj_cons (l : Layout) (key : String) (value : Value F)
    (fields : List (String × Value F)) :
    encode l (.obj ((key,value) :: fields)) =
      '\x7b' :: (stringText l.ascii key ++ l.separator ':' ++ encode l value ++
        encodeFields l fields) := rfl

/-! How long the texts of arrays and objects without spaces are. -/

theorem length_encodeItems (ascii : Bool) (items : List (Value F)) :
    (encodeItems ⟨ascii,false⟩ items).length =
      (items.map fun item => (encode ⟨ascii,false⟩ item).length + 1).sum + 1 := by
  induction items with
  | nil => rfl
  | cons item items ih =>
    simp only [encodeItems,List.length_append,ih,List.map_cons,List.sum_cons,Layout.separator]
    simp
    omega

theorem length_encode_arr (ascii : Bool) (items : List (Value F)) :
    (encode ⟨ascii,false⟩ (.arr items)).length =
      max 2 ((items.map fun item => (encode ⟨ascii,false⟩ item).length + 1).sum + 1) := by
  cases items with
  | nil => rfl
  | cons item items =>
    simp only [encode_arr_cons,List.length_cons,List.length_append,length_encodeItems,List.map_cons,
      List.sum_cons]
    omega

theorem length_encodeFields (ascii : Bool) (fields : List (String × Value F)) :
    (encodeFields ⟨ascii,false⟩ fields).length =
      (fields.map fun p => (stringText ascii p.1).length + (encode ⟨ascii,false⟩ p.2).length + 2).sum
        + 1 := by
  induction fields with
  | nil => rfl
  | cons field fields ih =>
    simp only [encodeFields,List.length_append,ih,List.map_cons,List.sum_cons,Layout.separator]
    simp
    omega

theorem length_encode_obj (ascii : Bool) (fields : List (String × Value F)) :
    (encode ⟨ascii,false⟩ (.obj fields)).length =
      max 2 ((fields.map fun p =>
        (stringText ascii p.1).length + (encode ⟨ascii,false⟩ p.2).length + 2).sum + 1) := by
  rcases fields with _ | ⟨⟨key,value⟩,fields⟩
  · rfl
  · simp only [encode_obj_cons,List.length_cons,List.length_append,length_encodeFields,List.map_cons,
      List.sum_cons,Layout.separator]
    simp
    omega

/-! Reading. -/

/-- The blanks between the parts of a text. -/
def isBlank (c : Char) : Bool := c == ' ' || c == '\t' || c == '\n' || c == '\r'

def skipBlank (cs : List Char) : List Char := cs.dropWhile isBlank

/-- The whole part of a number without its sign. -/
def scanWhole : List Char → Option (List Char × List Char)
  | '0' :: cs => some (['0'],cs)
  | c :: cs =>
      if c.isDigit then some ((c :: cs).takeWhile Char.isDigit,(c :: cs).dropWhile Char.isDigit)
      else none
  | [] => none

def scanSigned : List Char → Option (List Char × List Char)
  | '-' :: cs => (scanWhole cs).map fun (whole,rest) => ('-' :: whole,rest)
  | cs => scanWhole cs

/-- Digits after a mark, if there is one at least. -/
def scanDigits (mark : List Char) (cs rest : List Char) : List Char × List Char :=
  match cs.takeWhile Char.isDigit with
  | [] => ([],rest)
  | d :: ds => (mark ++ d :: ds,cs.dropWhile Char.isDigit)

def scanFraction : List Char → List Char × List Char
  | '.' :: cs => scanDigits ['.'] cs ('.' :: cs)
  | cs => ([],cs)

def scanExponent : List Char → List Char × List Char
  | e :: '+' :: cs =>
      if e = 'e' ∨ e = 'E' then scanDigits [e,'+'] cs (e :: '+' :: cs) else ([],e :: '+' :: cs)
  | e :: '-' :: cs =>
      if e = 'e' ∨ e = 'E' then scanDigits [e,'-'] cs (e :: '-' :: cs) else ([],e :: '-' :: cs)
  | e :: cs => if e = 'e' ∨ e = 'E' then scanDigits [e] cs (e :: cs) else ([],e :: cs)
  | [] => ([],[])

def parseNumber (cs : List Char) : Option (Value F × List Char) :=
  (scanSigned cs).map fun (whole,rest) =>
    let (fraction,rest) := scanFraction rest
    let (exponent,rest) := scanExponent rest
    if fraction = [] ∧ exponent = [] then (.int (readInt whole),rest)
    else (.float (FloatText.read (whole ++ fraction ++ exponent)),rest)

/-- What follows a word. -/
def afterWord (word : List Char) (cs : List Char) : Option (List Char) :=
  if word.isPrefixOf cs then some (cs.drop word.length) else none

def parseConstant (cs : List Char) : Option (Value F × List Char) :=
  ((afterWord (constantText .nan) cs).map fun rest => (Value.constant .nan,rest)) <|>
  ((afterWord (constantText .infinity) cs).map fun rest => (Value.constant .infinity,rest)) <|>
  ((afterWord (constantText .negInfinity) cs).map fun rest => (Value.constant .negInfinity,rest))

def parseWord (cs : List Char) : Option (Value F × List Char) :=
  ((afterWord "null".toList cs).map fun rest => (Value.null,rest)) <|>
  ((afterWord "true".toList cs).map fun rest => (Value.bool true,rest)) <|>
  ((afterWord "false".toList cs).map fun rest => (Value.bool false,rest)) <|>
  parseNumber cs <|> parseConstant cs

/-- The pairs of an object as a dictionary: of two values under one key the later stays. -/
def putPair (d : List (String × Value F)) (pair : String × Value F) : List (String × Value F) :=
  match d with
  | [] => [pair]
  | p :: d => if p.1 = pair.1 then pair :: d else p :: putPair d pair

def dictOf (pairs : List (String × Value F)) : List (String × Value F) := pairs.foldl putPair []

mutual

/-- A value, and what follows it. -/
def parseValue : ℕ → List Char → Option (Value F × List Char)
  | 0,_ => none
  | fuel + 1,cs =>
      match cs with
      | '"' :: cs => (parseString cs).map fun (s,rest) => (.str s,rest)
      | '[' :: cs =>
          match skipBlank cs with
          | ']' :: rest => some (.arr [],rest)
          | cs => (parseItems fuel cs).map fun (items,rest) => (.arr items,rest)
      | '\x7b' :: cs =>
          match skipBlank cs with
          | '\x7d' :: rest => some (.obj [],rest)
          | cs => (parseFields fuel cs).map fun (fields,rest) => (.obj (dictOf fields),rest)
      | cs => parseWord cs

/-- The items of an array from one of them on. -/
def parseItems : ℕ → List Char → Option (List (Value F) × List Char)
  | 0,_ => none
  | fuel + 1,cs => do
      let (item,rest) ← parseValue fuel cs
      match skipBlank rest with
      | ']' :: rest => some ([item],rest)
      | ',' :: rest => do
          let (items,rest) ← parseItems fuel (skipBlank rest)
          some (item :: items,rest)
      | _ => none

/-- The fields of an object from one of them on. -/
def parseFields : ℕ → List Char → Option (List (String × Value F) × List Char)
  | 0,_ => none
  | fuel + 1,cs =>
      match cs with
      | '"' :: cs => do
          let (key,rest) ← parseString cs
          match skipBlank rest with
          | ':' :: rest => do
              let (value,rest) ← parseValue fuel (skipBlank rest)
              match skipBlank rest with
              | '\x7d' :: rest => some ([(key,value)],rest)
              | ',' :: rest => do
                  let (fields,rest) ← parseFields fuel (skipBlank rest)
                  some ((key,value) :: fields,rest)
              | _ => none
          | _ => none
      | _ => none

end

/-- Reads a text that holds one value between blanks. -/
def parse (text : List Char) : Option (Value F) :=
  (parseValue (2 * text.length + 2) (skipBlank text)).bind fun (value,rest) =>
    if skipBlank rest = [] then some value else none

end

end JsonText
