import TelemetryTestbed.Lib.Decimal
import TelemetryTestbed.Lib.Utf8

/-!
# A JSON parser

The grammar of RFC 8259 over bytes, read as `JSON.parse` reads it: whitespace
between tokens, every escape of a string, numbers in full, nothing after the value.
Numbers are kept exactly. The value of a string is its UTF-8 text; an escaped
surrogate pair is one character, and a lone surrogate keeps the three bytes it would
have. The members of an object are kept in order, duplicates included, and
`Json.get?` answers for a name that stands there once.

The functions that recurse through values take a bound on the nesting; the length
of the text is always enough of it.

It is a reader, not a validator that could be lenient: a text it accepts is a JSON text, and
it refuses what follows the value. What a program should accept beyond that, or in which order
it looks for a member, is said where the program is modelled.
-/

namespace TelemetryTestbed.Lib

/-- A JSON value. A number is kept by its decimal digits, since what a program makes of them is
its own matter. -/
inductive Json
  | null
  | bool (b : Bool)
  /-- `mant * 10 ^ exp` -/
  | num (mant exp : Int)
  | str (s : Bytes)
  | arr (es : List Json)
  | obj (ms : List (Bytes × Json))

namespace Json

/-! ## Strings -/

/-- What a string is made of: a byte as it stands, or a 16-bit unit written `\u`. -/
inductive StrItem
  | byte (b : UInt8)
  | unit (u : UInt16)

def hexDigit (b : UInt8) : Option Nat :=
  if 48 ≤ b ∧ b ≤ 57 then some (b.toNat - 48)
  else if 65 ≤ b ∧ b ≤ 70 then some (b.toNat - 55)
  else if 97 ≤ b ∧ b ≤ 102 then some (b.toNat - 87)
  else none

def hex4 (a b c d : UInt8) : Option UInt16 :=
  (hexDigit a).bind fun a => (hexDigit b).bind fun b => (hexDigit c).bind fun c =>
    (hexDigit d).map fun d => UInt16.ofNat (((a * 16 + b) * 16 + c) * 16 + d)

/-- The byte a two-character escape stands for. -/
def shortEscape (b : UInt8) : Option UInt8 :=
  if b = 0x22 ∨ b = 0x5C ∨ b = 0x2F then some b
  else if b = 0x62 then some 0x08
  else if b = 0x66 then some 0x0C
  else if b = 0x6E then some 0x0A
  else if b = 0x72 then some 0x0D
  else if b = 0x74 then some 0x09
  else none

/-- The items up to the closing quotation mark, and what follows it. -/
def stringItems : Bytes → Option (List StrItem × Bytes)
  | [] => none
  | b :: bs =>
    if b = 0x22 then some ([], bs)
    else if b = 0x5C then
      match bs with
      | [] => none
      | e :: bs =>
        if e = 0x75 then
          match bs with
          | h3 :: h2 :: h1 :: h0 :: bs =>
            (hex4 h3 h2 h1 h0).bind fun u =>
              (stringItems bs).map fun (items, rest) => (.unit u :: items, rest)
          | _ => none
        else (shortEscape e).bind fun c =>
          (stringItems bs).map fun (items, rest) => (.byte c :: items, rest)
    else if b.toNat < 0x20 then none
    else (stringItems bs).map fun (items, rest) => (.byte b :: items, rest)

/-- The UTF-8 bytes of a code point. -/
def codePointBytes (v : Nat) : Bytes :=
  if v < 0x80 then [UInt8.ofNat v]
  else if v < 0x800 then [UInt8.ofNat (0xC0 + v / 0x40), UInt8.ofNat (0x80 + v % 0x40)]
  else if v < 0x10000 then
    [UInt8.ofNat (0xE0 + v / 0x1000), UInt8.ofNat (0x80 + v / 0x40 % 0x40),
      UInt8.ofNat (0x80 + v % 0x40)]
  else
    [UInt8.ofNat (0xF0 + v / 0x40000), UInt8.ofNat (0x80 + v / 0x1000 % 0x40),
      UInt8.ofNat (0x80 + v / 0x40 % 0x40), UInt8.ofNat (0x80 + v % 0x40)]

/-- The code point of a surrogate pair. -/
def surrogatePair (u v : UInt16) : Option Nat :=
  if 0xD800 ≤ u ∧ u < 0xDC00 ∧ 0xDC00 ≤ v ∧ v < 0xE000 then
    some (0x10000 + (u.toNat - 0xD800) * 0x400 + (v.toNat - 0xDC00))
  else none

/-- The text of a string. -/
def itemsBytes : List StrItem → Bytes
  | [] => []
  | .byte b :: items => b :: itemsBytes items
  | .unit u :: .unit v :: items =>
    match surrogatePair u v with
    | some c => codePointBytes c ++ itemsBytes items
    | none => codePointBytes u.toNat ++ itemsBytes (.unit v :: items)
  | .unit u :: items => codePointBytes u.toNat ++ itemsBytes items

def string (bs : Bytes) : Option (Bytes × Bytes) :=
  (stringItems bs).map fun (items, rest) => (itemsBytes items, rest)

/-! ## Numbers -/

/-- The digits a text starts with, at least one, and what follows them. -/
def digits (bs : Bytes) : Option (Bytes × Bytes) :=
  let ds := bs.takeWhile isdigit
  if ds = [] then none else some (ds, bs.dropWhile isdigit)

/-- The digits behind a decimal point, if there is one. -/
def fraction : Bytes → Option (Bytes × Bytes)
  | 0x2E :: bs => digits bs
  | bs => some ([], bs)

def exponent : Bytes → Option (Int × Bytes)
  | b :: bs =>
    if b = 0x65 ∨ b = 0x45 then
      match bs with
      | 0x2D :: bs => (digits bs).map fun (ds, bs) => (-(ofDigits10 ds : Int), bs)
      | 0x2B :: bs => (digits bs).map fun (ds, bs) => ((ofDigits10 ds : Int), bs)
      | bs => (digits bs).map fun (ds, bs) => ((ofDigits10 ds : Int), bs)
    else some (0, b :: bs)
  | [] => some (0, [])

/-- A number without its sign. -/
def unsigned (bs : Bytes) : Option ((Nat × Int) × Bytes) :=
  (digits bs).bind fun (ds, bs) =>
    if ds.head? = some 48 ∧ ds ≠ [48] then none
    else (fraction bs).bind fun (fs, bs) =>
      (exponent bs).map fun (e, bs) => ((ofDigits10 (ds ++ fs), e - fs.length), bs)

def number : Bytes → Option (Json × Bytes)
  | 0x2D :: bs => (unsigned bs).map fun ((m, e), bs) => (.num (-m) e, bs)
  | bs => (unsigned bs).map fun ((m, e), bs) => (.num m e, bs)

/-! ## Values -/

def isWs (b : UInt8) : Bool := b = 0x20 || b = 0x09 || b = 0x0A || b = 0x0D

def skipWs (bs : Bytes) : Bytes := bs.dropWhile isWs

/-- What follows a token of one byte. -/
def token (b : UInt8) (bs : Bytes) : Option Bytes :=
  match skipWs bs with
  | [] => none
  | c :: rest => if c = b then some rest else none

/-- What follows a literal name. -/
def literal (name : Bytes) (v : Json) (bs : Bytes) : Option (Json × Bytes) :=
  if name.isPrefixOf bs then some (v, bs.drop name.length) else none

mutual

def value : Nat → Bytes → Option (Json × Bytes)
  | 0, _ => none
  | n + 1, bs =>
    match skipWs bs with
    | [] => none
    | b :: rest =>
      if b = 0x7B then
        match token 0x7D rest with
        | some rest => some (.obj [], rest)
        | none => (members n rest).map fun (ms, rest) => (.obj ms, rest)
      else if b = 0x5B then
        match token 0x5D rest with
        | some rest => some (.arr [], rest)
        | none => (elements n rest).map fun (es, rest) => (.arr es, rest)
      else if b = 0x22 then (string rest).map fun (s, rest) => (.str s, rest)
      else if b = 0x74 then literal (ascii "true") (.bool true) (b :: rest)
      else if b = 0x66 then literal (ascii "false") (.bool false) (b :: rest)
      else if b = 0x6E then literal (ascii "null") .null (b :: rest)
      else number (b :: rest)

def members : Nat → Bytes → Option (List (Bytes × Json) × Bytes)
  | 0, _ => none
  | n + 1, bs =>
    (token 0x22 bs).bind fun bs => (string bs).bind fun (k, bs) =>
      (token 0x3A bs).bind fun bs => (value n bs).bind fun (v, bs) =>
        match token 0x2C bs with
        | some bs => (members n bs).map fun (ms, bs) => ((k, v) :: ms, bs)
        | none => (token 0x7D bs).map fun bs => ([(k, v)], bs)

def elements : Nat → Bytes → Option (List Json × Bytes)
  | 0, _ => none
  | n + 1, bs =>
    (value n bs).bind fun (v, bs) =>
      match token 0x2C bs with
      | some bs => (elements n bs).map fun (es, bs) => (v :: es, bs)
      | none => (token 0x5D bs).map fun bs => ([v], bs)

end

/-- `JSON.parse`. -/
def parse (text : Bytes) : Option Json :=
  if IsUtf8 text then
    match value (text.length + 1) text with
    | some (v, rest) => if skipWs rest = [] then some v else none
    | none => none
  else none

/-- The members of an object. -/
def entries : Json → List (Bytes × Json)
  | .obj ms => ms
  | _ => []

/-- The member of an object with a name that stands there once. -/
def get? (k : Bytes) (ms : List (Bytes × Json)) : Option Json :=
  match ms.filter fun m => m.1 = k with
  | [m] => some m.2
  | _ => none

end Json

end TelemetryTestbed.Lib
