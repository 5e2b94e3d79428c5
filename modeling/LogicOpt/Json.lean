namespace LogicOpt

structure JsonNumber where
  negative : Bool
  digits : List Char
  /-- Whether a fraction or an exponent follows. -/
  plain : Bool
deriving DecidableEq

inductive Json where
  | null
  | bool (value : Bool)
  | number (n : JsonNumber)
  | string (value : Option String)
  | array (elements : List Json)
  | object (fields : List (Option String × Json))

namespace Json

def isBlank (c : Char) : Bool := c == ' ' || c == '\n' || c == '\t' || c == '\r'

def skipBlank (text : List Char) : List Char := text.dropWhile isBlank

def digits? (text : List Char) : Option (List Char × List Char) :=
  match text.span Char.isDigit with
  | ([], _) => none
  | found => some found

def skipFraction? : List Char → Option (List Char)
  | '.' :: text => (digits? text).map (·.2)
  | text => some text

def skipSign : List Char → List Char
  | '+' :: text => text
  | '-' :: text => text
  | text => text

def skipExponent? : List Char → Option (List Char)
  | 'e' :: text => (digits? (skipSign text)).map (·.2)
  | 'E' :: text => (digits? (skipSign text)).map (·.2)
  | text => some text

def unsigned? (negative : Bool) (text : List Char) : Option (JsonNumber × List Char) := do
  let (whole, afterWhole) ← digits? text
  if whole.length > 1 && whole.head? == some '0' then none
  else
    let afterFraction ← skipFraction? afterWhole
    let rest ← skipExponent? afterFraction
    return (⟨negative, whole, rest.length == afterWhole.length⟩, rest)

def hexDigit? (c : Char) : Option Nat :=
  if '0' ≤ c ∧ c ≤ '9' then some (c.toNat - '0'.toNat)
  else if 'a' ≤ c ∧ c ≤ 'f' then some (c.toNat - 'a'.toNat + 10)
  else if 'A' ≤ c ∧ c ≤ 'F' then some (c.toNat - 'A'.toNat + 10)
  else none

def unit? : List Char → Option (Nat × List Char)
  | a :: b :: c :: d :: rest => do
    let a ← hexDigit? a
    let b ← hexDigit? b
    let c ← hexDigit? c
    let d ← hexDigit? d
    return (4096 * a + 256 * b + 16 * c + d, rest)
  | _ => none

def isHighSurrogate (unit : Nat) : Bool := 0xD800 ≤ unit && unit < 0xDC00

def isLowSurrogate (unit : Nat) : Bool := 0xDC00 ≤ unit && unit < 0xE000

/-- Joins the units of a string: code points stand for themselves, surrogates for pairs. -/
def joinUnits : List (Nat × Bool) → Option (List Char)
  | [] => some []
  | (u, escaped) :: rest =>
    if escaped && isHighSurrogate u then
      match rest with
      | (v, true) :: rest =>
        if isLowSurrogate v then
          (joinUnits rest).map (Char.ofNat (0x10000 + 1024 * (u - 0xD800) + (v - 0xDC00)) :: ·)
        else none
      | _ => none
    else if escaped && isLowSurrogate u then none
    else (joinUnits rest).map (Char.ofNat u :: ·)

def simpleEscape? : Char → Option Char
  | '"' => some '"'
  | '\\' => some '\\'
  | '/' => some '/'
  | 'b' => some '\x08'
  | 'f' => some '\x0c'
  | 'n' => some '\n'
  | 'r' => some '\r'
  | 't' => some '\t'
  | _ => none

def units? : (fuel : Nat) → List Char → Option (List (Nat × Bool) × List Char)
  | 0, _ => none
  | _, [] => none
  | fuel + 1, c :: text =>
    if c == '"' then some ([], text)
    else if c == '\\' then
      match text with
      | [] => none
      | 'u' :: text => do
        let (u, text) ← unit? text
        let (rest, text) ← units? fuel text
        return ((u, true) :: rest, text)
      | e :: text => do
        let escaped ← simpleEscape? e
        let (rest, text) ← units? fuel text
        return ((escaped.toNat, false) :: rest, text)
    else if c.toNat < 0x20 then none
    else do
      let (rest, text) ← units? fuel text
      return ((c.toNat, false) :: rest, text)

def string? (text : List Char) : Option (Option String × List Char) := do
  let (units, rest) ← units? (text.length + 1) text
  return ((joinUnits units).map String.ofList, rest)

def literal? (word : List Char) (value : Json) (text : List Char) : Option (Json × List Char) :=
  if word.isPrefixOf text then some (value, text.drop word.length) else none

mutual

/-- One value. A value has as many characters as brackets to open and close, so `fuel` may be any
    number above the length of the text. -/
def value? : (fuel : Nat) → List Char → Option (Json × List Char)
  | 0, _ => none
  | fuel + 1, text =>
    match skipBlank text with
    | [] => none
    | c :: rest =>
      if c == '"' then (string? rest).map fun (s, rest) => (.string s, rest)
      else if c == '[' then
        match skipBlank rest with
        | ']' :: rest => some (.array [], rest)
        | rest => (elements? fuel rest).map fun (xs, rest) => (.array xs, rest)
      else if c == '\x7b' then
        match skipBlank rest with
        | '\x7d' :: rest => some (.object [], rest)
        | rest => (fields? fuel rest).map fun (fs, rest) => (.object fs, rest)
      else if c == '-' then (unsigned? true rest).map fun (n, rest) => (.number n, rest)
      else if c.isDigit then (unsigned? false (c :: rest)).map fun (n, rest) => (.number n, rest)
      else
        ((literal? ['n', 'u', 'l', 'l'] .null (c :: rest)).or
          (literal? ['t', 'r', 'u', 'e'] (.bool true) (c :: rest))).or
          (literal? ['f', 'a', 'l', 's', 'e'] (.bool false) (c :: rest))

def elements? : (fuel : Nat) → List Char → Option (List Json × List Char)
  | 0, _ => none
  | fuel + 1, text => do
    let (x, rest) ← value? fuel text
    match skipBlank rest with
    | ']' :: rest => return ([x], rest)
    | ',' :: rest =>
      let (xs, rest) ← elements? fuel rest
      return (x :: xs, rest)
    | _ => none

def fields? : (fuel : Nat) → List Char → Option (List (Option String × Json) × List Char)
  | 0, _ => none
  | fuel + 1, text => do
    match skipBlank text with
    | '"' :: rest =>
      let (key, rest) ← string? rest
      match skipBlank rest with
      | ':' :: rest =>
        let (x, rest) ← value? fuel rest
        match skipBlank rest with
        | '\x7d' :: rest => return ([(key, x)], rest)
        | ',' :: rest =>
          let (fs, rest) ← fields? fuel rest
          return ((key, x) :: fs, rest)
        | _ => none
      | _ => none
    | _ => none

end

def ofText? (text : String) : Option Json :=
  match value? (text.toList.length + 1) text.toList with
  | some (value, rest) => if (skipBlank rest).isEmpty then some value else none
  | none => none

def natBelow? (bound : Nat) : Json → Option Nat
  | .number n =>
    if n.negative || !n.plain then none
    else
      let value := Nat.ofDigitChars 10 n.digits 0
      if value < bound then some value else none
  | _ => none

def bool? : Json → Option Bool
  | .bool value => some value
  | _ => none

end Json

end LogicOpt
