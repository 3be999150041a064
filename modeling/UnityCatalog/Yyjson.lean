import Mathlib.Algebra.Ring.Int.Defs
import Mathlib.Algebra.Ring.Nat
import Mathlib.Data.List.Infix
import Mathlib.Data.Rat.Defs

/-!
# yyjson: reading JSON and looking into it

A library module: JSON values as the yyjson library holds them, its strict reader, and the
accessors its callers use. A number is what yyjson makes of its text: an unsigned or a signed 64-bit
integer, or a real (anything with a fraction or an exponent, and every integer that fits neither).

The accessors are **total and null-safe**, as yyjson's are: each takes an `Option Val`, where `none`
is the null pointer, and answers the documented default on a value of another type. What a caller
makes of such a default is the caller's business, and the source of most of the surprises.
-/

namespace Yyjson

/-- A literal can be a 64-bit number. -/
instance neZero_word : NeZero (2 ^ 64) := ⟨by decide⟩

/-- A JSON number as yyjson stores it. -/
inductive Num where
  /-- `YYJSON_SUBTYPE_UINT` -/
  | uint (n : Fin (2 ^ 64))
  /-- `YYJSON_SUBTYPE_SINT`: the number `-n` -/
  | sint (n : Fin (2 ^ 63 + 1))
  /-- `YYJSON_SUBTYPE_REAL`, by the number its text denotes -/
  | real (q : ℚ)
  deriving DecidableEq

/-- A JSON value; an object keeps its members in the order written, repeated keys included. -/
inductive Val where
  /-- `null` -/
  | null
  /-- `true` or `false` -/
  | bool (b : Bool)
  /-- a number -/
  | num (n : Num)
  /-- a string -/
  | str (s : String)
  /-- an array -/
  | arr (items : List Val)
  /-- an object -/
  | obj (members : List (String × Val))

/-- The number a JSON text writes. -/
def Num.value : Num → ℚ
  | .uint n => n.val
  | .sint n => -(n.val : ℚ)
  | .real q => q

/-! ## Accessors -/

/-- `yyjson_obj_get`: the first member of that name; null on a null pointer or a non-object. -/
def objGet : Option Val → String → Option Val
  | some (.obj members), key => (members.find? fun m => m.1 == key).map Prod.snd
  | _, _ => none

/-- `yyjson_is_null` -/
def isNull : Option Val → Bool
  | some .null => true
  | _ => false

/-- `yyjson_is_obj` -/
def isObj : Option Val → Bool
  | some (.obj _) => true
  | _ => false

/-- `yyjson_is_arr` -/
def isArr : Option Val → Bool
  | some (.arr _) => true
  | _ => false

/-- `yyjson_is_num` -/
def isNum : Option Val → Bool
  | some (.num _) => true
  | _ => false

/-- `yyjson_get_str`; null on anything but a string. -/
def getStr : Option Val → Option String
  | some (.str s) => some s
  | _ => none

/-- `yyjson_get_uint`: the 64 bits of an integer read as unsigned, 0 on anything else. -/
def getUint : Option Val → ℕ
  | some (.num (.uint n)) => n.val
  | some (.num (.sint n)) => (2 ^ 64 - n.val) % 2 ^ 64
  | _ => 0

/-- `yyjson_get_sint`: the 64 bits of an integer read as signed, 0 on anything else. -/
def getSint : Option Val → ℤ
  | some (.num (.uint n)) => if n.val < 2 ^ 63 then n.val else (n.val : ℤ) - 2 ^ 64
  | some (.num (.sint n)) => -(n.val : ℤ)
  | _ => 0

/-- What `yyjson_arr_foreach` walks: nothing on a null pointer or a non-array. -/
def items : Option Val → List Val
  | some (.arr vs) => vs
  | _ => []

/-- What `yyjson_obj_foreach` walks: nothing on a null pointer or a non-object. -/
def members : Option Val → List (String × Val)
  | some (.obj ms) => ms
  | _ => []

/-- A C string made a `std::string`: it ends at the first NUL. -/
def cString (s : String) : String := String.ofList (s.toList.takeWhile (· ≠ '\x00'))

/-! ## The strict reader -/

/-- JSON white space. -/
def isSpace (c : Char) : Bool := c == ' ' || c == '\t' || c == '\n' || c == '\r'

/-- The text after white space. -/
def skipSpace (cs : List Char) : List Char := cs.dropWhile isSpace

/-- A digit's value in base 16, `none` for another character. -/
def hexDigit (c : Char) : Option ℕ :=
  if '0' ≤ c ∧ c ≤ '9' then some (c.toNat - '0'.toNat)
  else if 'a' ≤ c ∧ c ≤ 'f' then some (c.toNat - 'a'.toNat + 10)
  else if 'A' ≤ c ∧ c ≤ 'F' then some (c.toNat - 'A'.toNat + 10)
  else none

/-- The code unit after `\u`. -/
def readHex4 : List Char → Option (ℕ × List Char)
  | a :: b :: c :: d :: rest => do
    let a ← hexDigit a
    let b ← hexDigit b
    let c ← hexDigit c
    let d ← hexDigit d
    return (a * 4096 + b * 256 + c * 16 + d, rest)
  | _ => none

/-- The character after `\u`: one code unit, or a surrogate pair; a lone surrogate is an error. -/
def readUnicode (cs : List Char) : Option (Char × List Char) := do
  let (hi, rest) ← readHex4 cs
  if 0xD800 ≤ hi ∧ hi < 0xDC00 then
    match rest with
    | '\\' :: 'u' :: rest => do
      let (lo, rest) ← readHex4 rest
      if 0xDC00 ≤ lo ∧ lo < 0xE000 then
        return (Char.ofNat (0x10000 + (hi - 0xD800) * 0x400 + (lo - 0xDC00)), rest)
      else none
    | _ => none
  else if 0xDC00 ≤ hi ∧ hi < 0xE000 then none
  else return (Char.ofNat hi, rest)

/-- The character an escape stands for. -/
def readEscape : List Char → Option (Char × List Char)
  | '"' :: rest => some ('"', rest)
  | '\\' :: rest => some ('\\', rest)
  | '/' :: rest => some ('/', rest)
  | 'b' :: rest => some ('\x08', rest)
  | 'f' :: rest => some ('\x0c', rest)
  | 'n' :: rest => some ('\n', rest)
  | 'r' :: rest => some ('\r', rest)
  | 't' :: rest => some ('\t', rest)
  | 'u' :: rest => readUnicode rest
  | _ => none

/-- The rest of a string after its opening quote. Each round consumes a character, so the length of
the text is fuel enough. -/
def readChars : ℕ → List Char → Option (List Char × List Char)
  | 0, _ => none
  | _ + 1, [] => none
  | fuel + 1, c :: rest =>
    if c = '"' then some ([], rest)
    else if c = '\\' then do
      let (c, rest) ← readEscape rest
      let (cs, rest) ← readChars fuel rest
      return (c :: cs, rest)
    else if c.toNat < 0x20 then none
    else do
      let (cs, rest) ← readChars fuel rest
      return (c :: cs, rest)

/-- The digits at the front of a text. -/
def readDigits (cs : List Char) : List Char × List Char := cs.span Char.isDigit

/-- The number a string of decimal digits writes. -/
def digitsValue (ds : List Char) : ℕ := ds.foldl (fun n d => n * 10 + (d.toNat - '0'.toNat)) 0

/-- The fraction of a number: its digits, none if there is no `.`. -/
def readFraction : List Char → Option (Option (List Char) × List Char)
  | '.' :: rest =>
    match readDigits rest with
    | ([], _) => none
    | (ds, rest) => some (some ds, rest)
  | cs => some (none, cs)

/-- The exponent of a number: its sign and digits, none if there is none. -/
def readExponent : List Char → Option (Option (Bool × List Char) × List Char)
  | [] => some (none, [])
  | c :: rest =>
    if c = 'e' ∨ c = 'E' then
      let (neg, rest) := match rest with
        | '-' :: rest => (true, rest)
        | '+' :: rest => (false, rest)
        | rest => (false, rest)
      match readDigits rest with
      | ([], _) => none
      | (ds, rest) => some (some (neg, ds), rest)
    else some (none, c :: rest)

/-- A real number; one past the largest double is refused as infinite. -/
def realNum (neg : Bool) (int frac : List Char) (exp : Option (Bool × List Char)) : Option Num :=
  let mantissa : ℚ := digitsValue (int ++ frac) / 10 ^ frac.length
  let scaled := match exp with
    | none => mantissa
    | some (false, ds) => mantissa * 10 ^ digitsValue ds
    | some (true, ds) => mantissa / 10 ^ digitsValue ds
  if scaled < 2 ^ 1024 then some (.real (if neg then -scaled else scaled)) else none

/-- An integer: unsigned or signed where it fits 64 bits, else a real. -/
def intNum (neg : Bool) (int : List Char) : Option Num :=
  let n := digitsValue int
  if neg then
    if h : n < 2 ^ 63 + 1 then some (.sint ⟨n, h⟩) else realNum neg int [] none
  else
    if h : n < 2 ^ 64 then some (.uint ⟨n, h⟩) else realNum neg int [] none

/-- A number; no digit follows a leading zero. -/
def readNumber (cs : List Char) : Option (Num × List Char) := do
  let (neg, cs) := match cs with
    | '-' :: rest => (true, rest)
    | cs => (false, cs)
  let (int, cs) := readDigits cs
  if int = [] ∨ (int.head? = some '0' ∧ int.length ≠ 1) then none
  else
    let (frac, cs) ← readFraction cs
    let (exp, cs) ← readExponent cs
    let n ← if frac.isNone ∧ exp.isNone then intNum neg int
      else realNum neg int (frac.getD []) exp
    return (n, cs)

mutual

/-- A value. Every two rounds consume a character, so twice the length of the text is fuel
enough. -/
def readValue : ℕ → List Char → Option (Val × List Char)
  | 0, _ => none
  | fuel + 1, cs =>
    match skipSpace cs with
    | 'n' :: 'u' :: 'l' :: 'l' :: rest => some (.null, rest)
    | 't' :: 'r' :: 'u' :: 'e' :: rest => some (.bool true, rest)
    | 'f' :: 'a' :: 'l' :: 's' :: 'e' :: rest => some (.bool false, rest)
    | '"' :: rest => do
      let (s, rest) ← readChars (fuel + 1) rest
      return (.str (String.ofList s), rest)
    | '[' :: rest =>
      match skipSpace rest with
      | ']' :: rest => some (.arr [], rest)
      | rest => do
        let (vs, rest) ← readItems fuel rest
        return (.arr vs, rest)
    | '{' :: rest =>
      match skipSpace rest with
      | '}' :: rest => some (.obj [], rest)
      | rest => do
        let (ms, rest) ← readMembers fuel rest
        return (.obj ms, rest)
    | cs => do
      let (n, rest) ← readNumber cs
      return (.num n, rest)

/-- The items of an array, at least one, and its closing bracket. -/
def readItems : ℕ → List Char → Option (List Val × List Char)
  | 0, _ => none
  | fuel + 1, cs => do
    let (v, rest) ← readValue fuel cs
    match skipSpace rest with
    | ',' :: rest => do
      let (vs, rest) ← readItems fuel rest
      return (v :: vs, rest)
    | ']' :: rest => return ([v], rest)
    | _ => none

/-- The members of an object, at least one, and its closing brace. -/
def readMembers : ℕ → List Char → Option (List (String × Val) × List Char)
  | 0, _ => none
  | fuel + 1, cs =>
    match skipSpace cs with
    | '"' :: rest => do
      let (k, rest) ← readChars (fuel + 1) rest
      match skipSpace rest with
      | ':' :: rest => do
        let (v, rest) ← readValue fuel rest
        match skipSpace rest with
        | ',' :: rest => do
          let (ms, rest) ← readMembers fuel rest
          return ((String.ofList k, v) :: ms, rest)
        | '}' :: rest => return ([(String.ofList k, v)], rest)
        | _ => none
      | _ => none
    | _ => none

end

/-- `yyjson_read` with no flags, and the root of what it read: one value, white space around it,
and nothing else; the null pointer on any other text. -/
def read (text : String) : Option Val :=
  let cs := text.toList
  match readValue (2 * cs.length + 2) cs with
  | some (v, rest) => if skipSpace rest = [] then some v else none
  | none => none

end Yyjson
