import Mathlib.Data.List.Sort

/-!
# JSON values

`Json N` is a decoded JSON value over a type `N` of numbers. An object is the
list of its members in enumeration order. `stringify` is `JSON.stringify` with no
indentation, for a given text of a number.
-/

/-- A JSON value with numbers in `N`. -/
inductive Json (N : Type) where
  | null
  | bool (b : Bool)
  | num (n : N)
  | str (s : String)
  | arr (items : List (Json N))
  | obj (members : List (String × Json N))

namespace Json

variable {N : Type}

instance : Inhabited (Json N) := ⟨.null⟩

/-- The value of a member; the last one wins when a key is repeated. -/
def member? (key : String) : List (String × Json N) → Option (Json N)
  | [] => none
  | (k, v) :: rest =>
    match member? key rest with
    | some w => some w
    | none => if k = key then some v else none

def hex4 (n : ℕ) : String :=
  let digits := Nat.toDigits 16 n
  String.ofList (List.replicate (4 - digits.length) '0' ++ digits)

def escapeChar (c : Char) : String :=
  if c = '"' then "\\\""
  else if c = '\\' then "\\\\"
  else if c.toNat = 8 then "\\b"
  else if c.toNat = 9 then "\\t"
  else if c.toNat = 10 then "\\n"
  else if c.toNat = 12 then "\\f"
  else if c.toNat = 13 then "\\r"
  else if c.toNat < 32 then "\\u" ++ hex4 c.toNat
  else String.ofList [c]

def quote (s : String) : String :=
  "\"" ++ s.toList.foldl (fun acc c => acc ++ escapeChar c) "" ++ "\""

mutual

/-- `JSON.stringify`, compact. -/
def stringify (numText : N → String) : Json N → String
  | .null => "null"
  | .bool true => "true"
  | .bool false => "false"
  | .num n => numText n
  | .str s => quote s
  | .arr items => "[" ++ stringifyItems numText items ++ "]"
  | .obj members => "\x7b" ++ stringifyMembers numText members ++ "\x7d"

def stringifyItems (numText : N → String) : List (Json N) → String
  | [] => ""
  | [v] => stringify numText v
  | v :: w :: rest => stringify numText v ++ "," ++ stringifyItems numText (w :: rest)

def stringifyMembers (numText : N → String) : List (String × Json N) → String
  | [] => ""
  | [(k, v)] => quote k ++ ":" ++ stringify numText v
  | (k, v) :: w :: rest =>
    quote k ++ ":" ++ stringify numText v ++ "," ++ stringifyMembers numText (w :: rest)

end

end Json
