import Mathlib

/-!
# JSON texts

A JSON text is kept as the value it stands for: `JSON.stringify` and `JSON.parse` are inverse to
each other on the values stored here, so a text and its value are not told apart. `byteLength` is
the length of the text itself.
-/

/-- A JSON value: natural numbers, strings, booleans, arrays and objects. -/
inductive Json where
  | num (n : ℕ)
  | str (s : String)
  | bool (b : Bool)
  | arr (items : List Json)
  | obj (fields : List (String × Json))

namespace Json

/-- One character of a quoted string. -/
def escape (c : Char) : String :=
  if c = '"' then "\\\""
  else if c = '\\' then "\\\\"
  else if c = '\n' then "\\n"
  else if c = '\r' then "\\r"
  else if c = '\t' then "\\t"
  else if c.toNat = 8 then "\\b"
  else if c.toNat = 12 then "\\f"
  else if c.toNat < 32 then
    "\\u00" ++ String.ofList [Nat.digitChar (c.toNat / 16), Nat.digitChar (c.toNat % 16)]
  else String.singleton c

def quote (s : String) : String := "\"" ++ String.join (s.toList.map escape) ++ "\""

mutual

/-- `JSON.stringify`. -/
def stringify : Json → String
  | num n => toString n
  | str s => quote s
  | bool b => if b then "true" else "false"
  | arr items => "[" ++ String.intercalate "," (stringifyItems items) ++ "]"
  | obj fields => "\x7b" ++ String.intercalate "," (stringifyFields fields) ++ "\x7d"

def stringifyItems : List Json → List String
  | [] => []
  | j :: js => stringify j :: stringifyItems js

def stringifyFields : List (String × Json) → List String
  | [] => []
  | (k, j) :: fs => (quote k ++ ":" ++ stringify j) :: stringifyFields fs

end

/-- `Buffer.byteLength(text, 'utf8')`. -/
def byteLength (j : Json) : ℕ := (stringify j).utf8ByteSize

/-- The field `name` of an object. -/
def field (name : String) : Json → Option Json
  | obj fields => fields.lookup name
  | _ => none

def asNum : Json → Option ℕ
  | num n => some n
  | _ => none

def asStr : Json → Option String
  | str s => some s
  | _ => none

def asBool : Json → Option Bool
  | bool b => some b
  | _ => none

def asArr : Json → Option (List Json)
  | arr items => some items
  | _ => none

end Json
