import HighVolumeBooking.Common.Date

namespace HighVolumeBooking

/-- Values as JSON.stringify sees them: members with the value undefined are
already gone, and a date stands as the string its toJSON gives. -/
inductive Json where
  | null
  | bool (b : Bool)
  | num (n : Int)
  | str (s : String)
  | arr (items : List Json)
  | obj (members : List (String × Json))

namespace Json

def date (d : Int) : Json := .str (toISOString d)

def hexDigit (n : Nat) : Char := (Nat.toDigits 16 n).headD '0'

def escape (c : Char) : String :=
  match c with
  | '"' => "\\\""
  | '\\' => "\\\\"
  | '\n' => "\\n"
  | '\r' => "\\r"
  | '\t' => "\\t"
  | c =>
    if c.val = 8 then "\\b"
    else if c.val = 12 then "\\f"
    else if c.toNat < 32 then
      "\\u00" ++ String.ofList [hexDigit (c.toNat / 16), hexDigit (c.toNat % 16)]
    else String.ofList [c]

def quote (s : String) : String := "\"" ++ String.join (s.toList.map escape) ++ "\""

mutual

def stringify : Json → String
  | .null => "null"
  | .bool b => if b then "true" else "false"
  | .num n => toString n
  | .str s => quote s
  | .arr items => "[" ++ ",".intercalate (stringifyItems items) ++ "]"
  | .obj members => "\x7b" ++ ",".intercalate (stringifyMembers members) ++ "\x7d"

def stringifyItems : List Json → List String
  | [] => []
  | v :: vs => stringify v :: stringifyItems vs

def stringifyMembers : List (String × Json) → List String
  | [] => []
  | (k, v) :: ms => (quote k ++ ":" ++ stringify v) :: stringifyMembers ms

end

end Json

end HighVolumeBooking
