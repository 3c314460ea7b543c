import TreeSync.Text

/-!
# TreeSync.Json.Pretty

JSON values, written over several lines: two blanks deeper at each level, a line
for each item, and nothing between the brackets of an empty array or object.
-/

namespace TreeSync

/-- A JSON value, as far as it is written here. -/
inductive JsonValue
  | text (text : Text)
  | number (n : Nat)
  | array (items : List JsonValue)
  | object (members : List (Text × JsonValue))

namespace JsonValue

/-- A hexadecimal digit. -/
def hexDigit (n : Nat) : Char := Nat.digitChar (n % 16)

/-- A character inside a string.  Control characters are escaped, the common ones
by a letter. -/
def escape (c : Char) : Text :=
  if c = '"' then "\\\""
  else if c = '\\' then "\\\\"
  else if c = '\n' then "\\n"
  else if c = '\r' then "\\r"
  else if c = '\t' then "\\t"
  else if c = '\x08' then "\\b"
  else if c = '\x0c' then "\\f"
  else if c < ' ' then "\\u00" ++ [hexDigit (c.toNat / 16), hexDigit c.toNat]
  else [c]

/-- A string. -/
def quote (t : Text) : Text := '"' :: (t.flatMap escape ++ ['"'])

/-- A line feed and the blanks of a level. -/
def indent (depth : Nat) : Text := '\n' :: List.replicate (2 * depth) ' '

mutual

/-- A value at a depth. -/
def pretty (depth : Nat) : JsonValue → Text
  | .text t => quote t
  | .number n => Text.ofNat n
  | .array [] => "[]"
  | .array (item :: items) =>
      "[" ++ prettyItems (depth + 1) (item :: items) ++ indent depth ++ "]"
  | .object [] => ['\x7b', '\x7d']
  | .object (member :: members) =>
      '\x7b' :: (prettyMembers (depth + 1) (member :: members) ++ indent depth ++ ['\x7d'])

/-- The items of an array, a comma after each but the last. -/
def prettyItems (depth : Nat) : List JsonValue → Text
  | [] => []
  | [item] => indent depth ++ pretty depth item
  | item :: items => indent depth ++ pretty depth item ++ "," ++ prettyItems depth items

/-- The members of an object, a comma after each but the last. -/
def prettyMembers (depth : Nat) : List (Text × JsonValue) → Text
  | [] => []
  | [(name, value)] => indent depth ++ quote name ++ ": " ++ pretty depth value
  | (name, value) :: members =>
      indent depth ++ quote name ++ ": " ++ pretty depth value ++ ","
        ++ prettyMembers depth members

end

end JsonValue

end TreeSync
