import CodeInsight.Json.Text

/-!
# Writing JSON

* `compact` writes no blank between the parts of a value;
* `pretty` puts each item and each member on a line of its own, indented by two blanks a level,
  and writes what is empty as it is in the compact form.
-/

namespace CodeInsight.Json

/-! ## 1. The compact form -/

/-- A text between quotes. -/
def quoted (raw : List Char) : List Char := '"' :: raw ++ ['"']

mutual

/-- A value without blanks. -/
def compact : Json → List Char
  | null => "null".toList
  | bool true => "true".toList
  | bool false => "false".toList
  | number literal => literal
  | string raw => quoted raw
  | array [] => ['[', ']']
  | array (x :: xs) => '[' :: (compact x ++ compactItems xs)
  | object [] => ['{', '}']
  | object ((name, x) :: ms) => '{' :: (quoted name ++ ':' :: (compact x ++ compactMembers ms))

/-- The items behind the first, and the bracket that ends them. -/
def compactItems : List Json → List Char
  | [] => [']']
  | x :: xs => ',' :: (compact x ++ compactItems xs)

/-- The members behind the first, and the brace that ends them. -/
def compactMembers : List (List Char × Json) → List Char
  | [] => ['}']
  | (name, x) :: ms => ',' :: (quoted name ++ ':' :: (compact x ++ compactMembers ms))

end

/-! ## 2. The form for readers -/

/-- A line feed and the indentation of a level. -/
def newLine (level : Nat) : List Char := '\n' :: List.replicate (2 * level) ' '

mutual

/-- A value over several lines, what is inside it one level deeper than `level`. -/
def prettyAt (level : Nat) : Json → List Char
  | array (x :: xs) =>
    '[' :: (newLine (level + 1) ++ (prettyAt (level + 1) x ++ prettyItems level xs))
  | object ((name, x) :: ms) =>
    '{' :: (newLine (level + 1) ++
      (quoted name ++ ':' :: ' ' :: (prettyAt (level + 1) x ++ prettyMembers level ms)))
  | array [] => ['[', ']']
  | object [] => ['{', '}']
  | null => "null".toList
  | bool true => "true".toList
  | bool false => "false".toList
  | number literal => literal
  | string raw => quoted raw

/-- The items behind the first, and the bracket that ends them. -/
def prettyItems (level : Nat) : List Json → List Char
  | [] => newLine level ++ [']']
  | x :: xs => ',' :: (newLine (level + 1) ++ (prettyAt (level + 1) x ++ prettyItems level xs))

/-- The members behind the first, and the brace that ends them. -/
def prettyMembers (level : Nat) : List (List Char × Json) → List Char
  | [] => newLine level ++ ['}']
  | (name, x) :: ms =>
    ',' :: (newLine (level + 1) ++
      (quoted name ++ ':' :: ' ' :: (prettyAt (level + 1) x ++ prettyMembers level ms)))

end

/-- The compact text of a value. -/
def toText (j : Json) : String := String.ofList j.compact

/-- The text of a value over several lines. -/
def toPrettyText (j : Json) : String := String.ofList (j.prettyAt 0)

end CodeInsight.Json
