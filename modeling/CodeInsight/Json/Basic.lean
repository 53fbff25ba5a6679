/-!
# JSON values

* a value keeps the text of its strings and numbers as it is written: what a string or a number
  means is decided where one is asked for, so a value nobody asks for may hold an escape that
  names no character, or a number that fits nothing;
* the members of an object keep their order, and a name may occur twice.
-/

namespace CodeInsight

/-- A JSON value. The text of a string or of a member's name is what stands between the quotes,
    the text of a number is its literal. -/
inductive Json where
  | null
  | bool (b : Bool)
  | number (literal : List Char)
  | string (raw : List Char)
  | array (items : List Json)
  | object (members : List (List Char × Json))

namespace Json

instance : Inhabited Json := ⟨null⟩

/-- The members of an object, nothing for other values. -/
def members? : Json → Option (List (List Char × Json))
  | object ms => some ms
  | _ => none

/-- The items of an array, nothing for other values. -/
def items? : Json → Option (List Json)
  | array xs => some xs
  | _ => none

end Json

end CodeInsight
