import CodeInsight.Json.Text
import CodeInsight.Number.Power

/-!
# What a JSON value stands for

* a number stands for a natural number only if its literal is nothing but digits
  (`natBelow?`), so neither `1.0` nor `-0` does;
* a record is an object, in which unknown names are passed over and a known one may stand once
  (`fieldsOf?`), or an array of its fields in their order;
* a choice without content is its name, or an object with that one name and null (`choice?`).
-/

namespace CodeInsight.Json

/-! ## 1. Numbers -/

/-- The value of decimal digits. -/
def digitsValue (s : List Char) : Nat := s.foldl (fun n c => 10 * n + (c.toNat - 48)) 0

/-- The bound of the numbers that fit into 64 bits. -/
def wordBound : Nat := powerOfTwo 64

/-- The natural number a value stands for, if it is below 2^64. -/
def nat64? : Json → Option Nat
  | number literal =>
    if literal.all Char.isDigit && !literal.isEmpty && digitsValue literal < wordBound then
      some (digitsValue literal)
    else none
  | _ => none

/-- A natural number as a JSON number. -/
def ofNat (n : Nat) : Json := number (Nat.toDigits 10 n)

/-- A truth value. -/
def bool? : Json → Option Bool
  | bool b => some b
  | _ => none

/-! ## 2. Lists and options -/

/-- All items of an array, each decoded. -/
def list? {α : Type} (decode : Json → Option α) : Json → Option (List α)
  | array xs => xs.mapM decode
  | _ => none

/-- Null, or a decoded value. -/
def nullable? {α : Type} (decode : Json → Option α) : Json → Option (Option α)
  | null => some none
  | j => (decode j).map some

/-! ## 3. Records -/

/-- The members whose names are known, with their names; nothing if a name names no text. -/
def knownMembers? (names : List String) :
    List (List Char × Json) → Option (List (String × Json))
  | [] => some []
  | (raw, x) :: ms =>
    match unescape? raw, knownMembers? names ms with
    | some cs, some rest =>
      let name := String.ofList cs
      some (if names.contains name then (name, x) :: rest else rest)
    | _, _ => none

/-- Whether no name stands twice. -/
def distinctNames : List (String × Json) → Bool
  | [] => true
  | (name, _) :: rest => !rest.any (fun m => m.1 == name) && distinctNames rest

/-- The fields of a record by name, a missing one `none`. An array must hold at least `least`
    fields and at most all. -/
def fieldsOf? (names : List String) (least : Nat) : Json → Option (String → Option Json)
  | object ms =>
    match knownMembers? names ms with
    | some known => if distinctNames known then some fun name => known.lookup name else none
    | none => none
  | array xs =>
    if least ≤ xs.length ∧ xs.length ≤ names.length then
      some fun name => (names.zip xs).lookup name
    else none
  | _ => none

/-- The fields of a record whose array form holds every field. -/
def record? (names : List String) (j : Json) : Option (String → Option Json) :=
  fieldsOf? names names.length j

/-- The decoded field of a record. -/
def field? {α : Type} (fields : String → Option Json) (name : String)
    (decode : Json → Option α) : Option α :=
  (fields name).bind decode

/-- An object with named members. -/
def record (members : List (String × Json)) : Json :=
  object (members.map fun m => (escape m.1.toList, m.2))

/-! ## 4. Choices -/

/-- The name of a choice without content. -/
def choiceName? : Json → Option String
  | string raw => (unescape? raw).map String.ofList
  | object [(raw, null)] => (unescape? raw).map String.ofList
  | _ => none

/-- The one of several choices whose name a value gives. -/
def choice? {α : Type} (name : α → String) (all : List α) (j : Json) : Option α :=
  match choiceName? j with
  | some s => all.find? fun a => name a == s
  | none => none

end CodeInsight.Json
