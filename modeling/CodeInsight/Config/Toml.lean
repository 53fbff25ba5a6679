/-!
# TOML documents

* a `Toml` value is a text, a number, a truth value, a time, an array or a table; what a time or a
  number with a point is exactly is not kept;
* tables grow by statements: a header opens a table or another one of several, an entry puts a
  value into the table open last, maybe in tables below it (`Document.apply?`);
* **no statement says twice what a name means**: a table is opened once, a value given once, and
  what is written as one value is not added to.
-/

namespace CodeInsight

/-- How a table came to be: written as one value, named on the way to another table by a header, or
    by an entry, or opened by a header. -/
inductive TableOrigin where
  | inline
  | implied
  | dotted
  | opened
  deriving DecidableEq, Repr

/-- A value of a TOML document. An array whose items were opened by headers one after the other is
    `tables`. -/
inductive Toml where
  | text (s : String)
  | integer (n : Int)
  | float
  | boolean (b : Bool)
  | time
  | array (items : List Toml)
  | table (origin : TableOrigin) (entries : List (String × Toml))
  | tables (items : List (List (String × Toml)))

namespace Toml

instance : Inhabited Toml := ⟨float⟩

/-- The names of a table with their values. -/
abbrev Entries := List (String × Toml)

/-- Puts another value for a name that has one. -/
def replace (es : Entries) (name : String) (value : Toml) : Entries :=
  es.map fun e => if e.1 == name then (name, value) else e

/-! ## 1. Going down -/

/-- Changes the table that the names lead to from a table: tables on the way are made if they are
    missing, of several the latest is taken. Names of an entry (`byEntry`) may not lead into a
    table a header has opened. -/
def descend? (byEntry : Bool) (change : TableOrigin → Entries → Option (TableOrigin × Entries)) :
    List String → TableOrigin → Entries → Option (TableOrigin × Entries)
  | [], origin, es => change origin es
  | name :: names, origin, es =>
    match es.lookup name with
    | none =>
      (descend? byEntry change names (if byEntry then .dotted else .implied) []).map fun r =>
        (origin, es ++ [(name, table r.1 r.2)])
    | some (table .inline _) => none
    | some (table below entries) =>
      if byEntry && below == .opened then none
      else (descend? byEntry change names below entries).map fun r =>
        (origin, replace es name (table r.1 r.2))
    | some (tables items) =>
      match items.getLast? with
      | none => none
      | some entries =>
        (descend? byEntry change names .opened entries).map fun r =>
          (origin, replace es name (tables (items.dropLast ++ [r.2])))
    | some _ => none

/-- A table with an entry, the last of the names its own and the others leading to it. The table
    the entry is put into must not have been opened otherwise. -/
def enter? (names : List String) (name : String) (value : Toml) (origin : TableOrigin)
    (es : Entries) : Option (TableOrigin × Entries) :=
  descend? (!names.isEmpty)
    (fun below entries =>
      if (below == .dotted) == names.isEmpty then none
      else if (entries.lookup name).isSome then none
      else some (below, entries ++ [(name, value)]))
    names origin es

/-! ## 2. Statements -/

/-- A statement of a document. -/
inductive Statement where
  | header (names : List String) (name : String)
  | itemHeader (names : List String) (name : String)
  | entry (names : List String) (name : String) (value : Toml)

/-- Opens a table in the one that holds it. -/
def openTable? (name : String) (origin : TableOrigin) (es : Entries) :
    Option (TableOrigin × Entries) :=
  match es.lookup name with
  | none => some (origin, es ++ [(name, table .opened [])])
  | some (table .implied entries) => some (origin, replace es name (table .opened entries))
  | some _ => none

/-- Opens another one of several tables. -/
def openItem? (name : String) (origin : TableOrigin) (es : Entries) :
    Option (TableOrigin × Entries) :=
  match es.lookup name with
  | none => some (origin, es ++ [(name, tables [[]])])
  | some (tables items) => some (origin, replace es name (tables (items ++ [[]])))
  | some _ => none

/-- A document: its entries, and the names that lead to the table open last. -/
structure Document where
  entries : Entries := []
  current : List String := []

/-- The document after a statement. -/
def Document.apply? (d : Document) : Statement → Option Document
  | .header names name =>
    (descend? false (openTable? name) names .opened d.entries).map fun r =>
      ⟨r.2, names ++ [name]⟩
  | .itemHeader names name =>
    (descend? false (openItem? name) names .opened d.entries).map fun r =>
      ⟨r.2, names ++ [name]⟩
  | .entry names name value =>
    (descend? false (enter? names name value) d.current .opened d.entries).map fun r =>
      ⟨r.2, d.current⟩

/-- The entries of a document with the statements. -/
def ofStatements? (statements : List Statement) : Option Entries :=
  (statements.foldlM Document.apply? {}).map (·.entries)

end Toml

end CodeInsight
