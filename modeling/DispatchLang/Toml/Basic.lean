import DispatchLang.Assoc

/-!
# Settings documents

A settings document in the TOML format is a table of named items. Its text gives the table piece by
piece: headers open tables, and entries put items into the table that was opened last. A table can be
opened only once, and what was said once cannot be said again; how a table came about decides what may
still be added to it. Numbers and dates are not modelled, since no setting has one.
-/

namespace DispatchLang.Toml

/-- How a table came about. -/
inductive Origin where
  /-- It was written between braces, so it is complete. -/
  | inline
  /-- It is part of a dotted key. -/
  | dotted
  /-- It is part of the header of another table. -/
  | implied
  /-- It has a header of its own. -/
  | header
deriving DecidableEq

/-- An item of a document. -/
inductive Item where
  /-- A text. -/
  | string (text : String)
  /-- A truth value. -/
  | bool (value : Bool)
  /-- A list of items. -/
  | array (items : List Item)
  /-- A table. -/
  | table (origin : Origin) (entries : List (String × Item))
  /-- A list of tables with headers of their own. -/
  | tables (elements : List (List (String × Item)))

/-- The named items of a table. -/
abbrev Entries : Type := List (String × Item)

/-- One piece of a document. -/
inductive Piece where
  /-- The header of a table. -/
  | header (parents : List String) (name : String)
  /-- The header of a table in a list of tables. -/
  | element (parents : List String) (name : String)
  /-- An entry. -/
  | entry (parents : List String) (name : String) (item : Item)

/-! ## Adding to tables -/

/-- Replaces the last of some things. -/
def replaceLast {α : Type} (f : α → Option α) : List α → Option (List α)
  | [] => none
  | [a] => (f a).map ([·])
  | a :: b :: as => (replaceLast f (b :: as)).map (a :: ·)

/-- Changes the table at the end of a path, making the tables on the way that are not there. A path of a
`dotted` key does not lead through tables that have headers; no path leads through tables between braces,
and the path through a list of tables is the one through the last of them. -/
def within? (dotted : Bool) (change : Origin → Entries → Option Entries) :
    List String → Origin → Entries → Option Entries
  | [], origin, entries => change origin entries
  | name :: path, _, entries => do
    let item ←
      match entries.lookup name with
      | none =>
        let origin : Origin := if dotted then .dotted else .implied
        (within? dotted change path origin []).map (.table origin)
      | some (.table .inline _) => none
      | some (.table origin inner) =>
        if dotted && origin = .header then none
        else (within? dotted change path origin inner).map (.table origin)
      | some (.tables elements) =>
        (replaceLast (within? dotted change path .header) elements).map .tables
      | some _ => none
    return Assoc.insert name item entries

/-- Adds an item under a name that is not taken. -/
def put? (name : String) (item : Item) (entries : Entries) : Option Entries :=
  if (entries.lookup name).isSome then none else some (Assoc.insert name item entries)

/-- Adds the item of a dotted key. The table that gets it has to be the one in which the key stands or
one that dotted keys made. -/
def putDotted? (parents : List String) (name : String) (item : Item) :
    Origin → Entries → Option Entries :=
  within? true
    (fun origin entries =>
      if (origin = .dotted) ↔ parents.isEmpty then none else put? name item entries)
    parents

/-- Opens a table that was at most implied before. -/
def openTable? (name : String) (entries : Entries) : Option Entries :=
  match entries.lookup name with
  | none => some (Assoc.insert name (.table .header []) entries)
  | some (.table .implied inner) => some (Assoc.insert name (.table .header inner) entries)
  | some _ => none

/-- Opens one more table of a list of tables. -/
def openElement? (name : String) (entries : Entries) : Option Entries :=
  match entries.lookup name with
  | none => some (Assoc.insert name (.tables [[]]) entries)
  | some (.tables elements) => some (Assoc.insert name (.tables (elements ++ [[]])) entries)
  | some _ => none

/-! ## Documents -/

/-- Adds pieces to a document. The argument `path` leads to the table that was opened last. -/
def addPieces? : List String → Entries → List Piece → Option Entries
  | _, root, [] => some root
  | path, root, .entry parents name item :: pieces => do
    addPieces? path (← within? false (putDotted? parents name item) path .header root) pieces
  | _, root, .header parents name :: pieces => do
    addPieces? (parents ++ [name])
      (← within? false (fun _ => openTable? name) parents .header root) pieces
  | _, root, .element parents name :: pieces => do
    addPieces? (parents ++ [name])
      (← within? false (fun _ => openElement? name) parents .header root) pieces

/-- The document that some pieces make up. -/
def Item.ofPieces? (pieces : List Piece) : Option Item :=
  (addPieces? [] [] pieces).map (.table .header)

/-- The table between braces that some entries make up. -/
def Item.ofEntries? (entries : List (List String × String × Item)) : Option Item :=
  (entries.foldlM (fun table (parents, name, item) => putDotted? parents name item .inline table)
    []).map (.table .inline)

end DispatchLang.Toml
