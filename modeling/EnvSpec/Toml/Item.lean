import EnvSpec.Manifest.Basic

/-!
# Items of a TOML document

A document is a table that is built statement by statement. Whether a later statement may add to a
table depends on how the table came to be: by a header of its own, by the header of a table below
it, by a dotted key, or between braces. Of an array of tables only the last table can still be
added to, so only that one is kept.
-/
namespace EnvSpec.Toml

/-- How a table came to be. -/
inductive Origin where
  | header
  | implied
  | dotted
  | braces
deriving Repr, DecidableEq

inductive Item where
  | string (text : String)
  | scalar (kind : ScalarKind)
  | array (items : List Item)
  | table (origin : Origin) (entries : List (String × Item))
  | tables (last : List (String × Item))
deriving Repr

abbrev Items := Entries String Item

namespace Items

/-- Writes `key` in the table that the dotted keys `path` lead to, making the tables on the way that
do not exist. A key is written once. A dotted key adds only to tables made by dotted keys; it may
pass through a table that has no header of its own, or into the last table of an array. -/
def assign (key : String) (value : Item) : List String → Items → Option Items
  | [], items => if (items.get? key).isNone then some (items.insert key value) else none
  | step :: path, items =>
    match items.get? step with
    | none => do
      return items.insert step (.table .dotted (← assign key value path []))
    | some (.table .dotted below) => do
      return items.insert step (.table .dotted (← assign key value path below))
    | some (.table .implied below) => do
      guard (!path.isEmpty)
      return items.insert step (.table .implied (← assign key value path below))
    | some (.tables last) => do
      guard (!path.isEmpty)
      return items.insert step (.tables (← assign key value path last))
    | some _ => none

/-- Changes the table that the keys of a header lead to, making the tables on the way that do not
exist. Values, tables between braces among them, cannot be entered. -/
def within (change : Items → Option Items) : List String → Items → Option Items
  | [], items => change items
  | step :: path, items =>
    match items.get? step with
    | none => do return items.insert step (.table .implied (← within change path []))
    | some (.table .braces _) => none
    | some (.table origin below) => do
      return items.insert step (.table origin (← within change path below))
    | some (.tables last) => do return items.insert step (.tables (← within change path last))
    | some _ => none

/-- Begins the table `key` by its header. A table that so far was only implied by the tables below
it keeps those and moves to the end; any other table may not be begun again. -/
def beginTable (key : String) (items : Items) : Option Items :=
  match items.get? key with
  | none => some (items.insert key (.table .header []))
  | some (.table .implied below) => some ((items.erase key).insert key (.table .header below))
  | some _ => none

/-- Begins the next table of the array of tables `key`. -/
def beginElement (key : String) (items : Items) : Option Items :=
  match items.get? key with
  | none | some (.tables _) => some (items.insert key (.tables []))
  | some _ => none

end Items

/-- One statement of a document. -/
inductive Statement where
  | table (parent : List String) (key : String)
  | element (parent : List String) (key : String)
  | assign (path : List String) (key : String) (value : Item)
deriving Repr

/-- A document up to some statement, and the keys of the table that assignments now go to. -/
structure Document where
  current : List String
  items : Items

namespace Document

def empty : Document := ⟨[], []⟩

def add (d : Document) : Statement → Option Document
  | .table parent key => do
    return ⟨parent ++ [key], ← d.items.within (Items.beginTable key) parent⟩
  | .element parent key => do
    return ⟨parent ++ [key], ← d.items.within (Items.beginElement key) parent⟩
  | .assign path key value => do
    return { d with items := ← d.items.within (Items.assign key value path) d.current }

def ofStatements? (statements : List Statement) : Option Document := statements.foldlM add empty

end Document

mutual

/-- The node that an item is in a manifest. Below braces every table counts as written between
braces. -/
def Item.toNode (braces : Bool) : Item → Node
  | .string text => .string text
  | .scalar kind => .other kind
  | .array _ => .other .array
  | .tables _ => .other .arrayOfTables
  | .table origin entries =>
    let inline := braces || origin = .braces
    .table ⟨inline, nodesOf inline entries⟩

def nodesOf (braces : Bool) : List (String × Item) → Entries String Node
  | [] => []
  | (key, item) :: rest => (key, item.toNode braces) :: nodesOf braces rest

end

def Document.manifest (d : Document) : Manifest := ⟨⟨false, nodesOf false d.items⟩⟩

end EnvSpec.Toml
