/-!
# Values and tables of a settings document

A value is what stands behind an equals sign. Tables are opened by headers and by dotted keys; how
a table came about decides what may be added to it later, so that no table is defined twice. The
three ways are a `Standing`: opened by its own header, created on the way to a deeper header, or
created on the way to a dotted key.
-/

namespace DeferredCalls.Toml

/-- A value. Fractional numbers and moments in time are recognised, but no setting asks for what
they denote. -/
inductive Value
  | text (s : String)
  | integer (n : Int)
  | fraction
  | boolean (b : Bool)
  | moment
  | array (items : List Value)
  | table (entries : List (String × Value))

/-- How a table came about. -/
inductive Standing
  /-- By a header of its own, or as the document itself. -/
  | explicit
  /-- On the way to a deeper header. -/
  | implicit
  /-- On the way to a dotted key. -/
  | dotted
  deriving DecidableEq, Repr

/-- What a name stands for while a document is read. -/
inductive Item
  /-- A finished value, to which nothing can be added. -/
  | value (v : Value)
  /-- A table. -/
  | table (standing : Standing) (entries : List (String × Item))
  /-- A list of tables opened by repeated headers; only the last one can be added to. -/
  | tables (elements : List (List (String × Item)))

/-- The names of a table and what they stand for. -/
abbrev Entries := List (String × Item)

namespace Entries

/-- What a name stands for. -/
def find? (es : Entries) (key : String) : Option Item :=
  es.lookup key

/-- Lets a name stand for an item, in place of what it stood for. -/
def set (es : Entries) (key : String) (item : Item) : Entries :=
  if es.any (·.1 == key) then es.map (fun e => if e.1 == key then (key, item) else e)
  else es ++ [(key, item)]

/-- Changes the table reached along a path. Tables missing on the way are created; a path does not
lead through a finished value, and a dotted key does not lead through a table with a header. -/
def alterAt (viaKey : Bool) (change : Standing → Entries → Option Entries) :
    List String → Standing → Entries → Option Entries
  | [], standing, es => change standing es
  | key :: path, _, es =>
    match es.find? key with
    | none =>
      let standing := if viaKey then Standing.dotted else Standing.implicit
      (alterAt viaKey change path standing []).map fun inner => es.set key (.table standing inner)
    | some (.value _) => none
    | some (.table standing inner) =>
      if viaKey && standing == .explicit then none
      else (alterAt viaKey change path standing inner).map fun inner' =>
        es.set key (.table standing inner')
    | some (.tables elements) =>
      match elements.reverse with
      | [] => none
      | last :: before =>
        (alterAt viaKey change path .explicit last).map fun last' =>
          es.set key (.tables (before.reverse ++ [last']))

/-- Adds a value under a dotted key whose last part is `key`. The table that it enters must be the
one in which the key is written, if the key has no dots, and else a table made by dotted keys. -/
def addValue (path : List String) (key : String) (v : Value) (standing : Standing)
    (es : Entries) : Option Entries :=
  alterAt true (fun standing' es' =>
    if (standing' == .dotted) == path.isEmpty then none
    else if (es'.find? key).isSome then none
    else some (es' ++ [(key, .value v)])) path standing es

/-- Opens the table of a header `[path.key]`. A table has at most one header. -/
def openTable (path : List String) (key : String) (es : Entries) : Option Entries :=
  alterAt false (fun _ es' =>
    match es'.find? key with
    | none => some (es' ++ [(key, .table .explicit [])])
    | some (.table .implicit inner) => some (es'.set key (.table .explicit inner))
    | some _ => none) path .explicit es

/-- Opens another element of the list of tables of a header `[[path.key]]`. -/
def openElement (path : List String) (key : String) (es : Entries) : Option Entries :=
  alterAt false (fun _ es' =>
    match es'.find? key with
    | none => some (es' ++ [(key, .tables [[]])])
    | some (.tables elements) => some (es'.set key (.tables (elements ++ [[]])))
    | some _ => none) path .explicit es

end Entries

mutual

/-- What an item denotes once the document has been read. -/
def Item.toValue : Item → Value
  | .value v => v
  | .table _ es => .table (Entries.toValues es)
  | .tables elements => .array (Entries.elementValues elements)

/-- What the names of a table denote. -/
def Entries.toValues : List (String × Item) → List (String × Value)
  | [] => []
  | (key, item) :: es => (key, item.toValue) :: Entries.toValues es

/-- What the elements of a list of tables denote. -/
def Entries.elementValues : List (List (String × Item)) → List Value
  | [] => []
  | es :: rest => .table (Entries.toValues es) :: Entries.elementValues rest

end

end DeferredCalls.Toml
