import SelectorExplain.Toml.Key
import SelectorExplain.Toml.Value

set_option autoImplicit false

/-! # Building the tables of a document

A document is built line by line. A header opens a table, and every key that follows is put into it;
tables on the way to a header or to a dotted key are made when they are missing. A key is given a
value only once, a table is stated only once, and dotted keys do not reach into stated tables. A
report on a header shows the last key of the header in its written form, and all else as it is. -/

namespace SelectorExplain

namespace Toml

/-! ## Entries -/

/-- The value of a key. -/
def Entries.get? (t : Entries) (key : String) : Option Value := t.lookup key

/-- Gives a key another value in its place. -/
def Entries.set (t : Entries) (key : String) (value : Value) : Entries :=
  t.map fun e => if e.1 = key then (key, value) else e

/-- Adds a key at the end. -/
def Entries.add (t : Entries) (key : String) (value : Value) : Entries := t ++ [(key, value)]

/-- Removes a key. -/
def Entries.erase (t : Entries) (key : String) : Entries := t.filter (·.1 != key)

/-! ## Paths -/

/-- Changes the last of several tables. -/
def changeLast (f : Entries → Except Breach Entries) :
    List Entries → Except Breach (List Entries)
  | [] => return [← f []]
  | [t] => return [← f t]
  | t :: more => return t :: (← changeLast f more)

/-- Changes the table to which `path` leads; `way` is how tables that are missing on it come about.
    A path goes through tables of one way of writing, `braced` or not, and to the last of the tables
    of a header in double brackets. `passed` is the path so far. -/
def change (braced : Bool) (way : Origin) (f : Origin → Entries → Except Breach Entries) :
    (passed path : List String) → Origin → Entries → Except Breach Entries
  | _, [], here, t => f here t
  | passed, key :: path, _, t =>
    let passed := passed ++ [key]
    match t.get? key with
    | none => return t.add key (.table braced way (← change braced way f passed path way []))
    | some (.tables items) =>
      return t.set key (.tables (← changeLast (change braced way f passed path .stated) items))
    | some (.table written here sub) =>
      if written != braced then .error (.notATable passed (Value.table written here sub).typeName)
      else if way = .dotted ∧ here = .stated then .error (.duplicateKey key none)
      else return t.set key (.table braced here (← change braced way f passed path here sub))
    | some v => .error (.notATable passed v.typeName)

/-! ## Keys and headers -/

/-- Puts a value under a key of the table at `path`, which is that of a dotted key. `name` is the
    path of the table in which the key is written, if it has one. -/
def Entries.put (braced : Bool) (name : Option (List String)) (path : List String) (key : String)
    (value : Value) (t : Entries) : Except Breach Entries :=
  change braced .dotted (fun here t =>
    if (here == .dotted) == path.isEmpty then .error (.duplicateKey key none)
    else match t.get? key with
      | some _ => .error (.duplicateKey key name)
      | none => .ok (t.add key value)) [] path .stated t

/-- A document of which some lines have been read. -/
structure Draft where
  root : Entries := []
  /-- The path of the table that was opened last. -/
  current : List String := []
  deriving Inhabited

namespace Draft

/-- Opens the table of a header. One that only stood on the way of other headers is stated now. -/
def openTable (d : Draft) (parents : List String) (key : String) : Except Breach Draft := do
  let root ← change false .implied (fun _ t =>
    match t.get? key with
    | none => .ok (t.add key (.table false .stated []))
    | some (.table false .implied sub) => .ok ((t.erase key).add key (.table false .stated sub))
    | some _ => .error (.duplicateKey (writtenKey key) (some parents))) [] parents .stated d.root
  return { root, current := parents ++ [key] }

/-- Opens another table of a header in double brackets. -/
def openItem (d : Draft) (parents : List String) (key : String) : Except Breach Draft := do
  let root ← change false .implied (fun _ t =>
    match t.get? key with
    | none => .ok (t.add key (.tables [[]]))
    | some (.tables items) => .ok (t.set key (.tables (items ++ [[]])))
    | some _ => .error (.duplicateKey (writtenKey key) (some parents))) [] parents .stated d.root
  return { root, current := parents ++ [key] }

/-- Puts a value under a dotted key of the table that was opened last. -/
def put (d : Draft) (path : List String) (key : String) (value : Value) : Except Breach Draft := do
  let root ← change false .implied
    (fun _ t => t.put false (some d.current) path key value) [] d.current .stated d.root
  return { d with root }

end Draft

end Toml

end SelectorExplain
