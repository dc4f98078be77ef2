import NestedMachine.Toml.Statement

/-!
# TOML documents

The statements of a document build up its tables.  A table comes about in one of
three ways: a heading names it, a longer heading passes through it, or a key with
several names passes through it.  A heading can take over a table that only longer
headings passed through, and no other; a key can pass through tables that keys or
longer headings made, but it can give a value only in its own table or in one that
keys made.  No name is given a second value.
-/

namespace NestedMachine.Toml

set_option autoImplicit false

/-- How a table came about. -/
inductive Origin where
  /-- A heading names it. -/
  | heading
  /-- A longer heading passes through it. -/
  | passage
  /-- A key passes through it. -/
  | key
  deriving DecidableEq, Repr

/-- What stands at a name while a document is put together. -/
inductive Entry where
  | value (value : Toml)
  | table (origin : Origin) (members : List (String × Entry))
  /-- An array of tables, the last one first. -/
  | tables (items : List (List (String × Entry)))
  deriving Repr, Inhabited

/-- The members of a table while a document is put together. -/
abbrev Members := List (String × Entry)

/-- Give a name an entry, in place of any other. -/
def put (members : Members) (name : String) (entry : Entry) : Members :=
  if (members.lookup name).isSome then
    members.map fun field => if field.1 == name then (name, entry) else field
  else members ++ [(name, entry)]

/-- Take a name out. -/
def remove (members : Members) (name : String) : Members :=
  members.filter fun field => field.1 != name

/-- Change the table that a path leads to.  A path of a heading makes the tables on its way as
passages and enters every table; a path of a key makes them as tables of keys and does not enter
those that headings name.  Both enter the last item of an array of tables. -/
def alter? (byKey : Bool) (change : Origin → Members → Option Members) :
    List String → Origin → Members → Option Members
  | [], origin, members => change origin members
  | name :: rest, _, members =>
      match members.lookup name with
      | none =>
          let origin := if byKey then Origin.key else .passage
          (alter? byKey change rest origin []).map fun inner =>
            put members name (.table origin inner)
      | some (.value _) => none
      | some (.table origin inner) =>
          if byKey ∧ origin = .heading then none
          else
            (alter? byKey change rest origin inner).map fun inner =>
              put members name (.table origin inner)
      | some (.tables (last :: others)) =>
          (alter? byKey change rest .heading last).map fun last =>
            put members name (.tables (last :: others))
      | some (.tables []) => none

/-- A document that is being put together: the finished tables, and the one that assignments go to,
with the path that leads to it. -/
structure Draft where
  root : Members
  path : List String
  /-- Whether the current table is an item of an array of tables. -/
  isItem : Bool
  current : Members

namespace Draft

/-- The draft of a document without statements. -/
def empty : Draft := ⟨[], [], false, []⟩

/-- Put the current table where its path leads. -/
def finish? (draft : Draft) : Option Members :=
  match draft.path.reverse with
  | [] => some draft.current
  | name :: above =>
      alter? false (fun _ members =>
        if draft.isItem then
          match members.lookup name with
          | none => some (put members name (.tables [draft.current]))
          | some (.tables items) => some (put members name (.tables (draft.current :: items)))
          | some _ => none
        else some (put members name (.table .heading draft.current)))
        above.reverse .heading draft.root

/-- The members that a heading takes over from the table of its name. -/
def takenOver? (members : Members) (name : String) : Option Members :=
  match members.lookup name with
  | none => some []
  | some (.table .passage inner) => some inner
  | some _ => none

/-- The members at a path below which a heading names a table. -/
def membersAt? : List String → Members → Option Members
  | [], members => some members
  | name :: rest, members =>
      match members.lookup name with
      | none => some []
      | some (.value _) => none
      | some (.table _ inner) => membersAt? rest inner
      | some (.tables (last :: _)) => membersAt? rest last
      | some (.tables []) => none

/-- Start the table that a heading names. -/
def startTable? (draft : Draft) (path : List String) : Option Draft := do
  let root ← draft.finish?
  let name ← path.getLast?
  let above := path.dropLast
  let current ← takenOver? (← membersAt? above root) name
  let root ← alter? false (fun _ members => some (remove members name)) above .heading root
  return ⟨root, path, false, current⟩

/-- Start an item of the array of tables that a heading names. -/
def startItem? (draft : Draft) (path : List String) : Option Draft := do
  let root ← draft.finish?
  let name ← path.getLast?
  let members ← membersAt? path.dropLast root
  match members.lookup name with
  | none => return ⟨root, path, true, []⟩
  | some (.tables _) => return ⟨root, path, true, []⟩
  | some _ => none

/-- Assign a value to a key of the current table. -/
def assign? (draft : Draft) (key : List String) (value : Toml) : Option Draft := do
  let name ← key.getLast?
  let above := key.dropLast
  let current ← alter? true (fun origin members =>
    if above ≠ [] ∧ origin ≠ .key then none
    else if (members.lookup name).isSome then none
    else some (put members name (.value value)))
    above .heading draft.current
  return { draft with current }

/-- Carry out a statement. -/
def add? (draft : Draft) : Statement → Option Draft
  | .heading path => draft.startTable? path
  | .itemHeading path => draft.startItem? path
  | .assignment key value => draft.assign? key value

end Draft

/-! ## Finished documents -/

mutual

/-- The value of an entry. -/
def Entry.toValue : Entry → Toml
  | .value value => value
  | .table _ members => .table (membersToValues members)
  | .tables items => .array (tablesToValues items).reverse

/-- The values of members. -/
def membersToValues : List (String × Entry) → List (String × Toml)
  | [] => []
  | (name, entry) :: rest => (name, entry.toValue) :: membersToValues rest

/-- The values of an array of tables. -/
def tablesToValues : List (List (String × Entry)) → List Toml
  | [] => []
  | members :: rest => .table (membersToValues members) :: tablesToValues rest

end

/-- Carry out statements, in order. -/
def addAll? (draft : Draft) : List Statement → Option Draft
  | [] => some draft
  | statement :: rest =>
      match draft.add? statement with
      | some draft => addAll? draft rest
      | none => none

/-- The members of the table that a document is. -/
def ofText? (text : String) : Option (List (String × Toml)) := do
  let draft ← addAll? .empty (← statementsOf? text)
  return membersToValues (← draft.finish?)

end NestedMachine.Toml
