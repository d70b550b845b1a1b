import CallbackLint.Settings.Datum

namespace CallbackLint

/-!
# Building tables

A document names the tables that it fills by paths of keys.  A table comes into
being when a path leads through it.  Where a path leads through a list of tables
it goes on in the last of them.

Tables may be closed in two ways.  One that has been declared cannot be declared
again.  What a value in brackets or braces holds is complete, so nothing below
it can be added to.
-/

namespace Toml

abbrev Entries := List (String × Datum)

namespace Entries

def put (key : String) (value : Datum) : Entries → Entries
  | [] => [(key, value)]
  | entry :: rest =>
    if entry.1 = key then (key, value) :: rest else entry :: put key value rest

/-- Change the table at the end of a path, if the path leads to a table. -/
def revise (throughLists : Bool) (change : Entries → Option Entries) :
    (path : List String) → Entries → Option Entries
  | [], entries => change entries
  | key :: rest, entries =>
    match Datum.find? key entries with
    | none => do
      let inner ← revise throughLists change rest []
      return put key (.table inner) entries
    | some (.table inner) => do
      let inner ← revise throughLists change rest inner
      return put key (.table inner) entries
    | some (.list items) =>
      match throughLists, items.getLast? with
      | true, some (.table inner) => do
        let inner ← revise throughLists change rest inner
        return put key (.list (items.dropLast ++ [.table inner])) entries
      | _, _ => none
    | some _ => none

def add (key : String) (value : Datum) (entries : Entries) : Option Entries :=
  match Datum.find? key entries with
  | some _ => none
  | none => some (entries ++ [(key, value)])

/-- Add an empty table to the list under a key. -/
def addTable (key : String) (entries : Entries) : Option Entries :=
  match Datum.find? key entries with
  | none => some (entries ++ [(key, .list [.table []])])
  | some (.list items) => some (put key (.list (items ++ [.table []])) entries)
  | some _ => none

end Entries

/-- The paths that are closed. -/
structure Closed where
  /-- Tables that cannot be declared again. -/
  declared : List (List String) := []
  /-- Values that nothing below can be added to. -/
  complete : List (List String) := []

namespace Closed

def isDeclared (closed : Closed) (path : List String) : Bool := closed.declared.contains path

/-- Whether a path leads to a complete value or below one. -/
def isComplete (closed : Closed) (path : List String) : Bool :=
  closed.complete.any fun stem => stem.isPrefixOf path

/-- Close a table against declarations. -/
def declare (closed : Closed) (path : List String) : Closed :=
  { closed with declared := path :: closed.declared }

/-- Close a value against additions, if it is one in brackets or braces. -/
def finish (closed : Closed) (path : List String) : Datum → Closed
  | .table _ | .list _ => { closed with complete := path :: closed.complete }
  | _ => closed

/-- Open everything at and below a path again. -/
def reopen (closed : Closed) (path : List String) : Closed :=
  { declared := closed.declared.filter fun other => !path.isPrefixOf other
    complete := closed.complete.filter fun other => !path.isPrefixOf other }

end Closed

end Toml

end CallbackLint
