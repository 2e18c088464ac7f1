/-!
# Items of a TOML document

A table may be written in one place, by its header, or come to be by longer headers or by dotted
keys. How it came to be decides who may still add to it.
-/
namespace RestThrift.Toml

/-- How a table came to be: by braces, by its own header, by the header of a table inside it, or by
dotted keys. -/
inductive Origin
  | inline
  | header
  | implied
  | dotted
  deriving DecidableEq, Repr

inductive Scalar
  | text (s : String)
  | int (n : Int)
  | float (x : Float)
  | bool (b : Bool)
  | moment
  deriving Inhabited

inductive Item
  | scalar (s : Scalar)
  | array (items : List Item)
  | table (origin : Origin) (entries : List (String × Item))
  | tables (elements : List (List (String × Item)))
  deriving Inhabited

abbrev Entries := List (String × Item)

namespace Entries

/-- Put an item under a key, made from the item that is there. -/
def put? (key : String) (make : Option Item → Option Item) : Entries → Option Entries
  | [] => (make none).map fun item => [(key, item)]
  | (name, old) :: rest =>
    if name = key then (make (some old)).map fun item => (name, item) :: rest
    else (put? key make rest).map fun others => (name, old) :: others

/-- Change the table at a path, which is created where it is missing. Dotted keys pass only tables
without a header of their own, headers any table that is not inline; of several tables under one
name the last one counts. -/
def change? (byDots : Bool) (change : Origin → Entries → Option Entries) :
    List String → Origin → Entries → Option Entries
  | [], origin, entries => change origin entries
  | key :: path, _, entries =>
    let created : Origin := if byDots then .dotted else .implied
    entries.put? key fun
      | none => (change? byDots change path created []).map (.table created)
      | some (.table origin inner) =>
        if origin = .inline ∨ (byDots ∧ origin = .header) then none
        else (change? byDots change path origin inner).map (.table origin)
      | some (.tables elements) =>
        match elements.getLast? with
        | some last =>
          (change? byDots change path .header last).map fun last =>
            .tables (elements.dropLast ++ [last])
        | none => none
      | some _ => none

/-- Set a key that may be dotted. The key is new, and its table is one made by dotted keys exactly
if the key is dotted. -/
def set? (path : List String) (key : String) (item : Item) (origin : Origin) (entries : Entries) :
    Option Entries :=
  entries.change? true (fun origin entries =>
    if (origin = .dotted) = path.isEmpty then none
    else
      entries.put? key fun
        | none => some item
        | some _ => none) path origin

/-- Open a table by its header. -/
def openTable? (path : List String) (key : String) (entries : Entries) : Option Entries :=
  entries.change? false (fun _ entries => entries.put? key fun
    | none => some (.table .header [])
    | some (.table .implied inner) => some (.table .header inner)
    | some _ => none) path .header

/-- Open another table of an array of tables. -/
def openElement? (path : List String) (key : String) (entries : Entries) : Option Entries :=
  entries.change? false (fun _ entries => entries.put? key fun
    | none => some (.tables [[]])
    | some (.tables elements) => some (.tables (elements ++ [[]]))
    | some _ => none) path .header

end Entries

end RestThrift.Toml
