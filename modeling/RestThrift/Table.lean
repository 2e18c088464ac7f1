/-!
# Sorted tables

A table is a list of entries in strictly ascending key order. Keys are compared by code point.
-/
namespace RestThrift

abbrev Table (α : Type) := List (String × α)

namespace Table

variable {α β : Type}

def get? (key : String) : Table α → Option α
  | [] => none
  | (k, a) :: rest => if k = key then some a else get? key rest

/-- Insert an entry in order; an entry with the same key is replaced. -/
def insert (key : String) (a : α) : Table α → Table α
  | [] => [(key, a)]
  | (k, b) :: rest =>
    if key = k then (key, a) :: rest
    else if key < k then (key, a) :: (k, b) :: rest
    else (k, b) :: insert key a rest

def ofList (entries : List (String × α)) : Table α :=
  entries.foldl (fun table entry => insert entry.1 entry.2 table) []

def contains (key : String) (table : Table α) : Bool := (table.get? key).isSome

/-- Change the entry of a key, which is `empty` when it is missing. -/
def update (key : String) (empty : α) (change : α → α) (table : Table α) : Table α :=
  insert key (change ((table.get? key).getD empty)) table

def keys (table : Table α) : List String := table.map (·.1)

end Table

/-- Insert a text into an ascending list without repetition. -/
def insertSorted (text : String) : List String → List String
  | [] => [text]
  | head :: rest =>
    if text = head then head :: rest
    else if text < head then text :: head :: rest
    else head :: insertSorted text rest

end RestThrift
