import RestThrift.Thrift.Definition

/-!
# Dependency order

The definitions of a file are put in an order in which each comes after the same-file definitions
that it mentions. Positions count the entries of the file in first-seen order. Each position counts
its pending dependencies; the least one that has none is taken next, and those that depend on it
have one less. Positions that never become ready are caught in or behind a cycle and keep their
first-seen order at the end.
-/
namespace RestThrift

/-- Unqualified names in a type. A qualified name points at another file. -/
def TypeRef.localNames (t : TypeRef) : List String :=
  t.walk.filterMap fun
    | .named name _ => if name.toList.contains '.' then none else some name
    | _ => none

def ServiceFunction.types (f : ServiceFunction) : List TypeRef :=
  f.returnType :: (f.parameters ++ f.throws).map Field.type

/-- Names that a definition mentions. -/
def Definition.mentions : Definition → List String
  | .service s => s.parent.toList ++ (s.functions.flatMap ServiceFunction.types).flatMap
      TypeRef.localNames
  | .function f => f.types.flatMap TypeRef.localNames
  | .message m => m.fields.flatMap fun f => f.type.localNames
  | .enumeration _ => []
  | .constant c => c.type.localNames
  | .typedef t => t.target.localNames

namespace Order

/-- Position of the first entry that bears the name. -/
def bearer? (names : List String) (name : String) : Option Nat := names.findIdx? (· == name)

/-- For each position, the other positions that it depends on. -/
def dependencies (entries : List Definition) : List (List Nat) :=
  let names := entries.map Definition.name
  entries.zipIdx.map fun (entry, i) =>
    ((entry.mentions.filterMap (bearer? names)).filter (· ≠ i)).eraseDups

/-- The positions that depend on a position, in ascending order. -/
def dependents (graph : List (List Nat)) (i : Nat) : List Nat :=
  (List.range graph.length).filter fun d => (graph.getD d []).contains i

/-- Insert a position into an ascending list without repetition. -/
def insertPosition (i : Nat) : List Nat → List Nat
  | [] => [i]
  | head :: rest =>
    if i = head then head :: rest
    else if i < head then i :: head :: rest
    else head :: insertPosition i rest

/-- What is ready in ascending order, how many dependencies of each position are pending, and what
is taken so far. -/
structure Progress where
  ready : List Nat
  pending : List Nat
  taken : List Nat := []

namespace Progress

def initial (graph : List (List Nat)) : Progress :=
  let pending := graph.map List.length
  { ready := (List.range graph.length).filter fun i => pending.getD i 0 == 0, pending }

/-- One dependency less is pending for a position. -/
def release (p : Progress) (d : Nat) : Progress :=
  let left := p.pending.getD d 0 - 1
  { p with
    pending := p.pending.set d left
    ready := if left = 0 then insertPosition d p.ready else p.ready }

/-- Take the least position that is ready, if there is one. -/
def advance (graph : List (List Nat)) (p : Progress) : Progress :=
  match p.ready with
  | [] => p
  | next :: ready =>
    (dependents graph next).foldl release { p with ready, taken := p.taken ++ [next] }

def run (graph : List (List Nat)) : Nat → Progress → Progress
  | 0, p => p
  | steps + 1, p => run graph steps (p.advance graph)

end Progress

/-- As many steps as there are positions leave nothing ready. -/
def positions (graph : List (List Nat)) : List Nat :=
  let taken := (Progress.run graph graph.length (.initial graph)).taken
  taken ++ (List.range graph.length).filter fun i => !taken.contains i

end Order

def Definitions.sorted (d : Definitions) : Definitions :=
  .ofEntries ((Order.positions (Order.dependencies d.entries)).filterMap (d.entries[·]?))

def File.sorted (f : File) : File := { f with definitions := f.definitions.sorted }

def Schema.sorted (s : Schema) : Schema := { s with files := s.files.map File.sorted }

end RestThrift
