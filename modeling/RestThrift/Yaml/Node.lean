import RestThrift.Yaml.Tag

/-!
# Nodes of a YAML document

A document is a tree of nodes. An alias refers to an anchor by number; where a number is given
several times, the last node in document order has it.
-/
namespace RestThrift.Yaml

inductive Node
  | reference (anchor : Nat)
  | scalar (anchor : Option Nat) (tag : Option Tag) (text : List Char) (plain : Bool)
  | sequence (anchor : Option Nat) (tag : Option Tag) (items : List Node)
  | mapping (anchor : Option Nat) (tag : Option Tag) (entries : List (Node × Node))
  deriving Inhabited

namespace Node

/-- A scalar that is not written at all. -/
def blank : Node := .scalar none none [] true

mutual
/-- Collections count twice, for their start and their end. -/
def weight : Node → Nat
  | .reference _ => 1
  | .scalar .. => 1
  | .sequence _ _ items => weightItems items + 2
  | .mapping _ _ entries => weightEntries entries + 2

def weightItems : List Node → Nat
  | [] => 0
  | node :: rest => weight node + weightItems rest

def weightEntries : List (Node × Node) → Nat
  | [] => 0
  | (key, value) :: rest => weight key + weight value + weightEntries rest
end

def mark (anchor : Option Nat) (node : Node) (inside : List (Nat × Node)) : List (Nat × Node) :=
  match anchor with
  | some n => (n, node) :: inside
  | none => inside

mutual
/-- The anchored nodes in document order. -/
def anchored : Node → List (Nat × Node)
  | .reference _ => []
  | .scalar anchor tag text plain => mark anchor (.scalar anchor tag text plain) []
  | .sequence anchor tag items => mark anchor (.sequence anchor tag items) (anchoredItems items)
  | .mapping anchor tag entries =>
      mark anchor (.mapping anchor tag entries) (anchoredEntries entries)

def anchoredItems : List Node → List (Nat × Node)
  | [] => []
  | node :: rest => anchored node ++ anchoredItems rest

def anchoredEntries : List (Node × Node) → List (Nat × Node)
  | [] => []
  | (key, value) :: rest => anchored key ++ anchored value ++ anchoredEntries rest
end

end Node

end RestThrift.Yaml
