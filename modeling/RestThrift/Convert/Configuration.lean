import RestThrift.Convert.Error
import RestThrift.Convert.Options
import RestThrift.Toml.Reader

/-!
# Options from a configuration file

Options are read from the root of a TOML document. Other keys do not matter.
-/
namespace RestThrift

namespace Configuration

open Toml (Item Entries)

def text? : Item → Option String
  | .scalar (.text s) => some s
  | _ => none

def flag? : Item → Option Bool
  | .scalar (.bool b) => some b
  | _ => none

def isEmpty : Item → Bool
  | .array items => items.isEmpty
  | .table _ entries => entries.isEmpty
  | .tables elements => elements.isEmpty
  | .scalar _ => false

def policyNamed? (name : String) : Option ReferencePolicy :=
  [.lenient, .strict].find? fun policy => policy.name == name

/-- A policy by its name, which may also stand as the only key of a table, with nothing below it. -/
def policy? : Item → Option ReferencePolicy
  | .scalar (.text name) => policyNamed? name
  | .table _ [(name, content)] => if isEmpty content then policyNamed? name else none
  | _ => none

variable {α : Type}

/-- A key that may be missing. -/
def optional? (entries : Entries) (key : String) (read : Item → Option α) : Option (Option α) :=
  match entries.lookup key with
  | some item => (read item).map some
  | none => some none

def options? (entries : Entries) : Option Options := do
  let base ← optional? entries "namespace" text?
  let service ← optional? entries "serviceName" text?
  let scope ← optional? entries "namespaceScope" text?
  let policy ← optional? entries "refPolicy" policy?
  let noComments ← optional? entries "noComments" flag?
  return {
    base, service, scope, policy := policy.getD .lenient, noComments := noComments.getD false
  }

end Configuration

/-- Options from the text of a configuration file. -/
def readOptions (text : String) : Except ConversionError Options :=
  match (Toml.parse? text).bind Configuration.options? with
  | some options => .ok options
  | none => .error .badOptions

end RestThrift
