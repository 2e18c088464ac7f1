import RestThrift.Thrift.Schema

/-!
# Definitions of any kind

A uniform view of everything that a file defines. `entries` lists the top-level definitions in the
order in which dependencies are looked for, `named` lists what can be found by name, functions
included.
-/
namespace RestThrift

inductive Definition
  | service (s : Service)
  | function (f : ServiceFunction)
  | message (m : Message)
  | enumeration (e : Enumeration)
  | constant (c : Constant)
  | typedef (t : Typedef)
  deriving Inhabited

namespace Definition

def name : Definition → String
  | .service s => s.name
  | .function f => f.name
  | .message m => m.name
  | .enumeration e => e.name
  | .constant c => c.name
  | .typedef t => t.name

def fqn : Definition → String
  | .service s => s.fqn
  | .function f => f.fqn
  | .message m => m.fqn
  | .enumeration e => e.fqn
  | .constant c => c.fqn
  | .typedef t => t.fqn

def kind : Definition → String
  | .service _ => "service"
  | .function _ => "function"
  | .message _ => "message"
  | .enumeration _ => "enum"
  | .constant _ => "constant"
  | .typedef _ => "typedef"

def service? : Definition → Option Service
  | .service s => some s
  | _ => none

def function? : Definition → Option ServiceFunction
  | .function f => some f
  | _ => none

def message? : Definition → Option Message
  | .message m => some m
  | _ => none

def enumeration? : Definition → Option Enumeration
  | .enumeration e => some e
  | _ => none

def constant? : Definition → Option Constant
  | .constant c => some c
  | _ => none

def typedef? : Definition → Option Typedef
  | .typedef t => some t
  | _ => none

end Definition

namespace Definitions

/-- Messages, enumerations, typedefs, constants, services. -/
def entries (d : Definitions) : List Definition :=
  d.messages.map .message ++ d.enums.map .enumeration ++ d.typedefs.map .typedef ++
    d.constants.map .constant ++ d.services.map .service

/-- The bag of the given entries, each kind in list order. -/
def ofEntries (entries : List Definition) : Definitions :=
  { services := entries.filterMap Definition.service?
    messages := entries.filterMap Definition.message?
    enums := entries.filterMap Definition.enumeration?
    constants := entries.filterMap Definition.constant?
    typedefs := entries.filterMap Definition.typedef? }

/-- Services, each followed by its functions, then messages, enumerations, constants, typedefs. -/
def named (d : Definitions) : List Definition :=
  (d.services.flatMap fun s => .service s :: s.functions.map .function) ++
    d.messages.map .message ++ d.enums.map .enumeration ++ d.constants.map .constant ++
    d.typedefs.map .typedef

end Definitions

end RestThrift
