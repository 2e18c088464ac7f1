/-!
# UTF-8

`Utf8.next` reads one character from the front of a byte list, or the longest run of bytes that
begins a character without finishing it. `lossy` writes one replacement character per such run,
`strict?` refuses the bytes.
-/
namespace RestThrift.Text.Utf8

/-- What stands at the front of a byte list: a character, or a faulty run, with its length. -/
inductive Front
  | char (c : Char) (length : Nat)
  | fault (length : Nat)
  deriving Repr

def isContinuation (b : UInt8) : Bool := 0x80 ≤ b.toNat && b.toNat ≤ 0xBF

def payload (b : UInt8) : Nat := b.toNat % 64

/-- The range of the second byte depends on the first: it excludes overlong forms, surrogates and
code points past the last one. -/
def second (first : Nat) (b : UInt8) : Bool :=
  let least := if first = 0xE0 then 0xA0 else if first = 0xF0 then 0x90 else 0x80
  let greatest := if first = 0xED then 0x9F else if first = 0xF4 then 0x8F else 0xBF
  least ≤ b.toNat && b.toNat ≤ greatest

def next (first : UInt8) (rest : List UInt8) : Front :=
  let a := first.toNat
  if a < 0x80 then .char (Char.ofNat a) 1
  else if 0xC2 ≤ a ∧ a ≤ 0xDF then
    match rest with
    | b :: _ =>
      if isContinuation b then .char (Char.ofNat (a % 32 * 64 + payload b)) 2 else .fault 1
    | [] => .fault 1
  else if 0xE0 ≤ a ∧ a ≤ 0xEF then
    match rest with
    | b :: more =>
      if second a b then
        match more with
        | c :: _ =>
          if isContinuation c then
            .char (Char.ofNat (a % 16 * 4096 + payload b * 64 + payload c)) 3
          else .fault 2
        | [] => .fault 2
      else .fault 1
    | [] => .fault 1
  else if 0xF0 ≤ a ∧ a ≤ 0xF4 then
    match rest with
    | b :: more =>
      if second a b then
        match more with
        | c :: more =>
          if isContinuation c then
            match more with
            | d :: _ =>
              if isContinuation d then
                let high := a % 8 * 262144 + payload b * 4096
                .char (Char.ofNat (high + payload c * 64 + payload d)) 4
              else .fault 3
            | [] => .fault 3
          else .fault 2
        | [] => .fault 2
      else .fault 1
    | [] => .fault 1
  else .fault 1

/-- Characters and faults in order; `skip` counts the bytes of the last front still to pass. -/
def fronts : Nat → List UInt8 → List Front
  | _, [] => []
  | skip + 1, _ :: rest => fronts skip rest
  | 0, first :: rest =>
    let front := next first rest
    let length := match front with
      | .char _ n => n
      | .fault n => n
    front :: fronts (length - 1) rest

def replacement : Char := Char.ofNat 0xFFFD

def lossy (bytes : List UInt8) : List Char :=
  (fronts 0 bytes).map fun
    | .char c _ => c
    | .fault _ => replacement

def strict? (bytes : List UInt8) : Option (List Char) :=
  (fronts 0 bytes).mapM fun
    | .char c _ => some c
    | .fault _ => none

end RestThrift.Text.Utf8
