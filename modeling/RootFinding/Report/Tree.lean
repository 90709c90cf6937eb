/-!
# Trees of data

The form in which reports are exchanged: null, flags, natural numbers, other numbers, texts,
lists, and fields under names. A number that is not finite has no place in a tree and is
written as null; null is never read back. A record is read either from its fields by name,
where further fields do no harm, or from a list of exactly its values in their order. A count
fits 64 bits.
-/

namespace RootFinding

inductive Tree where
  | null
  | flag (b : Bool)
  | whole (n : Nat)
  | number (x : Float)
  | text (s : String)
  | list (items : List Tree)
  | fields (entries : List (String × Tree))

namespace Tree

def ofNumber (x : Float) : Tree := if x.isFinite then .number x else .null

def ofNumbers (v : List Float) : Tree := .list (v.map ofNumber)

def flag? : Tree → Option Bool
  | flag b => some b
  | _ => none

def count? : Tree → Option Nat
  | whole n => if n < UInt64.size then some n else none
  | _ => none

/-- A natural number is read as the binary64 number nearest to it. -/
def number? : Tree → Option Float
  | number x => if x.isFinite then some x else none
  | whole n => if (Float.ofNat n).isFinite then some (Float.ofNat n) else none
  | _ => none

def text? : Tree → Option String
  | text s => some s
  | _ => none

def items? : Tree → Option (List Tree)
  | list items => some items
  | _ => none

def numbers? (t : Tree) : Option (List Float) := t.items?.bind fun items => items.mapM number?

def record? (names : List String) : Tree → Option (List Tree)
  | fields entries => names.mapM fun name => entries.lookup name
  | list items => if items.length = names.length then some items else none
  | _ => none

end Tree

end RootFinding
