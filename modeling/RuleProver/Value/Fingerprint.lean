import RuleProver.Digest
import RuleProver.Value

/-!
# Fingerprints

A fingerprint is the digest of a value written as bytes. Values that should count as the same result
are written alike: lists and tuples, floats that agree in six significant digits, dictionaries and
sets in whatever order. A dictionary is written in the order of the digests of its keys, and a set
as the digests of its members in order.
-/

namespace RuleProver.Value

/-! ## Objects as records -/

/-- Whether an object has a way of its own to be printed. Terms and foreign kinds have none. -/
def printer (kind : Option Head) : Value :=
  match kind with
  | some (.term _) | some (.other _ _) => .null
  | _ => .sealed "builtins" "function"

/-- The name of the kind of an object. -/
def kindName : Option Head → String
  | some (.term _) => "Term"
  | some (.rule _) => "Rew"
  | some .comp => "Comp"
  | some .goal => "Goal"
  | some (.other k _) => k
  | none => "Hole"

/-- A text that may be missing. -/
def ofOption : Option String → Value
  | some s => .text s
  | none => .null

/-- The record of an object, from the records of its parts. -/
def record (head : Option Head) (handle : Option String) (children : List Value)
    (data : List (Value × Value)) : Value :=
  .dict [(.text "type", .text (kindName head)), (.text "children", .list children),
    (.text "handle", ofOption handle), (.text "repr_func", printer head),
    (.text "data", .dict data)]

mutual

/-- An object as a record of its kind, children, name and data. -/
def ofObject : Object → Value
  | .hole _ x => record none (some x) [] []
  | .node m h cs => record (some h) h.handle (ofObjects cs) (ofNote m)

/-- Objects as records. -/
def ofObjects : List Object → List Value
  | [] => []
  | t :: ts => ofObject t :: ofObjects ts

/-- What a goal remembers. -/
def ofNote : Note → List (Value × Value)
  | .mk _ none => []
  | .mk _ (some (symbol, statement)) =>
    [(.text "unreduced", ofObject statement), (.text "rew", ofOption symbol)]

end

/-! ## Values as bytes -/

/-- The bytes of a text. -/
def textBytes (s : String) : List UInt8 := s.toUTF8.toList

/-- A letter and a count, in front of a collection. -/
def header (letter : String) (n : Nat) : List UInt8 := textBytes (letter ++ Text.decimal n)

/-- Puts entries in the order of a text beside each. -/
def inOrder {α : Type} (xs : List (String × α)) : List (String × α) :=
  xs.mergeSort fun x y => !decide (y.1 < x.1)

/-- Keeps the first entry with each text. -/
def distinct {α : Type} : List (String × α) → List (String × α)
  | [] => []
  | x :: xs => x :: (distinct xs).filter (·.1 ≠ x.1)

/-- The number of significant digits of a float that count. -/
def floatDigits : Nat := 6

/-- A float with the digits that count. -/
def settled (x : Float) : Float := Decimal.roundSignificant floatDigits x

mutual

/-- A value without objects as bytes. -/
def plainBytes : Value → List UInt8
  | .text s => textBytes "s" ++ textBytes s
  | .bytes _ bs => textBytes "s" ++ bs
  | .float x => textBytes (Decimal.ofFloat (settled x))
  | .complex re im => textBytes (complexLiteral (settled re) (settled im))
  | .list vs => header "L" vs.length ++ (sequences vs).flatten
  | .tuple vs => header "L" vs.length ++ (sequences vs).flatten
  | .set _ vs =>
    let members := distinct ((sequences vs).map fun bs => (Digest.hex bs, ()))
    header "S" members.length ++ (inOrder members).flatMap fun x => textBytes x.1
  | .dict es =>
    let entries := (distinct (pairs es).reverse).reverse
    header "D" entries.length ++ (inOrder entries).flatMap (·.2)
  | .sealed home kind => textBytes ("<" ++ home ++ "." ++ kind ++ ">")
  | v => textBytes v.literal

/-- Values as bytes, each on its own. -/
def sequences : List Value → List (List UInt8)
  | [] => []
  | v :: vs => plainBytes v :: sequences vs

/-- The entries of a dictionary as bytes, each beside the digest of its key. -/
def pairs : List (Value × Value) → List (String × List UInt8)
  | [] => []
  | (k, v) :: es =>
    let key := plainBytes k
    (Digest.hex key, key ++ plainBytes v) :: pairs es

end

mutual

/-- A value with its objects as records. -/
def withRecords : Value → Value
  | .object t => ofObject t
  | .list vs => .list (allWithRecords vs)
  | .tuple vs => .tuple (allWithRecords vs)
  | .set frozen vs => .set frozen (allWithRecords vs)
  | .dict es => .dict (entriesWithRecords es)
  | v => v

/-- Values with their objects as records. -/
def allWithRecords : List Value → List Value
  | [] => []
  | v :: vs => withRecords v :: allWithRecords vs

/-- Entries with their objects as records. -/
def entriesWithRecords : List (Value × Value) → List (Value × Value)
  | [] => []
  | (k, v) :: es => (withRecords k, withRecords v) :: entriesWithRecords es

end

/-- The fingerprint of a value. -/
def fingerprint (v : Value) : String := Digest.hex (plainBytes v.withRecords)

end RuleProver.Value
