import RuleProver.Decimal.Shortest
import RuleProver.Object.Printer
import RuleProver.Path
import RuleProver.Text.Quoted

/-!
# Values of benchmarks

What a benchmark returns, and what its parameters are: data of the usual kinds, together with the
objects of the prover. Every value has a literal form, which tells values of different kinds apart,
and a name for its kind.
-/

namespace RuleProver

/-- A value that a benchmark takes or returns. -/
inductive Value where
  | null
  | bool (b : Bool)
  | int (n : Int)
  | float (x : Float)
  | complex (re im : Float)
  | text (s : String)
  /-- A sequence of bytes, which may be one that can be changed in place. -/
  | bytes (mutable : Bool) (bs : List UInt8)
  | list (vs : List Value)
  | tuple (vs : List Value)
  | set (frozen : Bool) (vs : List Value)
  | dict (entries : List (Value × Value))
  /-- A decimal number that keeps the digits it was given with. -/
  | decimal (negative : Bool) (x : Decimal)
  | fraction (negative : Bool) (x : Fraction)
  | date (year month day : Nat)
  /-- A span of time in microseconds. -/
  | span (micros : Int)
  | path (p : String)
  /-- A unique identifier of 32 hexadecimal digits. -/
  | uuid (hex : String)
  | object (t : Object)
  /-- A value of which nothing but the name of its kind is known, with that name in two parts. -/
  | sealed (home kind : String)

namespace Value

/-! ## Literals -/

/-- An integer in decimal notation. -/
def intLiteral (n : Int) : String :=
  Decimal.signed (n < 0) (Text.decimal n.natAbs)

/-- A part of a complex number: whole numbers have no point. -/
def partLiteral (x : Float) : String :=
  let s := (Decimal.ofFloat x).toList
  String.ofList (if s.drop (s.length - 2) = ['.', '0'] then s.take (s.length - 2) else s)

/-- A complex number; the real part is left out when it is zero and has no sign. -/
def complexLiteral (re im : Float) : String :=
  let i := partLiteral im
  let i' := if i.toList.head? = some '-' then i else "+" ++ i
  if re == 0 && partLiteral re == "0" then i ++ "j" else "(" ++ partLiteral re ++ i' ++ "j)"

/-- The escaped form of a byte between two quotes. -/
def escapeByte (quote : Char) (b : UInt8) : List Char :=
  if b < 0x7F then Text.escape quote (Char.ofNat b.toNat)
  else ['\\', 'x'] ++ Text.hexadecimal 2 b.toNat

/-- Bytes between quotes. -/
def bytesLiteral (bs : List UInt8) : String :=
  let q := Text.quoteFor (bs.map fun b => Char.ofNat b.toNat)
  String.ofList ('b' :: q :: bs.flatMap (escapeByte q) ++ [q])

/-- The plain form of a path: empty parts and single dots are dropped, and two slashes at its start
are kept. -/
def plainPath (p : String) : String :=
  let kept := (Path.parts p).filter fun s => s ≠ "" ∧ s ≠ "."
  let root := match p.toList with
    | '/' :: '/' :: '/' :: _ => "/"
    | '/' :: '/' :: _ => "//"
    | '/' :: _ => "/"
    | _ => ""
  if root = "" ∧ kept = [] then "." else root ++ Text.join "/" kept

/-- The named parts of a span of time that are not zero: days, then seconds and microseconds, which
are never negative. -/
def spanParts (micros : Int) : List (String × Int) :=
  let day : Int := 86400000000
  let rest := Int.emod micros day
  [("days", Int.ediv micros day), ("seconds", Int.ediv rest 1000000),
    ("microseconds", Int.emod rest 1000000)].filter (·.2 ≠ 0)

/-- A call that makes a span of time. -/
def spanLiteral (micros : Int) : String :=
  let args := match spanParts micros with
    | [] => "0"
    | ps => Text.join ", " (ps.map fun (k, n) => k ++ "=" ++ intLiteral n)
  "datetime.timedelta(" ++ args ++ ")"

/-- The groups of digits of a unique identifier. -/
def uuidGroups (hex : String) : String :=
  let cs := hex.toList
  Text.join "-" <| [(0, 8), (8, 4), (12, 4), (16, 4), (20, 12)].map fun (start, n) =>
    String.ofList ((cs.drop start).take n)

mutual

/-- The literal form of a value. -/
def literal : Value → String
  | .null => "None"
  | .bool b => if b then "True" else "False"
  | .int n => intLiteral n
  | .float x => Decimal.ofFloat x
  | .complex re im => complexLiteral re im
  | .text s => Text.quoted s
  | .bytes false bs => bytesLiteral bs
  | .bytes true bs => "bytearray(" ++ bytesLiteral bs ++ ")"
  | .list vs => "[" ++ Text.join ", " (literals vs) ++ "]"
  | .tuple [v] => "(" ++ literal v ++ ",)"
  | .tuple vs => "(" ++ Text.join ", " (literals vs) ++ ")"
  | .set false [] => "set()"
  | .set true [] => "frozenset()"
  | .set false vs => "\x7b" ++ Text.join ", " (literals vs) ++ "\x7d"
  | .set true vs => "frozenset(\x7b" ++ Text.join ", " (literals vs) ++ "\x7d)"
  | .dict es => "\x7b" ++ Text.join ", " (entryLiterals es) ++ "\x7d"
  | .decimal negative x => "Decimal('" ++ Decimal.signed negative x.scientific ++ "')"
  | .fraction negative x =>
    "Fraction(" ++ Decimal.signed negative (Text.decimal x.num) ++ ", " ++ Text.decimal x.den ++ ")"
  | .date y m d =>
    "datetime.date(" ++ Text.join ", " [Text.decimal y, Text.decimal m, Text.decimal d] ++ ")"
  | .span micros => spanLiteral micros
  | .path p => "PurePosixPath(" ++ Text.quoted (plainPath p) ++ ")"
  | .uuid hex => "UUID('" ++ uuidGroups hex ++ "')"
  | .object t => Object.text t
  | .sealed home kind => "<" ++ home ++ "." ++ kind ++ ">"

/-- The literal forms of values. -/
def literals : List Value → List String
  | [] => []
  | v :: vs => literal v :: literals vs

/-- The literal forms of the entries of a dictionary. -/
def entryLiterals : List (Value × Value) → List String
  | [] => []
  | (k, v) :: es => (literal k ++ ": " ++ literal v) :: entryLiterals es

end

/-- A value as text: a text itself, and the literal form of anything else. -/
def shown : Value → String
  | .text s => s
  | v => v.literal

/-- The name of the kind of a value. -/
def kind : Value → String
  | .null => "NoneType"
  | .bool _ => "bool"
  | .int _ => "int"
  | .float _ => "float"
  | .complex _ _ => "complex"
  | .text _ => "str"
  | .bytes false _ => "bytes"
  | .bytes true _ => "bytearray"
  | .list _ => "list"
  | .tuple _ => "tuple"
  | .set false _ => "set"
  | .set true _ => "frozenset"
  | .dict _ => "dict"
  | .decimal _ _ => "Decimal"
  | .fraction _ _ => "Fraction"
  | .date _ _ _ => "date"
  | .span _ => "timedelta"
  | .path _ => "PurePosixPath"
  | .uuid _ => "UUID"
  | .object _ => "Object"
  | .sealed _ k => k

end Value

end RuleProver
