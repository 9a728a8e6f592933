import ShaderAlgebra.Ty.Basic

/-!
# Names of types

The text of a type, and the reading of a built-in type's name. A constructor call is recognised by
its name, so `ofName?` decides what counts as a constructor.
-/

namespace ShaderAlgebra

namespace Kind

def text : Kind → String
  | .bool => "bool"
  | .int => "int"
  | .float => "float"

end Kind

namespace Dim

def text (size : Dim) : String := toString size.count

end Dim

namespace Ty

/-! ## Writing -/

mutual

/-- The text of a type. A struct is written by its name alone. -/
def text : Ty → String
  | .void => "void"
  | .scalar kind => kind.text
  | .vector size .float => "vec" ++ size.text
  | .vector size .int => "ivec" ++ size.text
  | .vector size .bool => "bvec" ++ size.text
  | .matrix columns rows =>
    if columns = rows then "mat" ++ columns.text else "mat" ++ columns.text ++ "x" ++ rows.text
  | .array base size => text base ++ "[" ++ toString size ++ "]"
  | .struct name _ => name
  | .function parameters result => text result ++ "(" ++ textList parameters ++ ")"
  | .unknown => "<unknown>"

/-- Types separated by commas. -/
def textList : List Ty → String
  | [] => ""
  | [t] => text t
  | t :: ts => text t ++ ", " ++ textList ts

end

/-! ## Reading -/

/-- What follows a given beginning of a name. -/
def afterStart? : List Char → List Char → Option (List Char)
  | [], cs => some cs
  | _ :: _, [] => none
  | a :: start, c :: cs => if a = c then afterStart? start cs else none

/-- A natural number: decimal digits, with an optional plus sign in front. -/
def natural? (cs : List Char) : Option Nat :=
  let digits := if cs.head? = some '+' then cs.tail else cs
  if digits.isEmpty || !digits.all Char.isDigit then none
  else some (digits.foldl (fun n d => 10 * n + (d.toNat - '0'.toNat)) 0)

def dimension? (cs : List Char) : Option Dim := natural? cs >>= Dim.ofCount?

/-- The type after `mat`: columns and rows with an `x` between them, or one size for both. -/
def matrixOf? (cs : List Char) : Option Ty :=
  let columns := cs.takeWhile (· != 'x')
  match cs.dropWhile (· != 'x') with
  | [] => (dimension? columns).map mat
  | _ :: rows => do return .matrix (← dimension? columns) (← dimension? rows)

def vectorOf? (kind : Kind) (cs : List Char) : Option Ty :=
  (dimension? cs).map (.vector · kind)

/-- The built-in type with the given name. -/
def ofName? (name : String) : Option Ty :=
  if name = "void" then some .void
  else if name = "bool" then some bool
  else if name = "int" then some int
  else if name = "float" then some float
  else
    let cs := name.toList
    match afterStart? ['m', 'a', 't'] cs, afterStart? ['i', 'v', 'e', 'c'] cs,
        afterStart? ['b', 'v', 'e', 'c'] cs, afterStart? ['v', 'e', 'c'] cs with
    | some rest, _, _, _ => matrixOf? rest
    | _, some rest, _, _ => vectorOf? .int rest
    | _, _, some rest, _ => vectorOf? .bool rest
    | _, _, _, some rest => vectorOf? .float rest
    | none, none, none, none => none

end Ty

end ShaderAlgebra
