import ShaderAlgebra.NodeError

/-!
# Swizzles

A selector such as `.xyz` or `.ba` picks components of a vector. Its letters come from one of three
alphabets, and there are one to four of them.
-/

namespace ShaderAlgebra

/-- A component of a vector. -/
inductive Component where
  | x
  | y
  | z
  | w
deriving DecidableEq, Repr

namespace Component

/-- The position of the component, counted from zero. -/
def index : Component → Nat
  | .x => 0
  | .y => 1
  | .z => 2
  | .w => 3

def all : List Component := [.x, .y, .z, .w]

end Component

/-- The alphabet that a selector is written in. -/
inductive Alphabet where
  | position
  | color
  | texture
deriving DecidableEq, Repr

namespace Alphabet

def all : List Alphabet := [.position, .color, .texture]

/-- The letter of a component. -/
def letter : Alphabet → Component → Char
  | .position, .x => 'x'
  | .position, .y => 'y'
  | .position, .z => 'z'
  | .position, .w => 'w'
  | .color, .x => 'r'
  | .color, .y => 'g'
  | .color, .z => 'b'
  | .color, .w => 'a'
  | .texture, .x => 's'
  | .texture, .y => 't'
  | .texture, .z => 'p'
  | .texture, .w => 'q'

/-- The component that a letter stands for. -/
def component? (alphabet : Alphabet) (c : Char) : Option Component :=
  Component.all.find? fun component => alphabet.letter component == c

/-- The alphabet that a letter is from, with the component that it stands for there. -/
def find? (c : Char) : Option (Alphabet × Component) :=
  all.findSome? fun alphabet => (alphabet.component? c).map (alphabet, ·)

/-- The four letters of the alphabet in order. -/
def text (alphabet : Alphabet) : String := String.ofList (Component.all.map alphabet.letter)

end Alphabet

/-- A selector: the components it picks and the alphabet it is written in. -/
structure Swizzle where
  pattern : List Component
  alphabet : Alphabet
deriving DecidableEq, Repr

namespace Swizzle

def text (s : Swizzle) : String := String.ofList (s.pattern.map s.alphabet.letter)

/-- Reads letters one after the other. The first of them chooses the alphabet, and those after it
have to be from the same one. -/
def readLetters (chosen : Option Alphabet) (pattern : List Component) : List Char → Option Swizzle
  | [] => chosen.map fun alphabet => ⟨pattern, alphabet⟩
  | c :: rest => do
    let (alphabet, component) ← Alphabet.find? c
    if chosen.getD alphabet = alphabet then
      readLetters (some alphabet) (pattern ++ [component]) rest
    else none

/-- Reads a selector of one to four letters of one alphabet. -/
def parse? (field : String) : Option Swizzle :=
  let letters := field.toList
  if letters.isEmpty || 4 < letters.length then none else readLetters none [] letters

def parse (field : String) : Except NodeError Swizzle :=
  match parse? field with
  | some s => .ok s
  | none => .error (.invalidSwizzle field)

def length (s : Swizzle) : Nat := s.pattern.length

/-- The type of the selected components: a scalar for one of them, else a vector. -/
def resultType (s : Swizzle) (base : Ty) : Except NodeError Ty :=
  match base with
  | .vector size kind =>
    if s.pattern.all fun component => component.index < size.count then
      match Dim.ofCount? s.length with
      | some selected => .ok (.vector selected kind)
      | none => .ok (.scalar kind)
    else .error (.invalidSwizzle s.text)
  | _ => .error (.invalidSwizzle s.text)

/-- Whether the selector picks every component of a vector of the given size, in order. -/
def isIdentity (s : Swizzle) (size : Dim) : Bool :=
  s.pattern.map Component.index == List.range size.count

/-- Whether no component is picked twice in a list. -/
def areDistinct : List Component → Bool
  | [] => true
  | component :: rest => !rest.contains component && areDistinct rest

/-- Whether no component is picked twice. -/
def isDistinct (s : Swizzle) : Bool := areDistinct s.pattern

end Swizzle

end ShaderAlgebra
