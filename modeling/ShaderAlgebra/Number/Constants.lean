import ShaderAlgebra.Number.Arithmetic

/-!
# Named numbers

The binary32 numbers nearest to the constants that folding and differentiation use.
-/

namespace ShaderAlgebra.Single

def zero : Single := Floating.zero false

def one : Single := Floating.unit false

def two : Single := Floating.ofInt 2

def three : Single := Floating.ofInt 3

/-- Half a turn. -/
def halfTurn : Single := Floating.ofRat 3.14159265358979323846

/-- The natural logarithm of two. -/
def logTwo : Single := Floating.ofRat 0.69314718055994530942

/-- The radians in a degree, as a quotient of rounded numbers. -/
def radiansPerDegree : Single := halfTurn / Floating.ofInt 180

/-- The degrees in a radian. -/
def degreesPerRadian : Single := Floating.ofRat 57.2957795130823208768

/-- The degrees in a radian, as a quotient of rounded numbers. -/
def degreesQuotient : Single := Floating.ofInt 180 / halfTurn

end ShaderAlgebra.Single
