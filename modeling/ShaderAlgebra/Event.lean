/-!
# Events

What the passes report while they work. An event is a value that a pass returns beside its result;
its level and its text are read off it here.
-/

namespace ShaderAlgebra

inductive Level where
  | trace
  | debug
  | info
  | warn
deriving DecidableEq, Repr

namespace Level

def text : Level → String
  | .trace => "TRACE"
  | .debug => "DEBUG"
  | .info => "INFO"
  | .warn => "WARN"

end Level

inductive Event where
  /-- A rule replaced a node. -/
  | ruleFired (rule : String)
  /-- An expression reached its simplest form. -/
  | simplified (changes passes : Nat)
  /-- An expression was still changing at the last pass allowed. -/
  | noFixedPoint (passes : Nat) (expr : String)
  | inferredFunction (name : String)
  | inferredShader (items functions : Nat)
  /-- A derivative, with its size before and after simplification. -/
  | differentiated (function parameter : String) (before after : Nat)
  | skippedDerivative (function parameter reason : String)
  | differentiatedShader (items skipped : Nat)
  | preparedShader (items diagnostics : Nat)
  | loweredFunction (name : String)
  | loweredShader (items : Nat)
  | emittedScript (bytes : Nat)
deriving DecidableEq, Repr

namespace Event

def level : Event → Level
  | .ruleFired _ => .trace
  | .noFixedPoint .. | .skippedDerivative .. => .warn
  | .emittedScript _ => .info
  | .simplified .. | .inferredFunction _ | .inferredShader .. | .differentiated ..
  | .differentiatedShader .. | .preparedShader .. | .loweredFunction _ | .loweredShader _ => .debug

def message : Event → String
  | .ruleFired rule => rule ++ " fired"
  | .simplified changes passes =>
    "simplified with " ++ toString changes ++ " rewrite(s) in " ++ toString passes ++ " pass(es)"
  | .noFixedPoint passes expr =>
    "simplification did not reach a fixed point after " ++ toString passes ++ " passes: " ++ expr
  | .inferredFunction name => "inferred function `" ++ name ++ "`"
  | .inferredShader items functions =>
    "inferred types for " ++ toString items ++ " item(s), " ++ toString functions ++ " function(s)"
  | .differentiated function parameter before after =>
    "d" ++ function ++ "/d" ++ parameter ++ ": " ++ toString before ++ " nodes, " ++ toString after
      ++ " after simplification"
  | .skippedDerivative function parameter reason =>
    "skipping derivative of `" ++ function ++ "` with respect to `" ++ parameter ++ "`: " ++ reason
  | .differentiatedShader items skipped =>
    "differentiated module: " ++ toString items ++ " items, " ++ toString skipped ++ " skipped"
  | .preparedShader items diagnostics =>
    "prepared module: " ++ toString items ++ " items, " ++ toString diagnostics ++ " diagnostics"
  | .loweredFunction name => "lowered function `" ++ name ++ "`"
  | .loweredShader items => "lowered module: " ++ toString items ++ " items"
  | .emittedScript bytes => "js: emitted " ++ toString bytes ++ " bytes"

/-- The line of the log. -/
def text (event : Event) : String := event.level.text ++ " " ++ event.message

end Event

end ShaderAlgebra
