import AssemblyGraph.Method

/-!
Shapes of constructors.

A shape says what parameters a constructor of instances must declare. The two
shapes with a parameter of a known kind exclude each other, and together they
make up the shape with one parameter of any kind.
-/

namespace AssemblyGraph

/-- The parameters that a constructor has to declare. -/
inductive ConstructorShape where
  | noArgs
  | oneArg
  | oneScalarArg
  | oneArrayArg
  deriving DecidableEq

namespace ConstructorShape

def all : List ConstructorShape :=
  [noArgs, oneArg, oneScalarArg, oneArrayArg]

def text : ConstructorShape → String
  | noArgs => "parameterless"
  | oneArg => "single-parameter"
  | oneScalarArg => "single non-array parameter"
  | oneArrayArg => "single array parameter"

def fits : ConstructorShape → List Parameter → Bool
  | noArgs, params => params.isEmpty
  | oneArg, [_] => true
  | oneScalarArg, [param] => !param.base.isArray
  | oneArrayArg, [param] => param.base.isArray
  | _, _ => false

/-- Whether a method is a constructor of instances that has the shape. -/
def admits (shape : ConstructorShape) (m : Method) : Bool :=
  m.isConstructor && !m.isStatic && shape.fits m.signature.params

end ConstructorShape

end AssemblyGraph
