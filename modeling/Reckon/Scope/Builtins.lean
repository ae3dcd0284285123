import Reckon.Number.Arith
import Reckon.Scope

/-!
# Reckon — builtins

The constants and the functions that every formula can be given: trigonometry,
logarithms and powers, rounding, and interpolation. Declaring them in a scope
goes through the two tables in order and stops at the first name that is taken.
-/

namespace Reckon

/-- The ratio of a circle's circumference to its diameter. -/
def pi : Float := 3.141592653589793

/-- The builtin constants. -/
def builtinVariables : List (String × Float) :=
  [("pi", pi),
   ("e", 2.718281828459045),
   ("tau", 6.283185307179586),
   ("phi", 1.618033988749895),
   ("inf", 1 / 0),
   ("nan", 0 / 0),
   ("degToRad", pi / 180),
   ("radToDeg", 180 / pi)]

/-- The builtin functions: name, body, and the number of parameters that are
asked for. -/
def builtinFunctions : List (String × Body × Nat) :=
  [("sin", .one Float.sin, 1),
   ("cos", .one Float.cos, 1),
   ("tan", .one Float.tan, 1),
   ("asin", .one Float.asin, 1),
   ("acos", .one Float.acos, 1),
   ("atan", .one Float.atan, 1),
   ("atan2", .two Float.atan2, 2),
   ("sinh", .one Float.sinh, 1),
   ("cosh", .one Float.cosh, 1),
   ("tanh", .one Float.tanh, 1),
   ("sqrt", .one Float.sqrt, 1),
   ("cbrt", .one Float.cbrt, 1),
   ("root", .two fun x n => Float.pow x (1 / n), 2),
   ("exp", .one Float.exp, 1),
   ("abs", .one Float.abs, 1),
   ("log", .one Float.log, 1),
   ("log10", .one Float.log10, 1),
   ("log2", .one Float.log2, 1),
   ("logn", .two fun x base => Float.log x / Float.log base, 2),
   ("pow", .two Float.pow, 2),
   ("mod", .two Number.remainder, 2),
   ("min", .two Number.least, 2),
   ("max", .two Number.greatest, 2),
   ("floor", .one Float.floor, 1),
   ("ceil", .one Float.ceil, 1),
   ("round", .one Number.roundHalfEven, 1),
   ("sign", .one Number.signOf, 1),
   ("clamp", .three Number.clamp, 3),
   ("lerp", .three fun t a b => (b - a) * t + a, 3),
   ("inverseLerp", .three fun x a b => (x - a) / (b - a), 3)]

namespace Scope

/-- Declares the builtins: the constants, then the functions. -/
def declareBuiltins (s : Scope) : Scope × Option RegistrationError :=
  match s.declareVariables builtinVariables with
  | (s, some e) => (s, some e)
  | (s, none) =>
    s.declareFunctions (builtinFunctions.map fun (name, body, arity) => (name, .builtin body arity))

/-- The scope of the builtins alone. -/
def builtins : Scope :=
  empty.declareBuiltins.1

end Scope

end Reckon
