import ClenshawCode.Text.Blank
import ClenshawCode.Text.Numeral

/-!
# Straight-line shader code

The body of a shader function as data: declarations that name the value of an expression, and one
return. An expression is built from names, literals, the four operations and parentheses; it is
written from left to right without parentheses of its own, so an expression that needs them carries
them as a group.

## Main definitions

* `Shader.Expr`: expressions
* `Shader.Line`: lines of a body
* `Shader.Expr.text`, `Shader.Line.text`: their written forms
-/

namespace ClenshawCode.Shader

/-- The four operations. -/
inductive Op where
  | add
  | sub
  | mul
  | div
deriving DecidableEq, Repr

/-- The sign of an operation. -/
def Op.sign : Op → String
  | .add => "+"
  | .sub => "-"
  | .mul => "*"
  | .div => "/"

/-- Expressions over single-precision numbers. -/
inductive Expr where
  | name (s : String)
  | literal (s : String)
  | binary (op : Op) (left right : Expr)
  | group (e : Expr)
deriving DecidableEq, Repr

/-- An expression as it is written. -/
def Expr.text : Expr → String
  | name s => s
  | literal s => s
  | binary op left right => left.text ++ " " ++ op.sign ++ " " ++ right.text
  | group e => "(" ++ e.text ++ ")"

/-- The lines of a function body. -/
inductive Line where
  | blank
  | comment (s : String)
  /-- A name for the value of an expression. The name may be followed by spaces that align it with
  its neighbours, and the line by a note on the step it stands for. -/
  | declare (constant : Bool) (name : String) (padding : Nat) (value : Expr) (note : Option Nat)
  | result (value : Expr)
deriving DecidableEq, Repr

/-- A line as it is written. -/
def Line.text : Line → String
  | blank => ""
  | comment s => "    // " ++ s
  | declare constant name padding value note =>
    "    " ++ (if constant then "const " else "") ++ "float " ++ name ++
      String.ofList (List.replicate padding ' ') ++ " = " ++ value.text ++ ";" ++
      (match note with
       | none => ""
       | some i => "  // i = " ++ Text.natText i)
  | result value => "    return " ++ value.text ++ ";"

/-- A sum. -/
def plus (a b : Expr) : Expr := .binary .add a b

/-- A difference. -/
def minus (a b : Expr) : Expr := .binary .sub a b

/-- A product. -/
def times (a b : Expr) : Expr := .binary .mul a b

/-- A quotient. -/
def dividedBy (a b : Expr) : Expr := .binary .div a b

end ClenshawCode.Shader
