import ClenshawCode.Failure

/-!
# Arithmetic on values

Integers and truth values are added and subtracted exactly. As soon as a double takes part, the
other number is rounded to a double and the operation is that of doubles; a quotient is always one
of doubles. Texts and lists can be joined by an addition, and no other values can be combined.

## Main definitions

* `Value.Number.toDouble`: a number rounded to a double
* `Value.add`, `Value.sub`, `Value.mul`, `Value.div`: the four operations
-/

namespace ClenshawCode.Value

/-- A number rounded to a double; an integer has to be within their range. -/
def Number.toDouble : Number → Except Failure Float
  | .int n => match Binary64.ofInt? n with
    | some x => .ok x
    | none => .error .intTooLarge
  | .float x => .ok x

/-- Two numbers combined exactly if both are integers, and as doubles otherwise. -/
def Number.combine (exactly : Int → Int → Int) (rounded : Float → Float → Float) :
    Number → Number → Except Failure Value
  | .int a, .int b => .ok (.int (exactly a b))
  | a, b => do
    let x ← a.toDouble
    let y ← b.toDouble
    .ok (.float (rounded x y))

/-- The sum of two numbers, or two texts or lists joined. -/
def add (v w : Value) : Except Failure Value :=
  match v, w with
  | text s, text t => .ok (.text (s ++ t))
  | list xs, list ys => .ok (list (xs ++ ys))
  | text _, _ => .error (.concatenation v.kind w.kind)
  | list _, _ => .error (.concatenation v.kind w.kind)
  | _, _ =>
    match v.number?, w.number? with
    | some a, some b => a.combine (· + ·) (· + ·) b
    | _, _ => .error (.operands "+" v.kind w.kind)

/-- The difference of two numbers. -/
def sub (v w : Value) : Except Failure Value :=
  match v.number?, w.number? with
  | some a, some b => a.combine (· - ·) (· - ·) b
  | _, _ => .error (.operands "-" v.kind w.kind)

/-- Whether a value is a text or a list. -/
def isSequence : Value → Bool
  | text _ => true
  | list _ => true
  | _ => false

/-- The product of two numbers. -/
def mul (v w : Value) : Except Failure Value :=
  match v.number?, w.number? with
  | some a, some b => a.combine (· * ·) (· * ·) b
  | _, _ =>
    -- The message names the other operand, which is no count of repetitions.
    if v.isSequence then .error (.repetition w.kind)
    else if w.isSequence then .error (.repetition v.kind)
    else .error (.operands "*" v.kind w.kind)

/-- The quotient of two numbers, as doubles. -/
def div (v w : Value) : Except Failure Value :=
  match v.number?, w.number? with
  | some a, some b => do
    let x ← a.toDouble
    let y ← b.toDouble
    if y == 0 then .error .zeroDivision else .ok (.float (x / y))
  | _, _ => .error (.operands "/" v.kind w.kind)

end ClenshawCode.Value
