import ClenshawCode.Value.Show

/-!
# What can go wrong

Every way in which an operation of this library can fail, by cause, with the message that tells a
user about it. Messages name the kinds of the values involved and quote texts.

## Main definitions

* `Defect`: why an expansion cannot be rendered
* `DocumentStage`: the step of reading a document that rejected it
* `Nesting`: what was nested too deeply
* `Failure`: why an operation failed
* `Failure.message`: the message of a failure
-/

namespace ClenshawCode

/-- Why an expansion cannot be rendered as a program. -/
inductive Defect where
  | noCoefficients
  | coefficients (indices : List Nat)
  | bound (name : String) (value : Value)
  | domain (low high : Value)

/-- The step of reading a document that rejected it. -/
inductive DocumentStage where
  | characters
  | tokens
  | grammar
  | references
  | values
deriving DecidableEq, Repr

/-- What is nested too deeply to be followed. -/
inductive Nesting where
  | nodes
  | comparison
  | shown
  | called
  | jsonList
  | jsonTable
  | jsonWriting
  | result
deriving DecidableEq, Repr

/-- A place in a text: line and column from one, and the number of characters before it. -/
structure Place where
  line : Nat
  column : Nat
  index : Nat
deriving DecidableEq, Repr

/-- Why an operation failed. -/
inductive Failure where
  /-- A double divided by zero. -/
  | zeroDivision
  /-- An integer that rounds beyond the finite doubles. -/
  | intTooLarge
  /-- Two values that an operation does not combine. -/
  | operands (operation : String) (left right : Value.Kind)
  /-- A text or list multiplied by something other than an integer. -/
  | repetition (factor : Value.Kind)
  /-- A text or list joined with a value of another kind. -/
  | concatenation (left right : Value.Kind)
  /-- Two values that have no order. -/
  | order (left right : Value.Kind)
  /-- A date compared with a time, or times of which only one names its distance from universal
  time. -/
  | momentOrder (left right : Value.Kind)
  | notIterable (kind : Value.Kind)
  | noLength (kind : Value.Kind)
  | notIndexable (kind : Value.Kind)
  | notInteger (kind : Value.Kind)
  | notReal (kind : Value.Kind)
  | notNumber (kind : Value.Kind)
  /-- A text that is no numeral. -/
  | notNumeral (s : String)
  /-- A text that is no integer in a base; the message shows the beginning of a long one. -/
  | notIntegerText (base : Nat) (s : String)
  /-- A sequence of bytes that is no numeral. -/
  | notNumeralBytes (content : List UInt8)
  /-- An integer numeral with more digits than are read. -/
  | tooManyDigits (count : Nat)
  /-- An integer with more digits than are written. -/
  | tooManyWritten
  /-- A place beyond the end of a tuple, list or text. -/
  | outOfRange (container : String)
  | missingKey (key : Value)
  | missingArguments (operation : String) (names : List String)
  | unexpectedArgument (operation name : String)
  | notText (kind : Value.Kind)
  /-- A sequence of bytes where a text was asked for. -/
  | bytesForText
  | precisionMissing
  | precisionTooBig
  | precisionDigits
  | precisionJunk (specifier : String)
  | notMapping (kind : Value.Kind)
  | notLanguageValue (value : Value)
  | notLanguage (value : Value)
  | invalid (defect : Defect)
  /-- A reference function that failed with a message of its own. -/
  | reference (message : String)
  | frozenSet (field : String)
  | frozenDelete (field : String)
  | jsonSyntax (problem : String) (place : Place)
  | jsonKey (kind : Value.Kind)
  | jsonValue (kind : Value.Kind)
  | jsonCycle
  | document (stage : DocumentStage) (problem : String)
  /-- A calendar date or time of day with a part out of range. -/
  | moment (fault : Moment.Fault)
  /-- A text declared to be a date or time that does not look like one. -/
  | notMoment
  /-- A code point beyond the last one, `tooWide` if it does not even fit a machine integer. -/
  | codePoint (tooWide : Bool)
  | missingFile (path : String)
  | tooDeep (nesting : Nesting)

namespace Failure

/-- A list of quoted names in prose. -/
def namesInProse : List String → String
  | [] => ""
  | [a] => Text.quoted a
  | [a, b] => Text.quoted a ++ " and " ++ Text.quoted b
  | names => Text.join ", " (names.dropLast.map Text.quoted) ++ ", and " ++
      Text.quoted (names.getLastD "")

/-- The message of a moment that is out of range. -/
def momentMessage : Moment.Fault → String
  | .year n => "year " ++ Text.natText n ++ " is out of range"
  | .month => "month must be in 1..12"
  | .day => "day is out of range for month"
  | .hour => "hour must be in 0..23"
  | .minute => "minute must be in 0..59"
  | .second => "second must be in 0..59"
  | .offset seconds => "offset must be a timedelta strictly between -timedelta(hours=24) and " ++
      "timedelta(hours=24), not " ++ Moment.spanShown seconds

/-- What the message of a nesting that is too deep ends with. -/
def nestingMessage : Nesting → String
  | .nodes => ""
  | .comparison => " in comparison"
  | .shown => " while getting the repr of an object"
  | .called => " while calling a Python object"
  | .jsonList => " while decoding a JSON array from a unicode string"
  | .jsonTable => " while decoding a JSON object from a unicode string"
  | .jsonWriting => " while encoding a JSON object"
  | .result => " in __instancecheck__"

/-- The message of a defect. -/
def defectMessage : Defect → String
  | .noCoefficients => "Expansion has no coefficients"
  | .coefficients indices => "Coefficients not representable as finite float32 at indices: [" ++
      Text.join ", " (indices.map Text.natText) ++ "]"
  | .bound name value => name ++ " must be a finite float32 number, got " ++ value.shown
  | .domain low high => "Empty or reversed domain: x_min=" ++ low.plainText ++ ", x_max=" ++
      high.plainText

/-- The message of a failure. -/
def message : Failure → String
  | zeroDivision => "float division by zero"
  | intTooLarge => "int too large to convert to float"
  | operands operation left right => "unsupported operand type(s) for " ++ operation ++ ": '" ++
      left.fullName ++ "' and '" ++ right.fullName ++ "'"
  | repetition factor => "can't multiply sequence by non-int of type '" ++ factor.fullName ++ "'"
  | concatenation left right => "can only concatenate " ++ left.fullName ++ " (not \"" ++
      right.fullName ++ "\") to " ++ left.fullName
  | order left right => "'<' not supported between instances of '" ++ left.fullName ++ "' and '" ++
      right.fullName ++ "'"
  | momentOrder left right =>
    if left = right then "can't compare offset-naive and offset-aware datetimes"
    else "can't compare " ++ left.fullName ++ " to " ++ right.fullName
  | notIterable kind => "'" ++ kind.fullName ++ "' object is not iterable"
  | noLength kind => "object of type '" ++ kind.fullName ++ "' has no len()"
  | notIndexable kind => "'" ++ kind.fullName ++ "' object is not subscriptable"
  | notInteger kind => "'" ++ kind.fullName ++ "' object cannot be interpreted as an integer"
  | notReal kind => "must be real number, not " ++ kind.fullName
  | notNumber kind => "float() argument must be a string or a real number, not '" ++
      kind.fullName ++ "'"
  | notNumeral s => "could not convert string to float: " ++ Text.quoted s
  | notNumeralBytes content => "could not convert string to float: " ++ Text.quotedBytes content
  | notIntegerText base s => "invalid literal for int() with base " ++ Text.natText base ++ ": " ++
      String.ofList ((Text.quoted s).toList.take 200)
  | tooManyDigits count => "Exceeds the limit (4300 digits) for integer string conversion: " ++
      "value has " ++ Text.natText count ++
      " digits; use sys.set_int_max_str_digits() to increase the limit"
  | tooManyWritten => "Exceeds the limit (4300 digits) for integer string conversion; " ++
      "use sys.set_int_max_str_digits() to increase the limit"
  | outOfRange container => container ++ " index out of range"
  | missingKey key => key.shown
  | missingArguments operation names => operation ++ "() missing " ++
      Text.natText names.length ++ " required positional argument" ++
      (if names.length = 1 then "" else "s") ++ ": " ++ namesInProse names
  | unexpectedArgument operation name => operation ++
      "() got an unexpected keyword argument " ++ Text.quoted name
  | notText kind => "expected string or bytes-like object, got '" ++ kind.fullName ++ "'"
  | bytesForText => "cannot use a string pattern on a bytes-like object"
  | precisionMissing => "Format specifier missing precision"
  | precisionTooBig => "precision too big"
  | precisionDigits => "Too many decimal digits in format string"
  | precisionJunk specifier => "Invalid format specifier '" ++ specifier ++
      "' for object of type 'float'"
  | notMapping kind => "Expected a mapping for an expansion, got " ++ kind.name
  | notLanguageValue value => value.shown ++ " is not a valid TargetLanguage"
  | notLanguage value => "Unsupported target language: " ++ value.shown
  | invalid defect => defectMessage defect
  | reference text => text
  | frozenSet field => "cannot assign to field " ++ Text.quoted field
  | frozenDelete field => "cannot delete field " ++ Text.quoted field
  | jsonSyntax problem place => problem ++ ": line " ++ Text.natText place.line ++ " column " ++
      Text.natText place.column ++ " (char " ++ Text.natText place.index ++ ")"
  | jsonKey kind => "keys must be str, int, float, bool or None, not " ++ kind.fullName
  | jsonValue kind => "Object of type " ++ kind.name ++ " is not JSON serializable"
  | jsonCycle => "Circular reference detected"
  | document _ problem => problem
  | moment fault => momentMessage fault
  | notMoment => "'NoneType' object has no attribute 'groupdict'"
  | codePoint tooWide =>
    if tooWide then "Python int too large to convert to C int"
    else "chr() arg not in range(0x110000)"
  | missingFile path => "[Errno 2] No such file or directory: " ++ Text.quoted path
  | tooDeep nesting => "maximum recursion depth exceeded" ++ nestingMessage nesting

end Failure

end ClenshawCode
