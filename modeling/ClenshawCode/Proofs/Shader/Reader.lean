import ClenshawCode.Proofs.Shader.Token
import ClenshawCode.Proofs.Text.Lines
import Mathlib

/-!
# Reading shader code back

A reader takes one token at a time. At each depth of parentheses it keeps the left operand of a sum
and that of a product, so products bind closer than sums and both group to the left; a minus sign in
front of a number belongs to the number. What an expression is written as reads back as the
expression, provided that its shape is the one that its text suggests, and so do lines and bodies.

## Main definitions

* `Shader.Level`, `Shader.State`, `Shader.step`: the reader of expressions
* `Shader.Statement`: declarations and results
* `Shader.expression?`, `Shader.statement?`, `Shader.statements?`: what tokens and lines say
* `Shader.Expr.Readable`, `Shader.Line.Readable`: the expressions and lines that read back
-/

namespace ClenshawCode.Shader

/-- The character that an operation is written with. -/
def Op.char : Op → Char
  | .add => '+'
  | .sub => '-'
  | .mul => '*'
  | .div => '/'

/-- The operation that a character stands for. -/
def Op.ofChar? (c : Char) : Option Op := [.add, .sub, .mul, .div].find? fun op => op.char = c

/-- Whether an operation binds less than the others. -/
def Op.isSum : Op → Bool
  | .add => true
  | .sub => true
  | _ => false

/-- The left operands that wait for a right one at one depth of parentheses. -/
structure Level where
  sum : Option (Expr × Op) := none
  product : Option (Expr × Op) := none

/-- An operand together with the left one that waits for it. -/
def close : Option (Expr × Op) → Expr → Expr
  | none, e => e
  | some (left, op), e => .binary op left e

/-- The product that ends with an operand. -/
def Level.term (level : Level) (e : Expr) : Expr := close level.product e

/-- The sum that ends with an operand. -/
def Level.whole (level : Level) (e : Expr) : Expr := close level.sum (level.term e)

/-- What waits behind an operand and an operation. -/
def Level.push (level : Level) (e : Expr) (op : Op) : Level :=
  if op.isSum then { sum := some (level.whole e, op) }
  else { level with product := some (level.term e, op) }

/-- The state of the reader: whether an operand is expected, perhaps behind a minus sign, or has
just been read, with what waits at this depth and at those around it. -/
inductive State where
  | operand (negative : Bool) (level : Level) (outer : List Level)
  | operator (e : Expr) (level : Level) (outer : List Level)

/-- The number or name that a word is. Only a number may have a sign. -/
def atom? (negative : Bool) (w : String) : Option Expr :=
  if w.toList.head?.any Char.isDigit then some (.literal (if negative then "-" ++ w else w))
  else if negative then none
  else some (.name w)

/-- The state after a token. -/
def step : State → Token → Option State
  | .operand negative level outer, .word w =>
    (atom? negative w).map fun e => .operator e level outer
  | .operand false level outer, .sign '-' => some (.operand true level outer)
  | .operand false level outer, .sign '(' => some (.operand false {} (level :: outer))
  | .operator e level (above :: outer), .sign ')' =>
    some (.operator (.group (level.whole e)) above outer)
  | .operator e level outer, .sign c =>
    (Op.ofChar? c).map fun op => .operand false (level.push e op) outer
  | _, _ => none

/-- The expression that tokens say. -/
def expression? (ts : List Token) : Option Expr :=
  match ts.foldlM step (.operand false {} []) with
  | some (.operator e level []) => some (level.whole e)
  | _ => none

/-- A declaration of a name or the result. -/
inductive Statement where
  | declare (name : String) (value : Expr)
  | result (value : Expr)
deriving DecidableEq, Repr

/-- The statement that tokens say, without the semicolon at the end. -/
def statementBody? : List Token → Option Statement
  | .word "return" :: value => (expression? value).map .result
  | .word "const" :: .word "float" :: .word name :: .sign '=' :: value =>
    (expression? value).map (.declare name)
  | .word "float" :: .word name :: .sign '=' :: value => (expression? value).map (.declare name)
  | _ => none

/-- The statement that tokens say. -/
def statement? (ts : List Token) : Option Statement :=
  if ts.getLast? = some (.sign ';') then statementBody? ts.dropLast else none

/-- The statements that lines say: comments are dropped, and so are lines on which nothing else
stands. -/
def statements? (ls : List String) : Option (List Statement) :=
  ((ls.map fun l => tokens (uncomment l.toList)).filter (· ≠ [])).mapM statement?

section Readable

/-- A word that does not begin with a digit. -/
def isName (s : String) : Bool :=
  match s.toList with
  | c :: rest => (c.isAlpha || c = '_') && rest.all isWordChar
  | [] => false

/-- A word that begins with a digit. -/
def isUnsigned : List Char → Bool
  | c :: rest => c.isDigit && rest.all isWordChar
  | [] => false

/-- A word that begins with a digit, perhaps behind a minus sign. -/
def isLiteral (s : String) : Bool :=
  match s.toList with
  | '-' :: w => isUnsigned w
  | w => isUnsigned w

/-- Whether an expression is a sum or difference. -/
def Expr.isSum : Expr → Bool
  | .binary op _ _ => op.isSum
  | _ => false

/-- Whether an expression is an operation. -/
def Expr.isBinary : Expr → Bool
  | .binary .. => true
  | _ => false

/-- The expressions that read back: their operands are operations only where the text groups them
so. -/
def Expr.Readable : Expr → Prop
  | .name s => isName s = true
  | .literal s => isLiteral s = true
  | .group e => e.Readable
  | .binary op left right => left.Readable ∧ right.Readable ∧
    (if op.isSum then right.isSum = false else left.isSum = false ∧ right.isBinary = false)

/-- The tokens that an expression is written with. -/
def Expr.tokens : Expr → List Token
  | .name s => [.word s]
  | .literal s =>
    match s.toList with
    | '-' :: w => [.sign '-', .word (String.ofList w)]
    | w => [.word (String.ofList w)]
  | .group e => .sign '(' :: e.tokens ++ [.sign ')']
  | .binary op left right => left.tokens ++ .sign op.char :: right.tokens

/-- The statement of a line, if it has one. -/
def Line.statements : Line → List Statement
  | .blank => []
  | .comment _ => []
  | .declare _ name _ value _ => [.declare name value]
  | .result value => [.result value]

/-- The lines that read back. -/
def Line.Readable : Line → Prop
  | .blank => True
  | .comment s => Text.isOneLine s = true
  | .declare _ name _ value _ => isName name = true ∧ value.Readable
  | .result value => value.Readable

end Readable

section Expressions

/-- Behind an operand an operation waits for the next one. -/
theorem step_operator (e : Expr) (level : Level) (outer : List Level) (op : Op) :
    step (.operator e level outer) (.sign op.char) =
      some (.operand false (level.push e op) outer) := by
  cases outer <;> cases op <;> rfl

/-- No letter is a digit. -/
theorem isDigit_of_isAlpha {c : Char} (letter : (c.isAlpha || c = '_') = true) :
    c.isDigit = false := by
  rw [Bool.or_eq_true, decide_eq_true_eq] at letter
  rcases letter with letter | rfl
  · simp only [Char.isAlpha, Char.isUpper, Char.isLower, Char.isDigit, Bool.or_eq_true,
      Bool.and_eq_true, Bool.and_eq_false_iff, decide_eq_true_eq, decide_eq_false_iff_not,
      ge_iff_le, UInt32.le_iff_toNat_le] at letter ⊢
    have numbers : 'A'.val.toNat = 65 ∧ 'Z'.val.toNat = 90 ∧ 'a'.val.toNat = 97 ∧
        'z'.val.toNat = 122 ∧ '0'.val.toNat = 48 ∧ '9'.val.toNat = 57 := by decide
    omega
  · rfl

/-- A name is read as an operand. -/
theorem foldlM_name {s : String} (named : isName s = true) (level : Level) (outer : List Level) :
    (Expr.name s).tokens.foldlM step (.operand false level outer) =
      some (.operator (.name s) level outer) := by
  have atom : atom? false s = some (.name s) := by
    rw [isName] at named
    split at named
    · rename_i c rest form
      have letter := isDigit_of_isAlpha (Bool.and_eq_true_iff.mp named).1
      simp [atom?, form, letter]
    · cases named
  simp [Expr.tokens, step, atom]

/-- A number is read as an operand, its sign included. -/
theorem foldlM_literal {s : String} (number : isLiteral s = true) (level : Level)
    (outer : List Level) :
    (Expr.literal s).tokens.foldlM step (.operand false level outer) =
      some (.operator (.literal s) level outer) := by
  have atom (negative : Bool) {w : List Char} (unsigned : isUnsigned w = true) :
      atom? negative (String.ofList w) =
        some (.literal (if negative then "-" ++ String.ofList w else String.ofList w)) := by
    cases w with
    | nil => cases unsigned
    | cons c rest =>
      have digit : c.isDigit = true := (Bool.and_eq_true_iff.mp unsigned).1
      simp [atom?, digit]
  rw [isLiteral] at number
  rw [Expr.tokens]
  split at number
  · rename_i w form
    have same : "-" ++ String.ofList w = s := by
      apply String.toList_injective
      simp [form]
    simp [step, atom true number, same]
  · have same : String.ofList s.toList = s := String.ofList_toList
    have read := atom false number
    rw [same] at read
    simp [step, same, read]

/-- An expression that is one operand to the reader, whatever waits for it. -/
def Expr.ReadsAsOperand (e : Expr) : Prop :=
  ∀ level outer,
    e.tokens.foldlM step (.operand false level outer) = some (.operator e level outer)

/-- An expression that is a product to the reader, where no product waits for it: a sum may. -/
def Expr.ReadsAsTerm (e : Expr) : Prop :=
  ∀ level outer, level.product = none → ∃ last level',
    e.tokens.foldlM step (.operand false level outer) = some (.operator last level' outer) ∧
      level'.sum = level.sum ∧ level'.term last = e

/-- An expression that is a sum to the reader, where nothing waits for it. -/
def Expr.ReadsAsWhole (e : Expr) : Prop :=
  ∀ outer, ∃ last level',
    e.tokens.foldlM step (.operand false {} outer) = some (.operator last level' outer) ∧
      level'.whole last = e

theorem Expr.ReadsAsOperand.readsAsTerm {e : Expr} (operand : e.ReadsAsOperand) :
    e.ReadsAsTerm := by
  intro level outer free
  exact ⟨e, level, operand level outer, rfl, by rw [Level.term, free, close]⟩

theorem Expr.ReadsAsTerm.readsAsWhole {e : Expr} (term : e.ReadsAsTerm) : e.ReadsAsWhole := by
  intro outer
  obtain ⟨last, level', read, sum, same⟩ := term {} outer rfl
  exact ⟨last, level', read, by rw [Level.whole, sum, same, close]⟩

/-- What stands in parentheses is read with nothing waiting for it, and is one operand outside. -/
theorem readsAsOperand_group {e : Expr} (whole : e.ReadsAsWhole) :
    (Expr.group e).ReadsAsOperand := by
  intro level outer
  obtain ⟨last, level', read, same⟩ := whole (level :: outer)
  have opened : step (.operand false level outer) (.sign '(') =
      some (.operand false {} (level :: outer)) := rfl
  have closed : step (.operator last level' (level :: outer)) (.sign ')') =
      some (.operator (.group (level'.whole last)) level outer) := rfl
  simp [Expr.tokens, opened, read, closed, same]

/-- A product or quotient groups to the left: its right side is one operand. -/
theorem readsAsTerm_binary {op : Op} {left right : Expr} (product : op.isSum = false)
    (ofLeft : left.ReadsAsTerm) (ofRight : right.ReadsAsOperand) :
    (Expr.binary op left right).ReadsAsTerm := by
  intro level outer free
  obtain ⟨last, level', read, sum, same⟩ := ofLeft level outer free
  have next := step_operator last level' outer op
  have read' := ofRight (level'.push last op) outer
  refine ⟨right, level'.push last op, ?_, ?_, ?_⟩
  · simp [Expr.tokens, read, next, read']
  · rw [Level.push, product]
    exact sum
  · rw [Level.push, product, if_neg Bool.false_ne_true, Level.term, same, close]

/-- A sum or difference groups to the left too: its right side is a product. -/
theorem readsAsWhole_binary {op : Op} {left right : Expr} (sum : op.isSum = true)
    (ofLeft : left.ReadsAsWhole) (ofRight : right.ReadsAsTerm) :
    (Expr.binary op left right).ReadsAsWhole := by
  intro outer
  obtain ⟨last, level, read, same⟩ := ofLeft outer
  have next := step_operator last level outer op
  -- The sign has closed the product on its left, so none waits for the right side.
  have free : (level.push last op).product = none := by
    rw [Level.push, sum]
    rfl
  obtain ⟨last', level', read', waits, same'⟩ := ofRight (level.push last op) outer free
  refine ⟨last', level', ?_, ?_⟩
  · simp [Expr.tokens, read, next, read']
  · rw [Level.whole, waits, same', Level.push, sum, if_pos rfl, same, close]

/-- What an expression is read as depends on what waits for it. A name, number or group is an
operand by itself; a product may complete a sum that waits, but no product; a sum completes
nothing. -/
theorem reads_of_readable (e : Expr) (readable : e.Readable) :
    (e.isBinary = false → e.ReadsAsOperand) ∧ (e.isSum = false → e.ReadsAsTerm) ∧
      e.ReadsAsWhole := by
  induction e with
  | name s =>
    have operand : (Expr.name s).ReadsAsOperand := foldlM_name readable
    exact ⟨fun _ => operand, fun _ => operand.readsAsTerm, operand.readsAsTerm.readsAsWhole⟩
  | literal s =>
    have operand : (Expr.literal s).ReadsAsOperand := foldlM_literal readable
    exact ⟨fun _ => operand, fun _ => operand.readsAsTerm, operand.readsAsTerm.readsAsWhole⟩
  | group e ih =>
    have operand : (Expr.group e).ReadsAsOperand := readsAsOperand_group (ih readable).2.2
    exact ⟨fun _ => operand, fun _ => operand.readsAsTerm, operand.readsAsTerm.readsAsWhole⟩
  | binary op left right ihLeft ihRight =>
    obtain ⟨readLeft, readRight, shape⟩ := readable
    have notOperand : (Expr.binary op left right).isBinary ≠ false := Bool.true_eq_false.mp
    by_cases sum : op.isSum = true
    · rw [if_pos sum] at shape
      have notTerm : (Expr.binary op left right).isSum ≠ false := by
        rw [Expr.isSum, sum]
        exact Bool.true_eq_false.mp
      have whole := readsAsWhole_binary sum (ihLeft readLeft).2.2 ((ihRight readRight).2.1 shape)
      exact ⟨fun single => absurd single notOperand, fun product => absurd product notTerm, whole⟩
    · rw [if_neg sum] at shape
      have term := readsAsTerm_binary (Bool.not_eq_true _ ▸ sum) ((ihLeft readLeft).2.1 shape.1)
        ((ihRight readRight).1 shape.2)
      exact ⟨fun single => absurd single notOperand, fun _ => term, term.readsAsWhole⟩

/-- The tokens of an expression say the expression. -/
theorem expression?_tokens (e : Expr) (readable : e.Readable) :
    expression? e.tokens = some e := by
  obtain ⟨last, level, read, same⟩ := (reads_of_readable e readable).2.2 []
  rw [expression?, read]
  simp [same]

theorem isWordChar_of_isDigit {c : Char} (digit : c.isDigit = true) : isWordChar c = true := by
  simp [isWordChar, Char.isAlphanum, digit]

theorem isWordChar_of_isName {s : String} (named : isName s = true) :
    s.toList ≠ [] ∧ ∀ c ∈ s.toList, isWordChar c = true := by
  rw [isName] at named
  split at named
  · rename_i c rest form
    obtain ⟨first, others⟩ := Bool.and_eq_true_iff.mp named
    rw [form]
    refine ⟨List.cons_ne_nil _ _, ?_⟩
    intro a member
    rcases List.mem_cons.mp member with rfl | later
    · rw [Bool.or_eq_true, decide_eq_true_eq] at first
      simp only [isWordChar, Char.isAlphanum, Bool.or_eq_true, decide_eq_true_eq]
      tauto
    · exact List.all_eq_true.mp others a later
  · cases named

theorem isWordChar_of_isUnsigned {w : List Char} (unsigned : isUnsigned w = true) :
    w ≠ [] ∧ ∀ c ∈ w, isWordChar c = true := by
  cases w with
  | nil => cases unsigned
  | cons c rest =>
    obtain ⟨first, others⟩ := Bool.and_eq_true_iff.mp unsigned
    refine ⟨List.cons_ne_nil _ _, ?_⟩
    intro a member
    rcases List.mem_cons.mp member with rfl | later
    · exact isWordChar_of_isDigit first
    · exact List.all_eq_true.mp others a later

/-- A number is a word, perhaps behind a minus sign. -/
theorem literal_cases {s : String} (number : isLiteral s = true) :
    (∃ w, s.toList = '-' :: w ∧ isUnsigned w = true ∧
      (Expr.literal s).tokens = [.sign '-', .word (String.ofList w)]) ∨
    (isUnsigned s.toList = true ∧ (Expr.literal s).tokens = [.word s]) := by
  rw [isLiteral] at number
  rw [Expr.tokens]
  split at number
  · rename_i w form
    exact .inl ⟨w, form, number, rfl⟩
  · exact .inr ⟨number, by rw [String.ofList_toList]⟩

theorem toList_binary (op : Op) (left right : Expr) :
    (Expr.binary op left right).text.toList =
      left.text.toList ++ ' ' :: op.char :: ' ' :: right.text.toList := by
  cases op <;> simp [Expr.text, Op.sign, Op.char]

theorem toList_group (e : Expr) : (Expr.group e).text.toList = '(' :: (e.text.toList ++ [')']) := by
  simp [Expr.text]

/-- An expression is written with its tokens. -/
theorem tokens_text (e : Expr) (readable : e.Readable) :
    Shader.tokens e.text.toList = e.tokens := by
  induction e with
  | name s =>
    obtain ⟨nonempty, allWord⟩ := isWordChar_of_isName readable
    rw [Expr.text, tokens_word nonempty allWord, Expr.tokens, String.ofList_toList]
  | literal s =>
    rcases literal_cases readable with ⟨w, form, unsigned, same⟩ | ⟨unsigned, same⟩
    · obtain ⟨nonempty, allWord⟩ := isWordChar_of_isUnsigned unsigned
      rw [Expr.text, form, same, tokens_sign (by decide) (by decide), tokens_word nonempty allWord]
    · obtain ⟨nonempty, allWord⟩ := isWordChar_of_isUnsigned unsigned
      rw [Expr.text, same, tokens_word nonempty allWord, String.ofList_toList]
  | group e ih =>
    have close : Shader.tokens [')'] = [.sign ')'] := by decide
    rw [toList_group, tokens_sign (by decide) (by decide),
      tokens_append (endsWord_cons (by decide)), ih readable, close, Expr.tokens]
    rfl
  | binary op left right ihLeft ihRight =>
    have sign : isWordChar op.char = false ∧ Text.isBlank op.char = false := by
      cases op <;> decide
    rw [toList_binary, tokens_append (endsWord_cons (by decide)), tokens_space,
      tokens_sign sign.1 sign.2, tokens_space, ihLeft readable.1, ihRight readable.2.1, Expr.tokens]

/-- No comment begins within an expression. -/
theorem uncomment_text (e : Expr) (readable : e.Readable) (rest : List Char) :
    uncomment (e.text.toList ++ rest) = e.text.toList ++ uncomment rest := by
  have slash : isWordChar '/' = false := by decide
  have plain {cs : List Char} (allWord : ∀ c ∈ cs, isWordChar c = true) : '/' ∉ cs := by
    intro member
    rw [allWord '/' member] at slash
    cases slash
  induction e generalizing rest with
  | name s => exact uncomment_append (plain (isWordChar_of_isName readable).2)
  | literal s =>
    rcases literal_cases readable with ⟨w, form, unsigned, -⟩ | ⟨unsigned, -⟩
    · refine uncomment_append ?_
      rw [Expr.text, form, List.mem_cons, not_or]
      exact ⟨by decide, plain (isWordChar_of_isUnsigned unsigned).2⟩
    · exact uncomment_append (plain (isWordChar_of_isUnsigned unsigned).2)
  | group e ih =>
    rw [toList_group, List.cons_append, List.append_assoc, uncomment, ih readable]
    · simp [uncomment]
    · simp
  | binary op left right ihLeft ihRight =>
    have spaced (cs : List Char) :
        uncomment (' ' :: op.char :: ' ' :: cs) = ' ' :: op.char :: ' ' :: uncomment cs := by
      cases op <;> simp [uncomment, Op.char]
    rw [toList_binary, List.append_assoc, ihLeft readable.1, List.cons_append, List.cons_append,
      List.cons_append, spaced, ihRight readable.2.1, List.append_assoc]
    rfl

end Expressions

section Lines

/-- The note behind a declaration. -/
def noteText : Option ℕ → String
  | none => ""
  | some i => "  // i = " ++ Text.natText i

theorem toList_declare (constant : Bool) (name : String) (padding : ℕ) (value : Expr)
    (note : Option ℕ) :
    (Line.declare constant name padding value note).text.toList =
      (if constant then "    const float" else "    float").toList ++ ' ' :: (name.toList ++
        (List.replicate (padding + 1) ' ' ++ '=' :: ' ' ::
          (value.text.toList ++ ';' :: (noteText note).toList))) := by
  cases constant <;> cases note <;> simp [Line.text, noteText, List.replicate_succ']

theorem toList_result (value : Expr) :
    (Line.result value).text.toList =
      "    return".toList ++ ' ' :: (value.text.toList ++ [';']) := by
  simp [Line.text]

/-- A note is a comment. -/
theorem tokens_uncomment_note (note : Option ℕ) :
    Shader.tokens (uncomment (';' :: (noteText note).toList)) = [.sign ';'] := by
  cases note with
  | none => decide
  | some i => simp [noteText, uncomment, tokens, tokensFrom, wordTokens, isWordChar, Text.isBlank]

/-- The tokens of a declaration. -/
theorem tokens_declare {constant : Bool} {name : String} {padding : ℕ} {value : Expr}
    {note : Option ℕ} (named : isName name = true) (readable : value.Readable) :
    Shader.tokens (uncomment (Line.declare constant name padding value note).text.toList) =
      (if constant then [Token.word "const"] else []) ++ Token.word "float" :: .word name ::
        .sign '=' :: (value.tokens ++ [Token.sign ';']) := by
  obtain ⟨nonempty, allWord⟩ := isWordChar_of_isName named
  let start := (if constant then "    const float" else "    float").toList
  have plain : '/' ∉ start ++ ' ' :: (name.toList ++ (List.replicate (padding + 1) ' ' ++
      ['=', ' '])) := by
    have slash : isWordChar '/' = false := by decide
    have fromStart : '/' ∉ start := by cases constant <;> simp [start]
    have fromName : '/' ∉ name.toList := fun member => by simp [allWord '/' member] at slash
    simp [fromStart, fromName]
  have cut : uncomment (Line.declare constant name padding value note).text.toList =
      start ++ ' ' :: (name.toList ++ (List.replicate (padding + 1) ' ' ++ '=' :: ' ' ::
        (value.text.toList ++ uncomment (';' :: (noteText note).toList)))) := by
    have regroup (cs : List Char) :
        start ++ ' ' :: (name.toList ++ (List.replicate (padding + 1) ' ' ++ '=' :: ' ' :: cs)) =
          (start ++ ' ' :: (name.toList ++ (List.replicate (padding + 1) ' ' ++ ['=', ' ']))) ++
            cs := by
      simp
    rw [toList_declare, regroup, uncomment_append plain, uncomment_text value readable, ← regroup]
  have tail : EndsWord (uncomment (';' :: (noteText note).toList)) := by
    rw [uncomment]
    · exact endsWord_cons (by decide)
    · simp
  have spaced : EndsWord (List.replicate (padding + 1) ' ' ++ '=' :: ' ' ::
      (value.text.toList ++ uncomment (';' :: (noteText note).toList))) := by
    rw [List.replicate_succ]
    exact endsWord_cons (by decide)
  have opening : Shader.tokens start =
      (if constant then [Token.word "const"] else []) ++ [Token.word "float"] := by
    cases constant <;> decide
  rw [cut, tokens_append (endsWord_cons (by decide)), opening, tokens_space,
    tokens_append spaced, tokens_word nonempty allWord, tokens_spaces,
    tokens_sign (by decide) (by decide), tokens_space, tokens_append tail,
    tokens_text value readable, tokens_uncomment_note, String.ofList_toList]
  simp

theorem tokens_result {value : Expr} (readable : value.Readable) :
    Shader.tokens (uncomment (Line.result value).text.toList) =
      .word "return" :: (value.tokens ++ [Token.sign ';']) := by
  have plain : '/' ∉ "    return".toList ++ [' '] := by decide
  have regroup (cs : List Char) :
      "    return".toList ++ ' ' :: cs = ("    return".toList ++ [' ']) ++ cs := by simp
  have opening : Shader.tokens "    return".toList = [.word "return"] := by decide
  have ending : uncomment [';'] = [';'] := by decide
  have closing : Shader.tokens [';'] = [.sign ';'] := by decide
  rw [toList_result, regroup, uncomment_append plain, uncomment_text value readable, ending,
    ← regroup, tokens_append (endsWord_cons (by decide)), opening, tokens_space,
    tokens_append (endsWord_cons (by decide)), tokens_text value readable, closing]
  rfl

/-- A line of a statement and a semicolon. -/
theorem statements?_of_tokens {l : String} {ts : List Token} {statement : Statement}
    (said : Shader.tokens (uncomment l.toList) = ts ++ [Token.sign ';'])
    (body : statementBody? ts = some statement) : statements? [l] = some [statement] := by
  simp [statements?, said, statement?, body]

/-- A line that reads back says its statement, or nothing. -/
theorem statements?_line (line : Line) (readable : line.Readable) :
    statements? [line.text] = some line.statements := by
  cases line with
  | blank => decide
  | comment s =>
    have none : Shader.tokens (uncomment (Line.comment s).text.toList) = [] := by
      simp [Line.text, uncomment, tokens, tokensFrom, wordTokens, isWordChar, Text.isBlank]
    simp [statements?, none, Line.statements]
  | declare constant name padding value note =>
    have body : statementBody? ((if constant then [Token.word "const"] else []) ++ .word "float" ::
        .word name :: .sign '=' :: value.tokens) = some (.declare name value) := by
      cases constant <;> simp [statementBody?, expression?_tokens value readable.2]
    refine statements?_of_tokens ?_ body
    rw [tokens_declare readable.1 readable.2]
    simp
  | result value =>
    have body : statementBody? (.word "return" :: value.tokens) = some (.result value) := by
      simp [statementBody?, expression?_tokens value readable]
    exact statements?_of_tokens (tokens_result readable) body

theorem statements?_append (ls ls' : List String) :
    statements? (ls ++ ls') = (do
      let first ← statements? ls
      let second ← statements? ls'
      return first ++ second) := by
  rw [statements?, statements?, statements?, List.map_append, List.filter_append,
    List.mapM_append]

/-- Lines that read back say their statements, one after another. -/
theorem statements?_lines (ls : List Line) (readable : ∀ line ∈ ls, line.Readable) :
    statements? (ls.map Line.text) = some (ls.flatMap Line.statements) := by
  induction ls with
  | nil => rfl
  | cons line rest ih =>
    have first := statements?_line line (readable line List.mem_cons_self)
    have others := ih fun l member => readable l (List.mem_cons_of_mem line member)
    rw [List.map_cons, ← List.singleton_append, statements?_append, first, others]
    rfl

end Lines

end ClenshawCode.Shader
