import ClenshawCode.Failure
import ClenshawCode.Yaml.Char

/-!
# Folded lines

A scalar may go on over several lines. The blanks around a line end do not count, one line end alone
becomes a space, and of several the first is dropped. The two Unicode separators are content and are
always kept.

## Main definitions

* `Yaml.foldBreaks`: line ends as content
* `Yaml.scanFault`: a fault in the words of a document
-/

namespace ClenshawCode.Yaml

/-- A fault in the words of a document. -/
def scanFault {α : Type} (problem : String) : Except Failure α :=
  .error (.document .tokens problem)

/-- Line ends as content: the first one, and those of the blank lines that follow it. -/
def foldBreaks (first : Char) (others : List Char) : List Char :=
  if first ≠ '\n' then first :: others
  else if others.isEmpty then [' ']
  else others

end ClenshawCode.Yaml
