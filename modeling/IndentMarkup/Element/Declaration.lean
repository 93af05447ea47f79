import IndentMarkup.Element.Basic
import IndentMarkup.Element.Group
import IndentMarkup.Text.Name

/-! Declarations of elements: `%tag`, `#id` and `.class` names in this order,
at least one of them, then a group of attributes, then the body. -/
namespace IndentMarkup

/-- What follows a declaration on its line. A nested body is made by the lines
below it; a void element has none. -/
inductive Body
  | nested
  | void
  | echo (expression : Text)
  | text (content : Text)
  deriving DecidableEq, Repr

open Text

def Body.read? (s : Text) : Option Body :=
  if s.isEmpty then some nested
  else match trimStart s with
    | ['/'] => some void
    | '=' :: expression => (nonempty? (trim expression)).map echo
    | content => if startsBlank s then some (text content) else none

namespace Element

/-- The attributes in a group, which an empty group leaves out, and what comes
after it. A parenthesis that is never closed makes the whole declaration fail. -/
def readAttributes? (s : Text) : Option (Option Text × Text) :=
  if s.head? = some '(' then
    (splitGroup? s).map fun (inside, rest) => (nonempty? (trim inside), rest)
  else some (none, s)

def read? (s : Text) : Option (Element × Body) :=
  let (tag, afterTag) := optional '%' s
  let (id, afterId) := optional '#' afterTag
  let (classes, afterClasses) := chain '.' afterId
  if tag.isNone && id.isNone && classes.isEmpty then none
  else do
    let (attributes, rest) ← readAttributes? afterClasses
    let body ← Body.read? rest
    return (⟨tag.getD defaultTag, id, classes, attributes⟩, body)

end Element

end IndentMarkup
