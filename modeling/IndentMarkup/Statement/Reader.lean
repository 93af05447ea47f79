import IndentMarkup.Statement.Basic

/-! Reading of statements. Rules are tried in a fixed order and the first that
accepts the content of a line decides; content that none accepts is literal. -/
namespace IndentMarkup.Statement
open Text

def argument? (marker s : Text) : Option (Option Text) :=
  if marker.isPrefixOf s then
    let rest := s.drop marker.length
    if rest.isEmpty then some none
    else if startsBlank rest then some (nonempty? (trim rest))
    else none
  else none

def readIgnored? (s : Text) : Option Statement :=
  if s.isEmpty || "-#".toList.isPrefixOf s then some ignored else none

def readDoctype? (s : Text) : Option Statement :=
  (argument? "!!!".toList s).map fun variant => doctype (.ofVariant variant)

def readComment? (s : Text) : Option Statement :=
  (argument? "/".toList s).map comment

def readElement? (s : Text) : Option Statement :=
  (Element.read? s).map fun (e, body) => element e body

def enclosed? : Text → Option Text
  | '(' :: rest => if rest.getLast? = some ')' then some rest.dropLast else none
  | _ => none

/-- A condition reaches from the first parenthesis behind the keyword to the
last character of the line; parentheses inside it are not matched up. -/
def readBlock? : Text → Option Statement
  | '-' :: rest => do
    let code := trimStart rest
    let keyword ← Keyword.ofWord? (word code)
    let condition ← enclosed? (trimStart (afterWord code))
    return block keyword (← nonempty? (trim condition))
  | _ => none

def readCode? : Text → Option Statement
  | '-' :: rest => (nonempty? (trim rest)).map code
  | _ => none

def readEcho? : Text → Option Statement
  | '=' :: rest => (nonempty? (trim rest)).map echo
  | _ => none

def rules : List (Text → Option Statement) :=
  [readIgnored?, readDoctype?, readComment?, readElement?, readBlock?, readCode?, readEcho?]

def read (s : Text) : Statement := (rules.findSome? (· s)).getD (literal s)

@[simp] theorem read_nil : read [] = ignored := rfl

theorem read_cases (s : Text) :
    (∃ rule ∈ rules, rule s = some (read s)) ∨ read s = .literal s := by
  unfold read
  cases found : rules.findSome? (· s) with
  | none => exact .inr rfl
  | some statement => exact .inl (List.exists_of_findSome?_eq_some found)

end IndentMarkup.Statement
