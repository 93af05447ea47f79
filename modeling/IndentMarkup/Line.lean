import IndentMarkup.Fault
import IndentMarkup.Statement.Reader
import IndentMarkup.Warning

/-! Lines of a template. Two leading spaces make one level of indentation, and
only spaces count; blanks at the end of a line are no part of it. -/
namespace IndentMarkup
open Text

structure Line where
  number : Nat
  raw : Text
  leadingSpaces : Nat
  content : Text
  statement : Statement
  deriving DecidableEq, Repr

namespace Line

def read (number : Nat) (raw : Text) : Line :=
  let content := trim raw
  { number, raw, content
    leadingSpaces := ((trimEnd raw).takeWhile (· = ' ')).length
    statement := Statement.read content }

def indent (line : Line) : Nat := line.leadingSpaces / 2

def isIgnored (line : Line) : Bool := line.statement.isIgnored

def opensLevel (line : Line) : Bool := line.statement.opensLevel

def render (line : Line) : Text := line.statement.render

/-- The deepest indentation allowed below `previous`, the line accepted last. -/
def limit : Option Line → Nat
  | none => 0
  | some previous => previous.indent + if previous.opensLevel then 1 else 0

/-- An odd number of spaces is reported even when the line is too deep as well. -/
def fault? (previous : Option Line) (line : Line) : Option Fault :=
  if line.leadingSpaces % 2 ≠ 0 then some (.oddIndentation line.number line.leadingSpaces)
  else if limit previous < line.indent then some (.tooDeep line.number)
  else none

theorem fault?_eq_none_iff {previous : Option Line} {line : Line} :
    line.fault? previous = none ↔
      line.leadingSpaces % 2 = 0 ∧ line.indent ≤ limit previous := by
  unfold fault?
  by_cases odd : line.leadingSpaces % 2 ≠ 0
  · simp only [if_pos odd, reduceCtorEq, false_iff]
    exact fun h => odd h.1
  · by_cases deep : limit previous < line.indent
    · simp only [if_neg odd, if_pos deep, reduceCtorEq, false_iff]
      exact fun h => Nat.not_le_of_lt deep h.2
    · simp only [if_neg odd, if_neg deep, true_iff]
      exact ⟨Decidable.not_not.1 odd, Nat.le_of_not_lt deep⟩

def tabWarning? (line : Line) : Option Warning :=
  if (margin line.raw).contains '\t' then some (.tabIndentation line.number) else none

def looksDeclared : Text → Bool
  | '%' :: _ => true
  | '#' :: c :: _ => c.isAlpha
  | '.' :: c :: _ => c.isAlpha
  | _ => false

def unnestedWords : List Text :=
  ["else".toList, "elseif".toList, "switch".toList, "case".toList, "do".toList]

def isControlWord (word : Text) : Bool :=
  (Keyword.ofWord? word).isSome || unnestedWords.contains word

/-- The word that code starts with, behind all dashes that introduce it. -/
def codeWord (content : Text) : Text :=
  word (trimStart (content.dropWhile (· = '-')))

def fallbackWarning? (line : Line) : Option Warning :=
  match line.statement with
  | .literal _ =>
    if looksDeclared line.content then some (.literalFallback line.number line.content) else none
  | .code _ =>
    let keyword := codeWord line.content
    if isControlWord keyword then some (.unsupportedControl line.number keyword) else none
  | _ => none

def warnings (line : Line) : List Warning :=
  line.tabWarning?.toList ++ line.fallbackWarning?.toList

end Line

end IndentMarkup
