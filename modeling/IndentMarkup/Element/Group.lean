import IndentMarkup.Text.Blank

/-! Parenthesised groups. A scan follows a text with the number of parentheses
open and the quotation mark it stands inside, if any; parentheses count only
outside quotations, and a quotation ends only with the mark that began it. -/
namespace IndentMarkup

structure Scan where
  depth : Nat
  quote : Option Char
  deriving DecidableEq, Repr

namespace Scan

def step (scan : Scan) (c : Char) : Scan :=
  match scan.quote with
  | some mark => if c = mark then { scan with quote := none } else scan
  | none =>
    if c = '"' ∨ c = '\'' then { scan with quote := some c }
    else if c = '(' then { scan with depth := scan.depth + 1 }
    else if c = ')' then { scan with depth := scan.depth - 1 }
    else scan

def after (scan : Scan) (s : Text) : Scan := s.foldl step scan

@[simp] theorem after_nil (scan : Scan) : scan.after [] = scan := rfl

@[simp] theorem after_cons (scan : Scan) (c : Char) (s : Text) :
    scan.after (c :: s) = (scan.step c).after s := rfl

/-- Stops at the first character that leaves no parenthesis open: what came
before it, with `before` in reverse in front, and what comes after it. -/
def splitFrom (scan : Scan) (before : Text) : Text → Option (Text × Text)
  | [] => none
  | c :: rest =>
    if (scan.step c).depth = 0 then some (before.reverse, rest)
    else splitFrom (scan.step c) (c :: before) rest

end Scan

def splitGroup? : Text → Option (Text × Text)
  | c :: rest => if c = '(' then Scan.splitFrom ⟨1, none⟩ [] rest else none
  | [] => none

end IndentMarkup
