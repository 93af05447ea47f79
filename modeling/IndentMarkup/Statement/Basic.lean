import IndentMarkup.Doctype
import IndentMarkup.Element.Declaration

/-! Statements, one to a line, and the pieces of markup they stand for.
A statement has an inline piece if its line is complete, and opens a level if it
has none; its opening and closing pieces then enclose the lines below it. -/
namespace IndentMarkup

inductive Keyword
  | ifBlock | foreachBlock | forBlock | whileBlock
  deriving DecidableEq, Repr

namespace Keyword

def word : Keyword → Text
  | ifBlock => "if".toList
  | foreachBlock => "foreach".toList
  | forBlock => "for".toList
  | whileBlock => "while".toList

def all : List Keyword := [ifBlock, foreachBlock, forBlock, whileBlock]

def ofWord? (word : Text) : Option Keyword := all.find? (·.word = word)

theorem ofWord?_word (keyword : Keyword) : ofWord? keyword.word = some keyword := by
  cases keyword <;> decide

theorem word_of_ofWord? {word : Text} {keyword : Keyword}
    (known : ofWord? word = some keyword) : keyword.word = word := by
  simpa using List.find?_some known

end Keyword

inductive Statement
  | ignored
  | doctype (type : Doctype)
  | comment (text : Option Text)
  | element (element : Element) (body : Body)
  | block (keyword : Keyword) (condition : Text)
  | code (source : Text)
  | echo (expression : Text)
  | literal (text : Text)
  deriving DecidableEq, Repr

def region (code : Text) : Text := "<?php ".toList ++ code ++ " ?>".toList

def echoRegion (expression : Text) : Text :=
  region ("echo(".toList ++ expression ++ ");".toList)

namespace Statement

def opening? : Statement → Option Text
  | comment _ => some "<!-- ".toList
  | element _ .void => none
  | element e _ => some (e.startTag false)
  | block keyword condition =>
    some (region (keyword.word ++ "(".toList ++ condition ++ "):".toList))
  | _ => none

def inline? : Statement → Option Text
  | ignored => none
  | doctype type => some type.declaration
  | comment text => text
  | element _ .nested => none
  | element e .void => some (e.startTag true)
  | element _ (.echo expression) => some (echoRegion expression)
  | element _ (.text content) => some content
  | block _ _ => none
  | code source => some (region source)
  | echo expression => some (echoRegion expression)
  | literal text => some text

def closing? : Statement → Option Text
  | comment _ => some " -->".toList
  | element _ .void => none
  | element e _ => some e.endTag
  | block keyword _ => some (region ("end".toList ++ keyword.word ++ ";".toList))
  | _ => none

def isIgnored : Statement → Bool
  | ignored => true
  | _ => false

def opensLevel (s : Statement) : Bool := !s.isIgnored && s.inline?.isNone

def render (s : Statement) : Text :=
  Text.trim (s.opening?.getD [] ++ s.inline?.getD [] ++ s.closing?.getD [])

@[simp] theorem opensLevel_ignored : ignored.opensLevel = false := rfl

@[simp] theorem opensLevel_element (e : Element) (body : Body) :
    (element e body).opensLevel = true ↔ body = .nested := by
  cases body <;> simp [opensLevel, isIgnored, inline?]

@[simp] theorem opensLevel_block (keyword : Keyword) (condition : Text) :
    (block keyword condition).opensLevel = true := rfl

end Statement

end IndentMarkup
