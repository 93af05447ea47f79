import IndentMarkup.Text.Blank

/-! Elements and their tags. Attributes are kept as they were spelled and are
neither checked nor quoted. -/
namespace IndentMarkup

structure Element where
  tag : Text
  id : Option Text
  classes : List Text
  attributes : Option Text
  deriving DecidableEq, Repr

namespace Element

def defaultTag : Text := "div".toList

def idPart (e : Element) : Text :=
  match e.id with
  | some id => " id='".toList ++ id ++ "'".toList
  | none => []

def classPart (e : Element) : Text :=
  if e.classes.isEmpty then []
  else " class='".toList ++ [' '].intercalate e.classes ++ "'".toList

def attributePart (e : Element) : Text :=
  match e.attributes with
  | some attributes => ' ' :: attributes
  | none => []

def startTag (e : Element) (selfClosing : Bool) : Text :=
  '<' :: (e.tag ++ e.idPart ++ e.classPart ++ e.attributePart ++
    if selfClosing then " />".toList else ">".toList)

def endTag (e : Element) : Text := "</".toList ++ e.tag ++ ">".toList

end Element

end IndentMarkup
