import IndentMarkup.Text.Blank

/-! Document types and the declarations that stand for them in a document. -/
namespace IndentMarkup

inductive Doctype
  | xhtml11 | html5 | strict | transitional | frameset | basic | mobile | xml
  deriving DecidableEq, Repr

namespace Doctype

def variants : List (Text × Doctype) :=
  [("5".toList, html5), ("html".toList, html5), ("html5".toList, html5),
    ("strict".toList, strict), ("transitional".toList, transitional),
    ("frameset".toList, frameset), ("basic".toList, basic), ("mobile".toList, mobile),
    ("xml".toList, xml)]

/-- ASCII letter case in a variant does not count; a variant that is absent or
unknown means XHTML 1.1. -/
def ofVariant : Option Text → Doctype
  | none => xhtml11
  | some variant => (variants.lookup (variant.map Char.toLower)).getD xhtml11

def declare (publicId systemId : String) : Text :=
  "<!DOCTYPE html PUBLIC \"".toList ++ publicId.toList ++ "\" \"".toList ++ systemId.toList ++
    "\">".toList

def declaration : Doctype → Text
  | xhtml11 => declare "-//W3C//DTD XHTML 1.1//EN"
    "http://www.w3.org/TR/xhtml11/DTD/xhtml11.dtd"
  | html5 => "<!DOCTYPE html>".toList
  | strict => declare "-//W3C//DTD XHTML 1.0 Strict//EN"
    "http://www.w3.org/TR/xhtml1/DTD/xhtml1-strict.dtd"
  | transitional => declare "-//W3C//DTD XHTML 1.0 Transitional//EN"
    "http://www.w3.org/TR/xhtml1/DTD/xhtml1-transitional.dtd"
  | frameset => declare "-//W3C//DTD XHTML 1.0 Frameset//EN"
    "http://www.w3.org/TR/xhtml1/DTD/xhtml1-frameset.dtd"
  | basic => declare "-//W3C//DTD XHTML Basic 1.1//EN"
    "http://www.w3.org/TR/xhtml-basic/xhtml-basic11.dtd"
  | mobile => declare "-//WAPFORUM//DTD XHTML Mobile 1.2//EN"
    "http://www.openmobilealliance.org/tech/DTD/xhtml-mobile12.dtd"
  | xml => "<?xml version='1.0' encoding='utf-8' ?>".toList

end Doctype

end IndentMarkup
