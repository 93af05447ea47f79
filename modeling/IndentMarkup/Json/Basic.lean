/-! JSON values, as far as reports and configurations need them. A number is
kept as it is spelled. -/
namespace IndentMarkup

inductive Json
  | null
  | bool (value : Bool)
  | number (spelling : String)
  | string (value : String)
  | array (items : List Json)
  | object (fields : List (String × Json))
  deriving Inhabited

namespace Json

def nat (n : Nat) : Json := number (toString n)

def ofOption {α : Type} (encode : α → Json) : Option α → Json
  | some a => encode a
  | none => null

end Json

end IndentMarkup
