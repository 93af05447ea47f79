import IndentMarkup.Json.Basic
import IndentMarkup.Template

/-! Configurations read from JSON. A configuration is an object, whose unknown
fields are passed over, or an array with the values of the fields in order;
everything else is refused. -/
namespace IndentMarkup

structure HostConfiguration where
  cache : Option Bool := none
  deriving DecidableEq, Repr

namespace Json

/-- The value given for the cache, if any; the outer option is empty when the
value has the wrong form for a configuration. -/
def cacheSetting? : Json → Option (Option Json)
  | object fields => some (fields.lookup "cache")
  | array [] => some none
  | array [value] => some (some value)
  | _ => none

end Json

def Options.ofJson? (value : Json) : Option Options := do
  match ← value.cacheSetting? with
  | none => return {}
  | some (.bool cache) => return ⟨cache⟩
  | some _ => none

namespace HostConfiguration

/-- Unlike `Options.ofJson?` this takes `null` for a setting left open. -/
def ofJson? (value : Json) : Option HostConfiguration := do
  match ← value.cacheSetting? with
  | none => return {}
  | some .null => return {}
  | some (.bool cache) => return ⟨some cache⟩
  | some _ => none

def options (configuration : HostConfiguration) : Options := ⟨configuration.cache.getD false⟩

end HostConfiguration

end IndentMarkup
