import Libcold.HttpUrl

namespace Libcold.HttpRequest

open HttpCommon Delimited

/-- A finite map from non-empty keys, as its entries in some order. -/
structure Form where
  entries : HeaderMap
  distinct : (entries.map Prod.fst).Nodup
  nonempty : ∀ p ∈ entries, p.1 ≠ []

namespace Form

/-- The list of `UrlEncode(key)=UrlEncode(value)` between ampersands. -/
def encode (form : Form) : List UInt8 := join 61 38 (form.entries.map fun p => (urlEncode p.1, urlEncode p.2))

end Form

def Agree (parameters : HeaderMap) (form : Form) : Prop := ∀ key, parameters.lookup key = form.entries.lookup key

section Marks

variable {path : List UInt8}

end Marks

end Libcold.HttpRequest
