import EndpointAtlas.Text.Basic

/-!
# Call keys

A backend routine is known by the version of its interface and its name. An endpoint names the routine
that it calls by the same key, and this is how the two are joined. -/

namespace EndpointAtlas

/-- What names a backend routine. -/
structure CallKey where
  version : Text
  method : Text
  deriving DecidableEq, Repr

/-- The key in one line. -/
def CallKey.toText (k : CallKey) : Text := k.version ++ "," ++ k.method

end EndpointAtlas
