import EndpointAtlas.CallKey
import EndpointAtlas.HttpMethod

/-!
# Endpoints

An endpoint is what a client of the northbound interface can call. -/

namespace EndpointAtlas

/-- An endpoint as its description declares it. `callee` names the backend routine that its handler
    calls; what was not found in the source is empty. -/
structure Endpoint where
  version : Text
  apiName : Text
  headers : List Text
  httpMethod : Option HttpMethod
  path : Text
  payload : Text
  callee : CallKey
  deriving DecidableEq, Repr

end EndpointAtlas
