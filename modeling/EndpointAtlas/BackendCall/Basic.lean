import EndpointAtlas.CallKey
import EndpointAtlas.HttpMethod

/-!
# Backend calls

A backend call is what a routine of the southbound interface sends to a service. -/

namespace EndpointAtlas

/-- A backend call as the definition of its routine makes it. `key` names the routine; what was not
    found in the source is empty. -/
structure BackendCall where
  key : CallKey
  queryParams : List Text
  microService : Text
  operation : Text
  backendVersion : Text
  routerEndpoint : Text
  unwrapMethod : Text
  httpMethod : Option HttpMethod
  deriving DecidableEq, Repr

end EndpointAtlas
