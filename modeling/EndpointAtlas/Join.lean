import EndpointAtlas.BackendCall.Basic
import EndpointAtlas.Endpoint.Basic
import EndpointAtlas.Keyed

/-!
# Joining endpoints and backend calls

Each endpoint is joined to the backend call whose key it names. Of several backend calls under one key
the last one counts. What finds no partner is reported on both sides: the key of each such endpoint,
and each key of a backend call that no endpoint names. -/

namespace EndpointAtlas

/-- An endpoint and the backend call that serves it. -/
structure Link where
  endpoint : Endpoint
  backend : BackendCall
  deriving DecidableEq, Repr

/-- The outcome of a join. -/
structure Joined where
  /-- One link for each endpoint that has a backend call, in the order of the endpoints. -/
  links : List Link
  /-- The key of each endpoint that has none, in the order of the endpoints. -/
  unmatched : List CallKey
  /-- The keys that no endpoint names, in the order in which they first appear. -/
  orphaned : List CallKey
  deriving DecidableEq, Repr

/-- The backend calls under their keys. -/
def index (backends : List BackendCall) : Keyed CallKey BackendCall :=
  Keyed.ofList (backends.map fun b => (b.key, b))

/-- Joins endpoints to backend calls. -/
def join (endpoints : List Endpoint) (backends : List BackendCall) : Joined :=
  let byKey := index backends
  let callees := endpoints.map Endpoint.callee
  { links := endpoints.filterMap fun e => (byKey.get? e.callee).map (Link.mk e)
    unmatched := callees.filter fun k => (byKey.get? k).isNone
    orphaned := byKey.keys.filter fun k => !callees.contains k }

end EndpointAtlas
