import EndpointAtlas.HttpMethod
import EndpointAtlas.Keyed
import EndpointAtlas.Parameter

/-!
# Example payloads

The example payload of an endpoint has a sample value for each declared parameter. A request that
carries its payload in the query string gets one pair for each declaration, repeats included; any other
request gets a JSON object, where the last declaration of a name decides its value. -/

namespace EndpointAtlas.Payload

/-- A query string with a pair for each parameter. -/
def query (ps : List Parameter) : Text :=
  Text.joinWith "&" (ps.map fun p => p.name ++ "=" ++ p.sample.literal)

/-- The samples under their names, in the order of the first declarations. -/
def fields (ps : List Parameter) : Keyed Text Sample := Keyed.ofList (ps.map fun p => (p.name, p.sample))

/-- A JSON object with a field for each name. -/
def body (ps : List Parameter) : Json := .object ((fields ps).map fun (name, sample) => (name, sample.json))

/-- The example payload for a text of declarations. An unknown method is taken to carry a query. -/
def ofText (text : Text) (method : Option HttpMethod) : Text :=
  let ps := Parameter.ofText text
  if method.all HttpMethod.carriesQuery then query ps else (body ps).pretty

end EndpointAtlas.Payload
