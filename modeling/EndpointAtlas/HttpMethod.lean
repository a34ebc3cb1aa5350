import EndpointAtlas.Text.Find

/-!
# HTTP methods

The five methods that a routing verb can stand for. -/

namespace EndpointAtlas

/-- A method of an HTTP request. -/
inductive HttpMethod where
  | get
  | post
  | put
  | delete
  | patch
  deriving DecidableEq, Repr

namespace HttpMethod

/-- The routing verb of a method. -/
def verb : HttpMethod → Text
  | get => "get"
  | post => "post"
  | put => "put"
  | delete => "delete"
  | patch => "patch"

/-- The name of a method in a request line. -/
def name : HttpMethod → Text
  | get => "GET"
  | post => "POST"
  | put => "PUT"
  | delete => "DELETE"
  | patch => "PATCH"

/-- Every method with its verb. No verb begins another, so their order does not matter. -/
def verbs : List (Text × HttpMethod) :=
  [get, post, put, delete, patch].map fun m => (m.verb, m)

/-- The method of a verb, in capital or small ASCII letters. -/
def ofText? (t : Text) : Option HttpMethod := verbs.lookup (t.map Char.toLower)

/-- The verb that the text begins with, and what follows. -/
def read? (t : Text) : Option (HttpMethod × Text) := Text.oneOf? verbs t

/-- Whether the payload of a request travels in its query string. -/
def carriesQuery : HttpMethod → Bool
  | get => true
  | _ => false

theorem ofText?_verb (m : HttpMethod) : ofText? m.verb = some m := by cases m <;> decide

theorem ofText?_name (m : HttpMethod) : ofText? m.name = some m := by cases m <;> decide

end HttpMethod

end EndpointAtlas
