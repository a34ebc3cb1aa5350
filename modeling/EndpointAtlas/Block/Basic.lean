import EndpointAtlas.Text.Basic

/-!
# Blocks

A block is one unit of source text: the description of an endpoint with its handler, or the definition
of a backend routine. -/

namespace EndpointAtlas

/-- What a block was cut from. -/
inductive Block.Kind where
  /-- The description of an endpoint, its parameters and its handler. -/
  | description
  /-- The definition of a routine. -/
  | definition
  deriving DecidableEq, Repr

/-- One unit of source text. `scopes` are the names of the resources it was declared in, outermost
    first. -/
structure Block where
  kind : Block.Kind
  scopes : List Text
  text : Text
  deriving DecidableEq, Repr

/-- The path of the resources around a declaration, if there are any. -/
def contextPath : List Text → Option Text
  | [] => none
  | scopes => some (Text.joinWith "/" scopes)

/-- The path of the resources that a block was declared in. -/
def Block.context (b : Block) : Option Text := contextPath b.scopes

end EndpointAtlas
