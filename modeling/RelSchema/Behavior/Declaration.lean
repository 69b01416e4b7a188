import RelSchema.KeyMap

/-!
# Behavior declarations

A table declares behaviors by name, with parameters. What a behavior does is found by its name when
the table is finalized.
-/

namespace RelSchema

structure BehaviorDeclaration where
  name : String
  parameters : KeyMap String := .empty
deriving DecidableEq, Repr, Inhabited

end RelSchema
