import RelSchema.Config
import RelSchema.Resolution

/-!
# Setting up from a configuration

The empty database and the resolver that a configuration asks for.
-/

namespace RelSchema

/-- An empty database. -/
def Database.ofConfig (name : String) (c : Config) : Database where
  name := name
  platform := c.platform
  defaultSchema := c.defaultSchema
  defaults := c.defaults

/-- A resolver whose naming strategy is one of these. -/
def Resolver.ofConfig (c : Config) (strategies : NameStrategies := .builtIn)
    (behaviors : BehaviorRegistry := .builtIn) : Except ConfigError Resolver :=
  match strategies.find? c.namingStrategy with
  | some strategy => .ok { strategy, behaviors, check := .ofBool c.strictReferences }
  | none => .error (.unknownNamingStrategy c.namingStrategy strategies.keys)

end RelSchema
