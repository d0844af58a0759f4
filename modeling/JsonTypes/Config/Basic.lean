/-
The configuration of checks and of the walk over definitions.

* `Config`, with `Config.standard` where nothing is configured.
-/

namespace JsonTypes

/-- How values are checked and definitions are walked. -/
structure Config where
  /-- The key that names the variant of a tagged value. -/
  discriminator : String
  /-- Whether the events of checks and walks are shown. -/
  debug : Bool
  /-- How many instances the walk over a definition may have open at once. -/
  maxDepth : Nat
deriving DecidableEq, Repr

/-- The configuration that holds where nothing is configured. -/
def Config.standard : Config := ⟨"constr", false, 64⟩

end JsonTypes
