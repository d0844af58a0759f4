/-
Families of factory bodies.

* `Family`: what every instance expands to. A body is a total function of the
  arguments that yields the fields or variants, or a definition error.
* `Family.describe`: the description of an instance.
-/
import JsonTypes.Ty.Text

namespace JsonTypes

/-- The bodies of all factories: the entries that an instance expands to. -/
abbrev Family : Type := Instance → Except DefinitionError (Table Ty)

/-- The description of an instance. -/
def Family.describe (bodies : Family) (i : Instance) : Except DefinitionError Description :=
  (bodies i).map fun entries => ⟨i.text, i.factory.kind, entries⟩

end JsonTypes
