/-
The factories that a type applies.

* `Ty.heads`: the factories of all applications inside a type, arguments
  included, outermost first and from left to right. Nothing is expanded.
* `Ty.factories`: the same, each factory once.
-/
import JsonTypes.Ty.Basic

namespace JsonTypes.Ty

/-- The factories of the applications inside a type, with repetitions. -/
def heads : Ty → List Factory
  | .primitive _ | .param _ => []
  | .container _ t => t.heads
  | .fields ⟨_, entry⟩ => (List.ofFn fun i => (entry i).heads).flatten
  | .inst ⟨f, arg⟩ => f :: (List.ofFn fun k => (arg k).heads).flatten

/-- The factories that a type applies, in the order of their first occurrence. -/
def factories (t : Ty) : List Factory :=
  t.heads.eraseDups

end JsonTypes.Ty
