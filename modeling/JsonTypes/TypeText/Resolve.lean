/-
The type of a written type.

* `Expr.resolve`: names are looked up in a registry, arguments before the name
  that they are applied to, from left to right.
* `Ty.ofText`: the type of a text; errors of the text come before errors of the
  names in it.
-/
import JsonTypes.Registry
import JsonTypes.TypeText.Expr

namespace JsonTypes

namespace TypeText

/-- A name applied to types: a primitive takes no argument, a container one, a
registered factory as many as it has. -/
def applyName (registry : Registry) (name : String) (args : List Ty) :
    Except DefinitionError Ty :=
  match Primitive.ofName? name with
  | some p =>
    if args.isEmpty then .ok (.primitive p) else .error (.arityMismatch name 0 args.length)
  | none =>
    match Container.ofName? name with
    | some c => c.apply args
    | none => registry.apply name args

mutual

/-- The type of a tree. -/
def Expr.resolve (registry : Registry) : Expr → Except DefinitionError Ty
  | .apply head args => do
    let types ← Expr.resolveAll registry args
    applyName registry head types

/-- The types of trees, from left to right. -/
def Expr.resolveAll (registry : Registry) : List Expr → Except DefinitionError (List Ty)
  | [] => pure []
  | e :: rest => do
    let t ← e.resolve registry
    let types ← Expr.resolveAll registry rest
    pure (t :: types)

end

end TypeText

/-- Why a text is no type. -/
inductive TypeTextError where
  | malformed (e : TypeText.SyntaxError)
  | definition (e : DefinitionError)
deriving DecidableEq, Repr

/-- The message of such an error. -/
def TypeTextError.message : TypeTextError → String
  | malformed e => e.message
  | definition e => e.message

/-- The type of a text. -/
def Ty.ofText (registry : Registry) (text : String) : Except TypeTextError Ty := do
  let e ← (TypeText.Expr.ofText text).mapError .malformed
  (e.resolve registry).mapError .definition

end JsonTypes
