/-
The text of types.

* `Ty.text`: primitives by name, applications with their arguments in
  parentheses, field mappings in braces, placeholders as letters.
* `Instance.text`, `Description.text`.
-/
import JsonTypes.Ty.Basic

namespace JsonTypes

/-- The text of a placeholder: a letter for the first twenty-six, then `t26`,
`t27` and so on. -/
def placeholderText (index : Nat) : String :=
  if index < 26 then String.singleton (Char.ofNat ('a'.toNat + index))
  else s!"t{index}"

/-- The text of named fields: `{ a: T, b: U }`, or empty braces. -/
def fieldsText (fields : List (String × String)) : String :=
  if fields.isEmpty then "\x7b\x7d"
  else
    "\x7b " ++ String.intercalate ", " (fields.map fun (name, ty) => name ++ ": " ++ ty)
      ++ " \x7d"

/-- The text of a name applied to arguments: the bare name if there are none. -/
def applicationText (name : String) (args : List String) : String :=
  if args.isEmpty then name
  else name ++ "(" ++ String.intercalate ", " args ++ ")"

/-- The text of a type. -/
def Ty.text : Ty → String
  | .primitive p => p.name
  | .container c arg => applicationText c.name [arg.text]
  | .fields ⟨names, entry⟩ =>
    fieldsText (List.ofFn fun i => (names.toList[i], (entry i).text))
  | .inst ⟨factory, arg⟩ => applicationText factory.name (List.ofFn fun i => (arg i).text)
  | .param index => placeholderText index

/-- The text of an instance. -/
def Application.text (i : Instance) : String := (Ty.inst i).text

/-- The text of the fields or variants of an instance. -/
def Description.entriesText (d : Description) : List (String × String) :=
  (d.entries.map Ty.text).toList

/-- The text of a description: a record with its fields, a schema with its
variants separated by bars. -/
def Description.text (d : Description) : String :=
  d.kind.keyword ++ " " ++ d.name ++ " = " ++
    match d.kind with
    | .record => fieldsText d.entriesText
    | .schema =>
      String.intercalate " | " (d.entriesText.map fun (name, ty) => name ++ " " ++ ty)

end JsonTypes
