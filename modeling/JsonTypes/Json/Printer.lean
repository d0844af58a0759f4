/-
Writing JSON values.

* `Json.render`: the text of a value on one line, without white space.
-/
import JsonTypes.Json.Quoted

namespace JsonTypes.Json

/-- The text of a value. -/
def render : Json → String
  | .null => "null"
  | .boolean true => "true"
  | .boolean false => "false"
  | .number n => n.text
  | .string s => quote s
  | .array ⟨_, item⟩ =>
    "[" ++ String.intercalate "," (List.ofFn fun i => (item i).render) ++ "]"
  | .object ⟨names, entry⟩ =>
    "\x7b" ++ String.intercalate ","
      (List.ofFn fun i => quote names.toList[i] ++ ":" ++ (entry i).render) ++ "\x7d"

end JsonTypes.Json
