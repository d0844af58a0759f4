/-
The ready-made definitions.

* `Prelude.definitions`: lists, optional values, alternatives, binary trees,
  pairs, a record inside itself, and rose trees, with their bodies. The serial
  number of a factory is its place in the list.
* `Prelude.registry`: the registry of these factories.
-/
import JsonTypes.Template

namespace JsonTypes

/-- A factory with its body. -/
structure Definition where
  factory : Factory
  body : Body

namespace Prelude

/-- `Nil {} | Cons { head: a, tail: List(a) }` -/
def list : Definition where
  factory := ⟨0, "List", .schema, 1⟩
  body := [
    ("Nil", .unit),
    ("Cons", .fields [("head", .arg 0), ("tail", .this [.arg 0])])]

/-- `Nothing {} | Just { fromJust: a }` -/
def maybe : Definition where
  factory := ⟨1, "Maybe", .schema, 1⟩
  body := [("Nothing", .unit), ("Just", .fields [("fromJust", .arg 0)])]

/-- `Left a | Right b` -/
def either : Definition where
  factory := ⟨2, "Either", .schema, 2⟩
  body := [("Left", .arg 0), ("Right", .arg 1)]

/-- `Leaf a | Branch { leftBranch: BinTree(a), rightBranch: BinTree(a) }` -/
def binTree : Definition where
  factory := ⟨3, "BinTree", .schema, 1⟩
  body := [
    ("Leaf", .arg 0),
    ("Branch", .fields [("leftBranch", .this [.arg 0]), ("rightBranch", .this [.arg 0])])]

/-- `{ fst: a, snd: b }` -/
def pair : Definition where
  factory := ⟨4, "Pair", .record, 2⟩
  body := [("fst", .arg 0), ("snd", .arg 1)]

/-- `{ hey: Optional(Rec) }` -/
def recursive : Definition where
  factory := ⟨5, "Rec", .record, 0⟩
  body := [("hey", .container .optional (.this []))]

/-- `{ label: a, children: List(Rose(a)) }` -/
def rose : Definition where
  factory := ⟨6, "Rose", .record, 1⟩
  body := [("label", .arg 0), ("children", .factory list.factory [.this [.arg 0]])]

/-- All ready-made definitions. -/
def definitions : List Definition :=
  [list, maybe, either, binTree, pair, recursive, rose]

/-- The registry of the ready-made factories. -/
def registry : Registry :=
  .ofList (definitions.map Definition.factory)

end Prelude

end JsonTypes
