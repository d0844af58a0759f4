/-
Tagged values and what else they hold.

The check of a tagged value counts its members and looks up the discriminator and
the payload. That leaves no room for a third member, but the two names are never
compared: if a variant bears the name of the discriminator, one member is both tag
and payload, and nothing is asked of the other one.

* `Json.TaggedBy`: objects of a tag, a payload and nothing else.
* `Table.Collides`: a variant whose payload may be the discriminator's name, under
  that name.
* `taggedBy_or_collides`: the values of a schema are tagged unless there is such a
  variant; `Table.Collides.exists_stray`: if there is, some value is not.
* `check_schema_tagged_iff`: the accepted values of a schema are all tagged if and
  only if it has no such variant.
-/
import JsonTypes.Proofs.Conformance
import JsonTypes.Workspace

namespace JsonTypes

/-- An object that names a variant under the discriminator and has no members but
this one and the payload under the name of the variant, which are different. -/
def Json.TaggedBy (discriminator : String) (variants : Table Ty) (v : Json) : Prop :=
  ∃ members constr, v = .object members ∧
    members.find? discriminator = some (.string constr) ∧ constr ∈ variants.names.toList ∧
      discriminator ≠ constr ∧
        ∀ key, key ∈ members.names.toList ↔ key = discriminator ∨ key = constr

/-- A variant bears the name of the discriminator, and this name is a payload of it. -/
def Table.Collides (bodies : Family) (discriminator : String) (variants : Table Ty) : Prop :=
  ∃ shape, variants.find? discriminator = some shape ∧
    Conforms bodies discriminator shape (.string discriminator)

variable {bodies : Family} {discriminator : String} {i : Instance} {variants : Table Ty}

/-- The values of a schema are tagged, unless one of its variants collides with the
discriminator. -/
lemma taggedBy_or_collides {v : Json} (hkind : i.factory.kind = .schema)
    (h : Conforms bodies discriminator (.inst i) v) :
    ∃ variants, bodies i = .ok variants ∧
      (v.TaggedBy discriminator variants ∨ variants.Collides bodies discriminator) := by
  cases h with
  | record hrecord => cases hkind.symm.trans hrecord
  | @schema _ variants members constr shape payload _ hexpands htwo htag hvariant hheld _ hvalue =>
      refine ⟨variants, hexpands, ?_⟩
      by_cases hne : discriminator = constr
      · -- the payload is what stands under the discriminator, its own name
        subst hne
        obtain rfl : payload = .string discriminator := Option.some.inj (hheld.symm.trans htag)
        exact Or.inr ⟨shape, hvariant, hvalue⟩
      · have hkeys := Table.mem_names_of_size_two htwo htag hheld hne
        have hname := Table.exists_find?.mp ⟨shape, hvariant⟩
        exact Or.inl ⟨members, constr, rfl, htag, hname, hne, hkeys⟩

/-- Every text has another one beside it. -/
lemma ne_append_singleton (s : String) : s ≠ s ++ "'" := by
  intro h
  have hlength := congrArg String.length h
  rw [String.length_append] at hlength
  exact absurd hlength (Nat.ne_of_lt (Nat.lt_add_of_pos_right (by decide)))

/-- A schema with a colliding variant has a value that is not tagged: beside the
discriminator stands a null that nobody declared. -/
lemma Table.Collides.exists_stray (hkind : i.factory.kind = .schema)
    (hi : bodies i = .ok variants) (h : variants.Collides bodies discriminator) :
    ∃ v, Conforms bodies discriminator (.inst i) v ∧ ¬ v.TaggedBy discriminator variants := by
  obtain ⟨shape, hvariant, hvalue⟩ := h
  let members : Table Json :=
    .two (ne_append_singleton discriminator) (.string discriminator) .null
  have htag : members.find? discriminator = some (.string discriminator) := find?_two_fst ..
  refine ⟨.object members, ?_, ?_⟩
  · exact .schema hkind hi (size_two ..) htag hvariant htag (by simp) hvalue
  · rintro ⟨_, constr, hmembers, hconstr, -, hne, -⟩
    obtain rfl := Json.object.inj hmembers
    exact hne (Json.string.inj (Option.some.inj (htag.symm.trans hconstr)))

/-- **Tagged values hold nothing undeclared unless names collide.** The values that
the check of a schema accepts are objects of exactly two members, the discriminator
with the name of a variant and the payload under that name, if and only if no
variant bears the name of the discriminator with this name as a payload. -/
theorem check_schema_tagged_iff (bodies : Family) (config : Config) (i : Instance)
    (kind : i.factory.kind = .schema) :
    (∀ v w, (check bodies config (.inst i) v).result = .ok w →
        ∃ variants, bodies i = .ok variants ∧ v.TaggedBy config.discriminator variants) ↔
      ∀ variants, bodies i = .ok variants → ¬ variants.Collides bodies config.discriminator := by
  constructor
  · intro htagged variants hi hcollides
    obtain ⟨v, hv, hstray⟩ := hcollides.exists_stray kind hi
    obtain ⟨variants', hi', hv'⟩ := htagged v v (check_of_conforms hv)
    obtain rfl : variants' = variants := Except.ok.inj (hi'.symm.trans hi)
    exact hstray hv'
  · intro hdistinct v w hcheck
    obtain ⟨variants, hi, hv⟩ := taggedBy_or_collides kind (conforms_of_check hcheck)
    exact ⟨variants, hi, hv.resolve_right (hdistinct variants hi)⟩

/-- The values of a list of numbers are tagged: neither variant is called `constr`. -/
theorem check_schema_tagged_list :
    Prelude.list.factory.kind = .schema ∧
      ∀ v w, (check (Workspace.start .standard true).family .standard
          (.inst ⟨Prelude.list.factory, fun _ => .number⟩) v).result = .ok w →
        ∃ variants, (Workspace.start .standard true).family
            ⟨Prelude.list.factory, fun _ => .number⟩ = .ok variants ∧
          v.TaggedBy Config.standard.discriminator variants := by
  refine ⟨rfl, (check_schema_tagged_iff _ .standard _ rfl).mpr ?_⟩
  rintro variants hi ⟨shape, hvariant, -⟩
  obtain rfl := Except.ok.inj hi
  cases hvariant

/-- `constr: string | ping: {}`, a schema with a variant of the discriminator's name. -/
def event : Factory := ⟨7, "Event", .schema, 0⟩

/-- The bodies of the ready-made definitions and of that schema. -/
def eventBodies : Family :=
  ((Workspace.start .standard true).register "Event" .schema 0
    [("constr", .primitive "string"), ("ping", .unit)]).2.family

/-- An event of two members is accepted although only the discriminator is declared:
`{ "constr": "constr", "undeclared": 1 }`. -/
theorem check_event_undeclared :
    ∃ members : Table Json, members.names.toList = ["constr", "undeclared"] ∧
      (check eventBodies .standard (.inst event.generic) (.object members)).result =
        .ok (.object members) ∧
      ∀ variants, ¬ (Json.object members).TaggedBy Config.standard.discriminator variants := by
  refine ⟨.ofList [("constr", .string "constr"), ("undeclared", .number (.integer 1))],
    by decide, rfl, ?_⟩
  rintro variants ⟨members, constr, hmembers, hconstr, -, hne, -⟩
  obtain rfl := Json.object.inj hmembers
  exact hne (Json.string.inj (Option.some.inj hconstr))

end JsonTypes
