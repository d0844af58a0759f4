/-
The discriminator is only a name.

Values name their variant under the discriminator. Under another discriminator the same
values are accepted, with that member renamed: wherever the check compares an object with
the variants of a schema, and nowhere else. Records, dictionaries and untyped objects may
hold members of the same name, which stay as they are. No schema that the type leads to
may have a variant of either name, since two members of an object would get in each
other's way.

* `Table.mapNamed`, `Table.rename`: a table with other entries, and with another name for
  one of them; `Table.rename_rename`: to rename back gives the table back.
* `Json.renameTags`: the values with another name for the discriminator, as types say.
* `Ty.Spares`: no schema that a type leads to has a variant of a name.
* `Conforms.renameTags`, `Conforms.renameTags_back`: renamed values conform under the other
  discriminator, and renamed back they are what they were.
* `Compares.renameTags`: what the check compares is renamed where it stands.
* `check_renamed_discriminator`: all of this for accepted values.
-/
import JsonTypes.Proofs.Strictness
import JsonTypes.Proofs.CheckErrors
import JsonTypes.Proofs.Inhabitation
import JsonTypes.Json.Printer
import Mathlib.Data.Set.Function

namespace JsonTypes

/-! ### Tables -/

/-- The one name in the place of the other. -/
def renamed (old new name : String) : String :=
  if name = old then new else name

@[simp] lemma renamed_self (old new : String) : renamed old new old = new := if_pos rfl

lemma renamed_of_ne {old new name : String} (h : name ≠ old) : renamed old new name = name :=
  if_neg h

/-- A name that does not stand for the new one already is renamed back. -/
lemma renamed_renamed {old new name : String} (free : name = new → new = old) :
    renamed new old (renamed old new name) = name := by
  by_cases hold : name = old
  · rw [hold, renamed_self, renamed_self]
  · rw [renamed_of_ne hold]
    by_cases hnew : name = new
    · exact absurd (hnew.trans (free hnew)) hold
    · exact renamed_of_ne hnew

namespace Table

variable {α β γ : Type}

/-- The same names, each entry put through `f` with its name. -/
def mapNamed (f : String → α → β) (table : Table α) : Table β :=
  ⟨table.names, fun i => f (table.name i) (table.entry i)⟩

/-- The table with another name in the place of one. -/
def rename (old new : String) (table : Table α) : Table α :=
  .ofList (table.toList.map (Prod.map (renamed old new) id))

lemma find?_mapNamed (f : String → α → β) (table : Table α) (name : String) :
    (table.mapNamed f).find? name = (table.find? name).map (f name) := by
  refine Option.ext fun b => ?_
  rw [Option.map_eq_some_iff, find?_eq_some]
  constructor
  · rintro ⟨i, rfl, rfl⟩
    exact ⟨table.entry i, table.find?_name i, rfl⟩
  · rintro ⟨a, ha, rfl⟩
    obtain ⟨i, rfl, rfl⟩ := find?_eq_some.mp ha
    exact ⟨i, rfl, rfl⟩

lemma toList_mapNamed (f : String → α → β) (table : Table α) :
    (table.mapNamed f).toList = table.toList.map fun entry => (entry.1, f entry.1 entry.2) := by
  rw [toList, toList, List.map_map]
  rfl

lemma mapNamed_mapNamed (f : String → α → β) (g : String → β → γ) (table : Table α) :
    (table.mapNamed f).mapNamed g = table.mapNamed fun name a => g name (f name a) := rfl

/-- Entries that are what they were make the table that there was. -/
lemma mapNamed_eq_self {f : String → α → α} {table : Table α}
    (h : ∀ name a, table.find? name = some a → f name a = a) : table.mapNamed f = table :=
  ext_entries rfl fun i hi _ => h _ _ (table.find?_name ⟨i, hi⟩)

/-- A table is known from the list of its entries. -/
lemma eq_of_toList {a b : Table α} (h : a.toList = b.toList) : a = b := by
  have hnames : a.names.toList = b.names.toList := by
    rw [← map_fst_toList, ← map_fst_toList, h]
  refine ext_entries hnames fun i hi hi' => ?_
  have hentry : b.find? (a.name ⟨i, hi⟩) = some (a.entry ⟨i, hi⟩) := by
    rw [← mem_toList, ← h, mem_toList]
    exact a.find?_name _
  have hname : a.name ⟨i, hi⟩ = b.name ⟨i, hi'⟩ := List.getElem_of_eq hnames hi
  rw [hname, b.find?_name] at hentry
  exact (Option.some.inj hentry).symm

section Rename

variable {old new : String} {table : Table α}

/-- Where the new name is free, the other names and the order of entries stay. -/
lemma toList_rename (free : new ∈ table.names.toList → new = old) :
    (table.rename old new).toList = table.toList.map (Prod.map (renamed old new) id) := by
  refine toList_ofList ?_
  have hnames : (table.toList.map (Prod.map (renamed old new) id)).map Prod.fst =
      table.names.toList.map (renamed old new) := by
    rw [← map_fst_toList, List.map_map, List.map_map]
    rfl
  rw [hnames]
  refine List.Nodup.map_on (fun a ha b hb hab => ?_) table.names.nodup
  have hback := congrArg (renamed new old) hab
  rwa [renamed_renamed fun h => free (h ▸ ha), renamed_renamed fun h => free (h ▸ hb)] at hback

/-- What was found under a name is found under what has become of it. -/
lemma find?_rename (free : new ∈ table.names.toList → new = old) {name : String} {a : α}
    (h : table.find? name = some a) :
    (table.rename old new).find? (renamed old new name) = some a := by
  rw [← mem_toList, toList_rename free]
  exact List.mem_map_of_mem (mem_toList.mpr h)

lemma size_rename (free : new ∈ table.names.toList → new = old) :
    (table.rename old new).size = table.size := by
  rw [← length_toList, toList_rename free, List.length_map, length_toList]

/-- An entry under the new name may as well be changed before. -/
lemma mapNamed_rename (free : new ∈ table.names.toList → new = old) (f : String → α → β) :
    (table.rename old new).mapNamed f =
      (table.mapNamed fun name a => f (renamed old new name) a).rename old new := by
  have free' : new ∈ (table.mapNamed fun name a => f (renamed old new name) a).names.toList →
      new = old := free
  refine eq_of_toList ?_
  rw [toList_mapNamed, toList_rename free, toList_rename free', toList_mapNamed, List.map_map,
    List.map_map]
  rfl

/-- **To rename back gives the table back.** -/
lemma rename_rename (free : new ∈ table.names.toList → new = old) :
    (table.rename old new).rename new old = table := by
  have hnames : (table.rename old new).names.toList =
      table.names.toList.map (renamed old new) := by
    rw [← map_fst_toList, toList_rename free, ← map_fst_toList, List.map_map, List.map_map]
    rfl
  have free' : old ∈ (table.rename old new).names.toList → old = new := by
    intro h
    rw [hnames] at h
    obtain ⟨name, hname, hold⟩ := List.mem_map.mp h
    by_contra hne
    have hother : name ≠ old := by
      rintro rfl
      exact hne (hold.symm.trans (renamed_self ..))
    rw [renamed_of_ne hother] at hold
    exact hother hold
  refine eq_of_toList ?_
  rw [toList_rename free', toList_rename free, List.map_map]
  refine (List.map_congr_left fun entry hentry => ?_).trans (List.map_id _)
  have hname : entry.1 ∈ table.names.toList :=
    exists_find?.mp ⟨entry.2, mem_toList.mp hentry⟩
  exact Prod.ext (renamed_renamed fun h => free (h ▸ hname)) rfl

end Rename

end Table

/-! ### Values under another discriminator -/

/-- The shape of what stands under a declared name. -/
def Table.shapeOf? (bodies : Family) (declared : Table Ty) (name : String) : Option Shape :=
  (declared.find? name).bind fun t => t.shape? bodies

/-- The value with another name for the discriminator, wherever an object is compared with
variants. What stands under the name of a field or a variant is of its shape, and nothing
else is touched. -/
def Json.renameTags (bodies : Family) (old new : String) : Json → Option Shape → Json
  | .array ⟨length, item⟩, some (.items t) =>
    .array ⟨length, fun i => (item i).renameTags bodies old new (t.shape? bodies)⟩
  | .object ⟨names, entry⟩, some (.entries t) =>
    .object ⟨names, fun i => (entry i).renameTags bodies old new (t.shape? bodies)⟩
  | .object ⟨names, entry⟩, some (.fields declared) =>
    .object ⟨names, fun i =>
      (entry i).renameTags bodies old new (declared.shapeOf? bodies names.toList[i])⟩
  | .object ⟨names, entry⟩, some (.variants declared) =>
    .object (.rename old new ⟨names, fun i =>
      (entry i).renameTags bodies old new (declared.shapeOf? bodies names.toList[i])⟩)
  | v, _ => v

/-- A value of a type with another name for the discriminator. -/
def Ty.renameTags (bodies : Family) (old new : String) (t : Ty) (v : Json) : Json :=
  v.renameTags bodies old new (t.shape? bodies)

/-- No schema that a type leads to has a variant of the name. -/
def Ty.Spares (bodies : Family) (name : String) (t : Ty) : Prop :=
  ∀ i variants, t.Reveals bodies (.inst i) → i.factory.kind = .schema →
    bodies i = .ok variants → name ∉ variants.names.toList

section Renaming

variable {bodies : Family} {old new : String} {t : Ty} {v : Json}

namespace Ty

lemma Spares.mono {u : Ty} {name : String} (h : t.Spares bodies name)
    (hsub : ∀ r, u.Reveals bodies r → t.Reveals bodies r) : u.Spares bodies name :=
  fun i variants hi hkind hvariants => h i variants (hsub _ hi) hkind hvariants

lemma Spares.container {c : Container} {name : String}
    (h : (Ty.container c t).Spares bodies name) : t.Spares bodies name :=
  h.mono fun _ => .container

lemma Spares.field {declared : Table Ty} {name field : String}
    (h : (Ty.fields declared).Spares bodies name) (hfield : declared.find? field = some t) :
    t.Spares bodies name := by
  obtain ⟨k, -, rfl⟩ := Table.find?_eq_some.mp hfield
  exact h.mono fun _ => .field

lemma Spares.entries {i : Instance} {entries : Table Ty} {name : String}
    (h : (Ty.inst i).Spares bodies name) (hexpands : bodies i = .ok entries) :
    (Ty.fields entries).Spares bodies name :=
  h.mono fun _ => .entries hexpands

/-! Values of the several forms of types. -/

lemma renameTags_primitive (p : Primitive) : (primitive p).renameTags bodies old new v = v := by
  cases v <;> rfl

lemma renameTags_repeated (items : Row Json) :
    (container .repeated t).renameTags bodies old new (.array items) =
      .array (items.map (t.renameTags bodies old new)) := rfl

lemma renameTags_map (members : Table Json) :
    (container .map t).renameTags bodies old new (.object members) =
      .object (members.map (t.renameTags bodies old new)) := rfl

lemma renameTags_fields (declared : Table Ty) (members : Table Json) :
    (fields declared).renameTags bodies old new (.object members) =
      .object (members.mapNamed fun name w =>
        w.renameTags bodies old new (declared.shapeOf? bodies name)) := rfl

lemma renameTags_record {i : Instance} {entries : Table Ty} (kind : i.factory.kind = .record)
    (expands : bodies i = .ok entries) :
    (inst i).renameTags bodies old new v = (fields entries).renameTags bodies old new v := by
  simp only [renameTags, shape?, expands, kind]

lemma renameTags_schema {i : Instance} {variants : Table Ty} (kind : i.factory.kind = .schema)
    (expands : bodies i = .ok variants) (members : Table Json) :
    (inst i).renameTags bodies old new (.object members) =
      .object ((members.mapNamed fun name w =>
        w.renameTags bodies old new (variants.shapeOf? bodies name)).rename old new) := by
  simp only [renameTags, shape?, expands, kind]
  rfl

/-- Only null becomes null. -/
lemma renameTags_ne_null (h : v ≠ .null) : t.renameTags bodies old new v ≠ .null := by
  rw [renameTags]
  cases v with
  | null => exact absurd rfl h
  | boolean | number | string => nofun
  | array | object =>
      cases t.shape? bodies with
      | none => nofun
      | some shape => cases shape <;> nofun

end Ty

/-! ### Objects with a discriminator -/

lemma Table.shapeOf?_of_find? {declared : Table Ty} {name : String}
    (h : declared.find? name = some t) : declared.shapeOf? bodies name = t.shape? bodies := by
  rw [shapeOf?, h, Option.bind_some]

/-- The object of a schema names a variant, and the name of the discriminator is no variant. -/
structure Table.TagsVariant (variants : Table Ty) (discriminator : String) (members : Table Json)
    (constr : String) (payload : Json) : Prop where
  two : members.size = 2
  tag : members.find? discriminator = some (.string constr)
  held : members.find? constr = some payload
  spared : discriminator ∉ variants.names.toList
  variant : constr ∈ variants.names.toList

namespace Table.TagsVariant

variable {variants : Table Ty} {members : Table Json} {constr : String} {payload : Json}

lemma ne (h : variants.TagsVariant old members constr payload) : constr ≠ old := by
  rintro rfl
  exact h.spared h.variant

/-- The name of another discriminator is free, if it is no variant either. -/
lemma free (h : variants.TagsVariant old members constr payload)
    (spared : new ∉ variants.names.toList) (hnew : new ∈ members.names.toList) : new = old := by
  have hnames := (mem_names_of_size_two h.two h.tag h.held h.ne.symm new).mp hnew
  refine hnames.resolve_right ?_
  rintro rfl
  exact spared h.variant

/-- Its parts may be changed, but not the name of the variant. -/
lemma mapNamed (h : variants.TagsVariant old members constr payload) {f : String → Json → Json}
    (hf : f old (.string constr) = .string constr) :
    variants.TagsVariant old (members.mapNamed f) constr (f constr payload) where
  two := h.two
  tag := by rw [find?_mapNamed, h.tag, Option.map_some, hf]
  held := by rw [find?_mapNamed, h.held, Option.map_some]
  spared := h.spared
  variant := h.variant

/-- **After renaming, the object names the variant under the other discriminator.** -/
lemma rename (h : variants.TagsVariant old members constr payload)
    (spared : new ∉ variants.names.toList) :
    variants.TagsVariant new (members.rename old new) constr payload where
  two := (size_rename (h.free spared)).trans h.two
  tag := by
    have htag := find?_rename (h.free spared) h.tag
    rwa [renamed_self] at htag
  held := by
    have hheld := find?_rename (h.free spared) h.held
    rwa [renamed_of_ne h.ne] at hheld
  spared := spared
  variant := h.variant

/-- So it does if what it holds has been renamed as well. -/
lemma renameTags (bodies : Family) (h : variants.TagsVariant old members constr payload)
    (variant : variants.find? constr = some t) (spared : new ∉ variants.names.toList) :
    variants.TagsVariant new ((members.mapNamed fun name w =>
        w.renameTags bodies old new (variants.shapeOf? bodies name)).rename old new) constr
      (t.renameTags bodies old new payload) := by
  have hinner := h.mapNamed (f := fun name w =>
    w.renameTags bodies old new (variants.shapeOf? bodies name)) rfl
  rw [shapeOf?_of_find? variant] at hinner
  exact hinner.rename spared

end Table.TagsVariant

/-- The values of a schema are such objects. -/
lemma Ty.Spares.tagsVariant {i : Instance} {variants : Table Ty} {members : Table Json}
    {constr : String} {payload : Json} (spares : (Ty.inst i).Spares bodies old)
    (kind : i.factory.kind = .schema) (expands : bodies i = .ok variants) (two : members.size = 2)
    (tag : members.find? old = some (.string constr)) (variant : variants.find? constr = some t)
    (held : members.find? constr = some payload) :
    variants.TagsVariant old members constr payload :=
  ⟨two, tag, held, spares i variants (.here _) kind expands, Table.exists_find?.mp ⟨t, variant⟩⟩

/-! ### Accepted values -/

/-- **Renamed values conform under the other discriminator.** -/
lemma Conforms.renameTags (h : Conforms bodies old t v) (spares : t.Spares bodies old)
    (spares' : t.Spares bodies new) :
    Conforms bodies new t (t.renameTags bodies old new v) := by
  induction h with
  | primitive hpresent hkind =>
      rw [Ty.renameTags_primitive]
      exact .primitive hpresent hkind
  | absent => exact .absent
  | present _ ih => exact .present (ih spares.container spares'.container)
  | repeated _ ih => exact .repeated fun i => ih i spares.container spares'.container
  | map _ ih => exact .map fun i => ih i spares.container spares'.container
  | @fields declared members hkeys _ ih =>
      rw [Ty.renameTags_fields]
      refine .fields hkeys fun name t w ht hw => ?_
      rw [Table.find?_mapNamed, Option.map_eq_some_iff] at hw
      obtain ⟨v, hv, rfl⟩ := hw
      rw [Table.shapeOf?_of_find? ht]
      exact ih name t v ht hv (spares.field ht) (spares'.field ht)
  | record hkind hexpands _ ih =>
      rw [Ty.renameTags_record hkind hexpands]
      exact .record hkind hexpands (ih (spares.entries hexpands) (spares'.entries hexpands))
  | @schema i variants members constr shape payload hkind hexpands htwo htag hvariant hheld
      hpresent _ ih =>
      have htags := spares.tagsVariant hkind hexpands htwo htag hvariant hheld
      have hrenamed := htags.renameTags bodies hvariant
        (spares' i variants (.here _) hkind hexpands)
      rw [Ty.renameTags_schema hkind hexpands]
      have hinner := (spares.entries hexpands).field hvariant
      have hinner' := (spares'.entries hexpands).field hvariant
      exact .schema hkind hexpands hrenamed.two hrenamed.tag hvariant hrenamed.held
        (Ty.renameTags_ne_null hpresent) (ih hinner hinner')

/-- **Renamed back, they are what they were.** -/
lemma Conforms.renameTags_back (h : Conforms bodies old t v) (spares : t.Spares bodies old)
    (spares' : t.Spares bodies new) :
    t.renameTags bodies new old (t.renameTags bodies old new v) = v := by
  induction h with
  | primitive => rw [Ty.renameTags_primitive, Ty.renameTags_primitive]
  | absent => rfl
  | present _ ih => exact ih spares.container spares'.container
  | @repeated t items _ ih =>
      rw [Ty.renameTags_repeated, Ty.renameTags_repeated]
      have hitems := funext fun i => ih i spares.container spares'.container
      exact congrArg (fun item => Json.array ⟨items.length, item⟩) hitems
  | @map t members _ ih =>
      rw [Ty.renameTags_map, Ty.renameTags_map]
      have hentries := funext fun i => ih i spares.container spares'.container
      exact congrArg (fun entry => Json.object ⟨members.names, entry⟩) hentries
  | @fields declared members hkeys _ ih =>
      rw [Ty.renameTags_fields, Ty.renameTags_fields, Table.mapNamed_mapNamed]
      refine congrArg Json.object (Table.mapNamed_eq_self fun name w hw => ?_)
      have hname : name ∈ declared.names.toList :=
        (hkeys name).mp (Table.exists_find?.mp ⟨w, hw⟩)
      obtain ⟨t, ht⟩ := Table.exists_find?.mpr hname
      rw [Table.shapeOf?_of_find? ht]
      exact ih name t w ht hw (spares.field ht) (spares'.field ht)
  | record hkind hexpands _ ih =>
      rw [Ty.renameTags_record hkind hexpands, Ty.renameTags_record hkind hexpands]
      exact ih (spares.entries hexpands) (spares'.entries hexpands)
  | @schema i variants members constr shape payload hkind hexpands htwo htag hvariant hheld
      hpresent _ ih =>
      have htags := spares.tagsVariant hkind hexpands htwo htag hvariant hheld
      have hfree := htags.free (spares' i variants (.here _) hkind hexpands)
      rw [Ty.renameTags_schema hkind hexpands, Ty.renameTags_schema hkind hexpands,
        Table.mapNamed_rename (by exact hfree), Table.mapNamed_mapNamed,
        Table.rename_rename (by exact hfree)]
      refine congrArg Json.object (Table.mapNamed_eq_self fun name w hw => ?_)
      have hname := (Table.mem_names_of_size_two htwo htag hheld htags.ne.symm name).mp
        (Table.exists_find?.mp ⟨w, hw⟩)
      rcases hname with rfl | rfl
      · obtain rfl := Option.some.inj (hw.symm.trans htag)
        rfl
      · obtain rfl := Option.some.inj (hw.symm.trans hheld)
        rw [renamed_of_ne htags.ne, Table.shapeOf?_of_find? hvariant]
        exact ih ((spares.entries hexpands).field hvariant)
          ((spares'.entries hexpands).field hvariant)

/-- **What the check of an accepted value compares is renamed where it stands.** -/
lemma Compares.renameTags {u : Ty} {w : Json} {path : List Segment}
    (h : Compares bodies old t v path u w) (accepted : Conforms bodies old t v)
    (spares : t.Spares bodies old) (spares' : t.Spares bodies new) :
    Compares bodies new t (t.renameTags bodies old new v) path u
      (u.renameTags bodies old new w) := by
  induction h with
  | here t v => exact .here t _
  | optional hpresent _ ih =>
      cases accepted with
      | absent => exact absurd rfl hpresent
      | present hvalue =>
          exact .optional (Ty.renameTags_ne_null hpresent)
            (ih hvalue spares.container spares'.container)
  | item k _ ih =>
      cases accepted with
      | repeated heach =>
          rw [Ty.renameTags_repeated]
          exact .item (show Fin (Row.map _ _).length from k)
            (ih (heach k) spares.container spares'.container)
  | entry k _ ih =>
      cases accepted with
      | map heach =>
          rw [Ty.renameTags_map]
          exact .entry (show (Table.map _ _).names.Index from k)
            (ih (heach k) spares.container spares'.container)
  | field hdeclares hheld _ ih =>
      cases accepted with
      | fields _ heach =>
          rw [Ty.renameTags_fields]
          refine .field hdeclares ?_ (ih (heach _ _ _ hdeclares hheld) (spares.field hdeclares)
            (spares'.field hdeclares))
          rw [Table.find?_mapNamed, hheld, Option.map_some, Table.shapeOf?_of_find? hdeclares]
          rfl
  | record hkind hexpands _ ih =>
      cases accepted with
      | schema hschema => cases hkind.symm.trans hschema
      | record _ hexpands' hvalue =>
          obtain rfl := Except.ok.inj (hexpands.symm.trans hexpands')
          rw [Ty.renameTags_record hkind hexpands]
          exact .record hkind hexpands
            (ih hvalue (spares.entries hexpands) (spares'.entries hexpands))
  | @payload i variants members constr _ _ _ _ _ hkind hexpands htag hvariant hheld _ ih =>
      cases accepted with
      | record hrecord => cases hkind.symm.trans hrecord
      | schema _ hexpands' htwo htag' hvariant' hheld' _ hvalue =>
          obtain rfl := Except.ok.inj (hexpands.symm.trans hexpands')
          obtain rfl := Json.string.inj (Option.some.inj (htag.symm.trans htag'))
          obtain rfl := Option.some.inj (hvariant.symm.trans hvariant')
          obtain rfl := Option.some.inj (hheld.symm.trans hheld')
          have htags := spares.tagsVariant hkind hexpands htwo htag hvariant hheld
          have hrenamed := htags.renameTags bodies hvariant
            (spares' i variants (.here _) hkind hexpands)
          rw [Ty.renameTags_schema hkind hexpands]
          exact .payload hkind hexpands hrenamed.tag hvariant hrenamed.held
            (ih hvalue ((spares.entries hexpands).field hvariant)
              ((spares'.entries hexpands).field hvariant))

end Renaming

/-! ### The main statement -/

/-- The values that are accepted under a discriminator. -/
def Ty.accepted (bodies : Family) (config : Config) (t : Ty) (discriminator : String) : Set Json :=
  { v | ∃ w, (check bodies { config with discriminator := discriminator } t v).result = .ok w }

lemma Ty.mem_accepted {bodies : Family} {config : Config} {t : Ty} {discriminator : String}
    {v : Json} : v ∈ t.accepted bodies config discriminator ↔
      Conforms bodies discriminator t v :=
  exists_check_iff

/-- **The discriminator is only a name.** If no schema that a type leads to has a variant with
one of the two names, then the values that are accepted under the one discriminator become
those that are accepted under the other, by renaming the discriminator wherever an object is
compared with the variants of a schema. To rename it back is the inverse. Whatever is compared
is renamed where it stands. -/
theorem check_renamed_discriminator (bodies : Family) (config : Config) (t : Ty)
    (old new : String) (spares : t.Spares bodies old) (spares' : t.Spares bodies new) :
    Set.BijOn (t.renameTags bodies old new) (t.accepted bodies config old)
        (t.accepted bodies config new) ∧
      Set.InvOn (t.renameTags bodies new old) (t.renameTags bodies old new)
        (t.accepted bodies config old) (t.accepted bodies config new) ∧
      ∀ v ∈ t.accepted bodies config old, ∀ path u w, Compares bodies old t v path u w →
        Compares bodies new t (t.renameTags bodies old new v) path u
          (u.renameTags bodies old new w) := by
  have hback : Set.InvOn (t.renameTags bodies new old) (t.renameTags bodies old new)
      (t.accepted bodies config old) (t.accepted bodies config new) :=
    ⟨fun v hv => (Ty.mem_accepted.mp hv).renameTags_back spares spares',
      fun v hv => (Ty.mem_accepted.mp hv).renameTags_back spares' spares⟩
  have hmaps : Set.MapsTo (t.renameTags bodies old new) (t.accepted bodies config old)
      (t.accepted bodies config new) :=
    fun v hv => Ty.mem_accepted.mpr ((Ty.mem_accepted.mp hv).renameTags spares spares')
  have hmaps' : Set.MapsTo (t.renameTags bodies new old) (t.accepted bodies config new)
      (t.accepted bodies config old) :=
    fun v hv => Ty.mem_accepted.mpr ((Ty.mem_accepted.mp hv).renameTags spares' spares)
  exact ⟨hback.bijOn hmaps hmaps', hback, fun v hv path u w hcompares =>
    hcompares.renameTags (Ty.mem_accepted.mp hv) spares spares'⟩

/-- Dictionaries of lists of untyped objects. -/
def objectLists : Ty :=
  .container .map (.inst ⟨Prelude.list.factory, fun _ => .primitive .object⟩)

/-- Such lists lead to themselves only. -/
lemma objectLists_reveals {i : Instance} (h : objectLists.Reveals Prelude.bodies (.inst i)) :
    i = ⟨Prelude.list.factory, fun _ => .primitive .object⟩ := by
  have hreaches : ∀ j, Prelude.bodies.Reaches
      ⟨Prelude.list.factory, fun _ => .primitive .object⟩ j →
        j = ⟨Prelude.list.factory, fun _ => .primitive .object⟩ := by
    intro j hj
    induction hj with
    | refl => rfl
    | tail _ hchild ih =>
        rw [ih] at hchild
        refine (Prelude.list_child hchild).resolve_right ?_
        rintro ⟨guarded, hshows⟩
        cases hshows
  cases h with
  | container hinner =>
      rcases hinner.shows_or_exposes with ⟨_, hshows⟩ | ⟨_, j, k, guarded, hshows, hjk, hexposes⟩
      · exact Ty.inst.inj hshows.eq_of_inst
      · obtain rfl := Ty.inst.inj hshows.eq_of_inst
        exact hreaches i (hjk.tail ⟨guarded, hexposes⟩)

lemma objectLists_spares {name : String} (h : name ∉ ["Nil", "Cons"]) :
    objectLists.Spares Prelude.bodies name := by
  intro i variants hi _ hvariants
  rw [objectLists_reveals hi] at hvariants
  obtain rfl := Except.ok.inj hvariants
  exact h

/-- A dictionary with one list of one object: all three have a member `constr`. -/
def constrList : Json :=
  .ofMembers [("constr", .ofMembers [("constr", .string "Cons"), ("Cons", .ofMembers
    [("head", .ofMembers [("constr", .boolean true)]),
      ("tail", .ofMembers [("constr", .string "Nil"), ("Nil", .ofMembers [])])])])]

/-- The lists are renamed, and neither the dictionary nor the object. -/
theorem check_renamed_discriminator_lists :
    objectLists.Spares Prelude.bodies "constr" ∧ objectLists.Spares Prelude.bodies "kind" ∧
      constrList ∈ objectLists.accepted Prelude.bodies .standard "constr" ∧
      (objectLists.renameTags Prelude.bodies "constr" "kind" constrList).render =
        "\x7b\"constr\":\x7b\"kind\":\"Cons\",\"Cons\":\x7b\"head\":\x7b\"constr\":true\x7d," ++
          "\"tail\":\x7b\"kind\":\"Nil\",\"Nil\":\x7b\x7d\x7d\x7d\x7d\x7d" ∧
      objectLists.renameTags Prelude.bodies "constr" "kind" constrList ∈
        objectLists.accepted Prelude.bodies .standard "kind" := by
  have hold : objectLists.Spares Prelude.bodies "constr" := objectLists_spares (by decide)
  have hnew : objectLists.Spares Prelude.bodies "kind" := objectLists_spares (by decide)
  have haccepted : constrList ∈ objectLists.accepted Prelude.bodies .standard "constr" :=
    ⟨constrList, rfl⟩
  have hrenamed := check_renamed_discriminator Prelude.bodies .standard objectLists "constr"
    "kind" hold hnew
  exact ⟨hold, hnew, haccepted, rfl, hrenamed.1.mapsTo haccepted⟩

end JsonTypes
