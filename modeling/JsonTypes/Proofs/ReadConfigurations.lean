/-
Configuration objects are read exactly.

Whatever object a text starts with, a configuration is read from it if and only if every key is
that of a field, no key occurs twice, and every value is one that its field can have. The fields
that occur have these values then, and the others have the standard ones. The order of the members,
white space, escapes, and what follows the object play no part in that.

* `Field.IsSet`, `Field.IsStandard`: the value of a field, as it is written and where it is not.
* `Gives`: the configuration that the members of an object give.
* `Field.Holds`, `GivesOver`: the same for the fields that are read behind some others.
* `Field.read_iff`: a value that is one symbol.
* `exists_readMembers_member`, `readMembers_object`: what is read of one member, and of an object.
* `ofText_iff`: the configuration that is read of a text.
* `configurations_read_exactly`: the theorem.
-/
import JsonTypes.Config.Reader
import JsonTypes.Proofs.WrittenValues
import Mathlib.Data.List.Nodup

namespace JsonTypes.Config

open Json (Symbol Member Lexes WrittenAs)

/-! ### What is given -/

namespace Field

/-- The symbols are the value that a field has in a configuration. -/
def IsSet : Field → List Symbol → Config → Prop
  | discriminator, symbols, c => symbols = [.text c.discriminator]
  | debug, symbols, c => symbols = [.boolean c.debug]
  | maxDepth, symbols, c => ∃ n, symbols = [.number n] ∧ n.IsNatural c.maxDepth

/-- The symbols are a value that a field can have: a string, a boolean, or an integer without sign,
fraction and exponent. -/
def Accepts : Field → List Symbol → Prop
  | discriminator, symbols => ∃ s, symbols = [.text s]
  | debug, symbols => ∃ b, symbols = [.boolean b]
  | maxDepth, symbols => ∃ n k, symbols = [.number n] ∧ n.IsNatural k

/-- A field has its standard value in a configuration. -/
def IsStandard : Field → Config → Prop
  | discriminator, c => c.discriminator = standard.discriminator
  | debug, c => c.debug = standard.debug
  | maxDepth, c => c.maxDepth = standard.maxDepth

/-- The symbols are the value of a field that has been read. -/
def Holds : Field → List Symbol → Given → Prop
  | discriminator, symbols, g => ∃ s, symbols = [.text s] ∧ g.discriminator = some s
  | debug, symbols, g => ∃ b, symbols = [.boolean b] ∧ g.debug = some b
  | maxDepth, symbols, g => ∃ n k, symbols = [.number n] ∧ n.IsNatural k ∧ g.maxDepth = some k

/-- A field has been read in both cases with the same value, or in neither. -/
def Same : Field → Given → Given → Prop
  | discriminator, g, g' => g.discriminator = g'.discriminator
  | debug, g, g' => g.debug = g'.debug
  | maxDepth, g, g' => g.maxDepth = g'.maxDepth

/-- Takes over one field. -/
def put : Field → (source : Given) → Given → Given
  | discriminator, source, g => { g with discriminator := source.discriminator }
  | debug, source, g => { g with debug := source.debug }
  | maxDepth, source, g => { g with maxDepth := source.maxDepth }

variable {field other : Field} {g g' g'' : Given} {symbols : List Symbol}

lemma key_inj (h : field.key = other.key) : field = other := by
  cases field <;> cases other <;> first | rfl | exact absurd h (by decide)

lemma ofKey?_eq_some_iff {key : String} : ofKey? key = some field ↔ key = field.key := by
  constructor
  · intro h
    have hkey := List.find?_some h
    exact (eq_of_beq hkey).symm
  · rintro rfl
    cases field <;> rfl

lemma Same.symm (h : field.Same g g') : field.Same g' g := by
  cases field <;> exact Eq.symm h

lemma Same.trans (h : field.Same g g') (h' : field.Same g' g'') : field.Same g g'' := by
  cases field <;> exact Eq.trans h h'

lemma Same.has (h : field.Same g g') : g.has field = g'.has field := by
  cases field <;> exact congrArg Option.isSome h

lemma Same.holds (h : field.Same g g') (hg : field.Holds symbols g) : field.Holds symbols g' := by
  cases field with
  | discriminator =>
      obtain ⟨s, hs, hg⟩ := hg
      exact ⟨s, hs, Eq.trans (Eq.symm h) hg⟩
  | debug =>
      obtain ⟨b, hb, hg⟩ := hg
      exact ⟨b, hb, Eq.trans (Eq.symm h) hg⟩
  | maxDepth =>
      obtain ⟨n, k, hn, hk, hg⟩ := hg
      exact ⟨n, k, hn, hk, Eq.trans (Eq.symm h) hg⟩

lemma has_of_holds (h : field.Holds symbols g) : g.has field = true := by
  cases field with
  | discriminator =>
      obtain ⟨s, -, hg⟩ := h
      exact Option.isSome_iff_exists.mpr ⟨s, hg⟩
  | debug =>
      obtain ⟨b, -, hg⟩ := h
      exact Option.isSome_iff_exists.mpr ⟨b, hg⟩
  | maxDepth =>
      obtain ⟨_, k, -, -, hg⟩ := h
      exact Option.isSome_iff_exists.mpr ⟨k, hg⟩

lemma same_of_forall (h : ∀ field : Field, field.Same g g') : g = g' := by
  obtain ⟨s, b, k⟩ := g
  obtain ⟨s', b', k'⟩ := g'
  obtain rfl : s = s' := h discriminator
  obtain rfl : b = b' := h debug
  obtain rfl : k = k' := h maxDepth
  rfl

lemma put_same : field.Same g (field.put g g') := by
  cases field <;> rfl

lemma put_other (h : other ≠ field) : other.Same g' (field.put g g') := by
  cases field <;> cases other <;> first | rfl | exact absurd rfl h

end Field

/-- The members of an object are those of a configuration. -/
structure IsConfiguration (members : List Member) : Prop where
  accepted : ∀ member ∈ members, ∃ field : Field,
    member.key = field.key ∧ field.Accepts member.symbols
  once : (members.map Member.key).Nodup

/-- The configuration that the members of an object give. -/
structure Gives (members : List Member) (c : Config) : Prop where
  known : ∀ member ∈ members, ∃ field : Field, member.key = field.key
  once : (members.map Member.key).Nodup
  given : ∀ field : Field, ∀ member ∈ members, member.key = field.key →
    field.IsSet member.symbols c
  standard : ∀ field : Field, field.key ∉ members.map Member.key → field.IsStandard c

/-- A field has a value that is given for it, or its standard value. -/
lemma IsConfiguration.exists_isSet {members : List Member} (h : IsConfiguration members)
    (field : Field) :
    ∃ c, (∀ member ∈ members, member.key = field.key → field.IsSet member.symbols c) ∧
      (field.key ∉ members.map Member.key → field.IsStandard c) := by
  by_cases hkey : field.key ∈ members.map Member.key
  · obtain ⟨member, hmember, hfield⟩ := List.mem_map.mp hkey
    obtain ⟨other, hother, haccepts⟩ := h.accepted member hmember
    obtain rfl := Field.key_inj (hfield.symm.trans hother)
    have hset : ∃ c, field.IsSet member.symbols c := by
      cases field with
      | discriminator =>
          obtain ⟨s, hs⟩ := haccepts
          exact ⟨{ standard with discriminator := s }, hs⟩
      | debug =>
          obtain ⟨b, hb⟩ := haccepts
          exact ⟨{ standard with debug := b }, hb⟩
      | maxDepth =>
          obtain ⟨n, k, hn, hk⟩ := haccepts
          exact ⟨{ standard with maxDepth := k }, n, hn, hk⟩
    obtain ⟨c, hc⟩ := hset
    refine ⟨c, fun member' hmember' hfield' => ?_, fun hnot => absurd hkey hnot⟩
    rwa [List.inj_on_of_nodup_map h.once hmember' hmember (hfield'.trans hfield.symm)]
  · refine ⟨standard, fun member hmember hfield => ?_, fun _ => ?_⟩
    · exact absurd (List.mem_map.mpr ⟨member, hmember, hfield⟩) hkey
    · cases field <;> rfl

/-- The members of a configuration give one, and no other members do. -/
lemma exists_gives_iff {members : List Member} :
    (∃ c, Gives members c) ↔ IsConfiguration members := by
  constructor
  · rintro ⟨c, h⟩
    refine ⟨fun member hmember => ?_, h.once⟩
    obtain ⟨field, hkey⟩ := h.known member hmember
    have hset := h.given field member hmember hkey
    refine ⟨field, hkey, ?_⟩
    cases field with
    | discriminator => exact ⟨_, hset⟩
    | debug => exact ⟨_, hset⟩
    | maxDepth =>
        obtain ⟨n, hn, hk⟩ := hset
        exact ⟨n, _, hn, hk⟩
  · intro h
    obtain ⟨c₁, hset₁, hstandard₁⟩ := h.exists_isSet .discriminator
    obtain ⟨c₂, hset₂, hstandard₂⟩ := h.exists_isSet .debug
    obtain ⟨c₃, hset₃, hstandard₃⟩ := h.exists_isSet .maxDepth
    refine ⟨⟨c₁.discriminator, c₂.debug, c₃.maxDepth⟩, fun member hmember => ?_, h.once, ?_, ?_⟩
    · obtain ⟨field, hkey, -⟩ := h.accepted member hmember
      exact ⟨field, hkey⟩
    · intro field
      cases field with
      | discriminator => exact hset₁
      | debug => exact hset₂
      | maxDepth => exact hset₃
    · intro field
      cases field with
      | discriminator => exact hstandard₁
      | debug => exact hstandard₂
      | maxDepth => exact hstandard₃

/-- The order of the members plays no part. -/
lemma Gives.perm {members members' : List Member} {c : Config} (h : Gives members c)
    (hperm : members.Perm members') : Gives members' c where
  known member hmember := h.known member (hperm.mem_iff.mpr hmember)
  once := (hperm.map Member.key).nodup_iff.mp h.once
  given field member hmember := h.given field member (hperm.mem_iff.mpr hmember)
  standard field hfield := h.standard field fun hmem =>
    hfield ((hperm.map Member.key).mem_iff.mp hmem)

/-- What has been read behind the members, if `given` has been read in front of them. -/
structure GivesOver (given : Given) (members : List Member) (g : Given) : Prop where
  known : ∀ member ∈ members, ∃ field : Field, member.key = field.key ∧ given.has field = false
  once : (members.map Member.key).Nodup
  holds : ∀ field : Field, ∀ member ∈ members, member.key = field.key →
    field.Holds member.symbols g
  same : ∀ field : Field, field.key ∉ members.map Member.key → field.Same given g

/-- What has been read behind one member. -/
structure Adds (given : Given) (member : Member) (g : Given) (field : Field) : Prop where
  key : member.key = field.key
  free : given.has field = false
  holds : field.Holds member.symbols g
  same : ∀ other, other ≠ field → other.Same given g

section Given

variable {given g : Given} {member : Member} {members : List Member}

lemma givesOver_nil : GivesOver given [] g ↔ g = given := by
  constructor
  · exact fun h => (Field.same_of_forall fun field => h.same field List.not_mem_nil).symm
  · rintro rfl
    exact ⟨List.forall_mem_nil _, .nil, fun _ => List.forall_mem_nil _,
      fun field _ => by cases field <;> rfl⟩

/-- The first member adds its field to what has been read in front of it. -/
lemma GivesOver.exists_adds (h : GivesOver given (member :: members) g) :
    ∃ field next, Adds given member next field ∧ GivesOver next members g := by
  obtain ⟨⟨field, hkey, hfree⟩, hknown⟩ := List.forall_mem_cons.mp h.known
  obtain ⟨hnew, honce⟩ := List.nodup_cons.mp h.once
  have hadds : Adds given member (field.put g given) field := by
    refine ⟨hkey, hfree, ?_, fun other hother => Field.put_other hother⟩
    exact Field.put_same.holds (h.holds field member List.mem_cons_self hkey)
  refine ⟨field, field.put g given, hadds, ?_, honce, ?_, ?_⟩
  · intro next hnext
    obtain ⟨other, hother, hfree'⟩ := hknown next hnext
    have hne : other ≠ field := by
      rintro rfl
      exact hnew (List.mem_map.mpr ⟨next, hnext, hother.trans hkey.symm⟩)
    exact ⟨other, hother, (hadds.same other hne).has.symm.trans hfree'⟩
  · exact fun other next hnext => h.holds other next (List.mem_cons_of_mem _ hnext)
  · intro other hother
    by_cases heq : other = field
    · subst heq
      exact Field.put_same.symm
    · have hlater : other.key ∉ (member :: members).map Member.key := by
        rw [List.map_cons, List.mem_cons, hkey]
        exact not_or.mpr ⟨fun h => heq (Field.key_inj h), hother⟩
      exact (hadds.same other heq).symm.trans (h.same other hlater)

lemma Adds.givesOver {next : Given} {field : Field} (hadds : Adds given member next field)
    (h : GivesOver next members g) : GivesOver given (member :: members) g := by
  -- the field of the first member has been read, so that no other member has its key
  have hread : next.has field = true := Field.has_of_holds hadds.holds
  have hnew : ∀ other ∈ members, other.key ≠ member.key := by
    intro other hother heq
    obtain ⟨field', hfield', hfree⟩ := h.known other hother
    obtain rfl := Field.key_inj (hfield'.symm.trans (heq.trans hadds.key))
    rw [hread] at hfree
    cases hfree
  have hkey : member.key ∉ members.map Member.key := by
    intro hmem
    obtain ⟨other, hother, heq⟩ := List.mem_map.mp hmem
    exact hnew other hother heq
  refine ⟨?_, List.nodup_cons.mpr ⟨hkey, h.once⟩, ?_, ?_⟩
  · refine List.forall_mem_cons.mpr ⟨⟨field, hadds.key, hadds.free⟩, fun other hother => ?_⟩
    obtain ⟨field', hfield', hfree⟩ := h.known other hother
    have hne : field' ≠ field := by
      rintro rfl
      exact hnew other hother (hfield'.trans hadds.key.symm)
    exact ⟨field', hfield', (hadds.same field' hne).has.trans hfree⟩
  · intro field'
    refine List.forall_mem_cons.mpr ⟨fun hfirst => ?_, h.holds field'⟩
    obtain rfl := Field.key_inj (hfirst.symm.trans hadds.key)
    exact (h.same field' (hfirst ▸ hkey)).holds hadds.holds
  · intro field' hmem
    rw [List.map_cons, List.mem_cons, not_or] at hmem
    have hne : field' ≠ field := by
      rintro rfl
      exact hmem.1 hadds.key.symm
    exact (hadds.same field' hne).trans (h.same field' hmem.2)

/-- The members are read one after the other. -/
lemma givesOver_cons : GivesOver given (member :: members) g ↔
    ∃ field next, Adds given member next field ∧ GivesOver next members g := by
  constructor
  · exact GivesOver.exists_adds
  · rintro ⟨field, next, hadds, h⟩
    exact hadds.givesOver h

/-- The fields of a configuration that occur among the members. -/
def givenBy (members : List Member) (c : Config) : Given :=
  let keys := members.map Member.key
  ⟨if Field.discriminator.key ∈ keys then some c.discriminator else .none,
    if Field.debug.key ∈ keys then some c.debug else .none,
    if Field.maxDepth.key ∈ keys then some c.maxDepth else .none⟩

lemma holds_givenBy {c : Config} {field : Field}
    (hkey : field.key ∈ members.map Member.key) {symbols : List Symbol}
    (h : field.IsSet symbols c) : field.Holds symbols (givenBy members c) := by
  cases field with
  | discriminator => exact ⟨_, h, if_pos hkey⟩
  | debug => exact ⟨_, h, if_pos hkey⟩
  | maxDepth =>
      obtain ⟨n, hn, hk⟩ := h
      exact ⟨n, _, hn, hk, if_pos hkey⟩

lemma same_givenBy {c : Config} {field : Field}
    (hkey : field.key ∉ members.map Member.key) : field.Same .none (givenBy members c) := by
  cases field <;> exact (if_neg hkey).symm

/-- Nothing is lost of a configuration whose other fields have the standard values. -/
lemma config_givenBy {c : Config}
    (h : ∀ field : Field, field.key ∉ members.map Member.key → field.IsStandard c) :
    (givenBy members c).config = c := by
  have hkept : ∀ {α : Type} {field : Field} {value default : α},
      (field.key ∉ members.map Member.key → value = default) →
      (if field.key ∈ members.map Member.key then some value else .none).getD default = value := by
    intro α field value default hvalue
    split_ifs with hkey
    · rfl
    · exact (hvalue hkey).symm
  unfold Given.config
  congr
  · exact hkept (h .discriminator)
  · exact hkept (h .debug)
  · exact hkept (h .maxDepth)

/-- If nothing has been read in front of the members, they give the configuration of what is
read. -/
lemma gives_iff {c : Config} :
    Gives members c ↔ ∃ g, GivesOver .none members g ∧ g.config = c := by
  constructor
  · intro h
    refine ⟨givenBy members c, ⟨fun member hmember => ?_, h.once,
      fun field member hmember hkey => ?_, fun field => same_givenBy⟩, config_givenBy h.standard⟩
    · obtain ⟨field, hkey⟩ := h.known member hmember
      exact ⟨field, hkey, by cases field <;> rfl⟩
    · have hmem : field.key ∈ members.map Member.key :=
        List.mem_map.mpr ⟨member, hmember, hkey⟩
      exact holds_givenBy hmem (h.given field member hmember hkey)
  · rintro ⟨g, h, rfl⟩
    refine ⟨fun member hmember => ?_, h.once, fun field member hmember hkey => ?_,
      fun field hfield => ?_⟩
    · obtain ⟨field, hkey, -⟩ := h.known member hmember
      exact ⟨field, hkey⟩
    · have hholds := h.holds field member hmember hkey
      cases field with
      | discriminator =>
          obtain ⟨s, hs, hg⟩ := hholds
          rw [hs, Field.IsSet, Given.config, hg, Option.getD_some]
      | debug =>
          obtain ⟨b, hb, hg⟩ := hholds
          rw [hb, Field.IsSet, Given.config, hg, Option.getD_some]
      | maxDepth =>
          obtain ⟨n, k, hn, hk, hg⟩ := hholds
          refine ⟨n, hn, ?_⟩
          rwa [Given.config, hg, Option.getD_some]
    · have hsame := h.same field hfield
      cases field with
      | discriminator => exact congrArg (Option.getD · _) hsame.symm
      | debug => exact congrArg (Option.getD · _) hsame.symm
      | maxDepth => exact congrArg (Option.getD · _) hsame.symm

end Given

/-! ### One value -/

section Values

variable {field : Field} {path : ConfigPath} {given g : Given} {token : Token} {symbol : Symbol}
  {symbols : List Symbol}

lemma eq_text_of_isRead {s : String} (h : symbol.IsRead (.text (.ok s))) : symbol = .text s := by
  cases symbol with
  | text s' =>
      cases h
      rfl
  | number n =>
      obtain ⟨_, h, -⟩ := h
      cases h
  | _ => cases h

lemma eq_boolean_of_isRead {b : Bool} (h : symbol.IsRead (.literal (.ok (.boolean b)))) :
    symbol = .boolean b := by
  cases symbol with
  | boolean b' =>
      cases h
      rfl
  | number n =>
      obtain ⟨result, h, -⟩ := h
      cases result <;> cases h
  | _ => cases h

lemma exists_number_of_isRead {k : ℕ}
    (h : symbol.IsRead (.literal (.ok (.number (.integer k))))) :
    ∃ n, symbol = .number n ∧ n.IsNatural k := by
  cases symbol with
  | number n =>
      obtain ⟨result, h, hnatural⟩ := h
      refine ⟨n, rfl, (hnatural k).mp ?_⟩
      cases result with
      | error e => cases h
      | ok x =>
          cases h
          rfl
  | _ => cases h

lemma Field.holds_of_read (hread : symbol.IsRead token.lexeme)
    (h : field.read path given token = .ok g) :
    field.Holds [symbol] g ∧ ∀ other, other ≠ field → other.Same given g := by
  unfold Field.read at h
  split at h
  · rename_i s hlexeme
    cases h
    rw [hlexeme] at hread
    refine ⟨⟨s, by rw [eq_text_of_isRead hread], rfl⟩, fun other hother => ?_⟩
    cases other <;> first | rfl | exact absurd rfl hother
  · rename_i b hlexeme
    cases h
    rw [hlexeme] at hread
    refine ⟨⟨b, by rw [eq_boolean_of_isRead hread], rfl⟩, fun other hother => ?_⟩
    cases other <;> first | rfl | exact absurd rfl hother
  · rename_i k hlexeme
    split at h
    · rename_i hk
      cases h
      obtain ⟨k, rfl⟩ := Int.eq_ofNat_of_zero_le hk
      rw [hlexeme] at hread
      obtain ⟨n, rfl, hn⟩ := exists_number_of_isRead hread
      refine ⟨⟨n, k, rfl, hn, rfl⟩, fun other hother => ?_⟩
      cases other <;> first | rfl | exact absurd rfl hother
    · cases h
  · cases h

lemma Field.read_of_holds (hread : symbol.IsRead token.lexeme) (hholds : field.Holds [symbol] g)
    (hothers : ∀ other, other ≠ field → other.Same given g) :
    field.read path given token = .ok g := by
  unfold Field.read
  cases field with
  | discriminator =>
      obtain ⟨s, hs, hg⟩ := hholds
      cases hs
      rw [show token.lexeme = _ from hread]
      refine congrArg Except.ok (Field.same_of_forall fun other => ?_)
      cases other with
      | discriminator => exact hg.symm
      | debug => exact hothers .debug nofun
      | maxDepth => exact hothers .maxDepth nofun
  | debug =>
      obtain ⟨b, hb, hg⟩ := hholds
      cases hb
      rw [show token.lexeme = _ from hread]
      refine congrArg Except.ok (Field.same_of_forall fun other => ?_)
      cases other with
      | discriminator => exact hothers .discriminator nofun
      | debug => exact hg.symm
      | maxDepth => exact hothers .maxDepth nofun
  | maxDepth =>
      obtain ⟨n, k, hn, hk, hg⟩ := hholds
      cases hn
      obtain ⟨result, hlexeme, hnatural⟩ := hread
      rw [hlexeme, (hnatural k).mpr hk]
      refine (if_pos (Int.natCast_nonneg k)).trans
        (congrArg Except.ok (Field.same_of_forall fun other => ?_))
      cases other with
      | discriminator => exact hothers .discriminator nofun
      | debug => exact hothers .debug nofun
      | maxDepth => exact hg.symm

/-- A value that is one symbol. -/
lemma Field.read_iff (hread : symbol.IsRead token.lexeme) :
    field.read path given token = .ok g ↔
      field.Holds [symbol] g ∧ ∀ other, other ≠ field → other.Same given g :=
  ⟨Field.holds_of_read hread, fun h => Field.read_of_holds hread h.1 h.2⟩

lemma Field.not_broken_of_read (h : field.read path given token = .ok g) :
    token.lexeme.isBroken = false := by
  unfold Field.read at h
  split at h
  · rename_i hlexeme
    rw [hlexeme]
    rfl
  · rename_i hlexeme
    rw [hlexeme]
    rfl
  · rename_i hlexeme
    rw [hlexeme]
    rfl
  · cases h

/-- An array or object is no value of a field. -/
lemma Field.not_holds_opened (hopens : symbol = .openBracket ∨ symbol = .openBrace) :
    ¬ field.Holds (symbol :: symbols) g := by
  intro h
  cases field with
  | discriminator =>
      obtain ⟨s, hs, -⟩ := h
      cases hs
      rcases hopens with h | h <;> cases h
  | debug =>
      obtain ⟨b, hb, -⟩ := h
      cases hb
      rcases hopens with h | h <;> cases h
  | maxDepth =>
      obtain ⟨n, k, hn, -⟩ := h
      cases hn
      rcases hopens with h | h <;> cases h

/-- Nor is it read as one. -/
lemma Field.read_opened (hread : symbol.IsRead token.lexeme)
    (hopens : symbol = .openBracket ∨ symbol = .openBrace) :
    field.read path given token ≠ .ok g :=
  fun h => Field.not_holds_opened hopens ((Field.read_iff hread).mp h).1

/-- A value is one symbol, or the first one opens an array or object. -/
lemma written_eq_cons {v : Json} (h : WrittenAs v symbols) :
    ∃ symbol rest, symbols = symbol :: rest ∧
      (rest = [] ∨ symbol = .openBracket ∨ symbol = .openBrace) := by
  cases h with
  | array items _ => exact ⟨_, _, rfl, .inr (.inl rfl)⟩
  | object members _ => exact ⟨_, _, rfl, .inr (.inr rfl)⟩
  | _ => exact ⟨_, [], rfl, .inl rfl⟩

end Values

/-! ### Objects -/

section Objects

variable {given g : Given} {member : Member} {members : List Member} {finish p : Place}
  {stage : MemberStage} {text tail : List Char} {symbol : Symbol} {symbols : List Symbol}

lemma readMembers_complete (tokens : List Token) :
    readMembers finish .complete given tokens = .ok given := by
  cases tokens <;> rfl

/-- One token of an object, and the others. -/
lemma readMembers_cons_ok (stage : MemberStage) {token : Token} {rest : List Token}
    (hstage : stage ≠ .complete) :
    readMembers finish stage given (token :: rest) = .ok g ↔
      ∃ later next, stepMember stage (behindKey finish rest) given token = .ok (later, next) ∧
        readMembers finish later next rest = .ok g := by
  rw [readMembers, if_neg hstage]
  cases stepMember stage (behindKey finish rest) given token with
  | error e => simp
  | ok result =>
      obtain ⟨later, next⟩ := result
      simp

/-- A key is accepted if it is that of a field that has not been read. -/
lemma readKey_ok_iff {behind : Place} {token : Token} {key : String} {field : Field}
    (hlexeme : token.lexeme = .text (.ok key)) :
    readKey behind given token = .ok field ↔ key = field.key ∧ given.has field = false := by
  unfold readKey
  rw [hlexeme, ← Field.ofKey?_eq_some_iff]
  simp only
  split
  · rename_i hnone
    simp [hnone]
  · rename_i other hother
    rw [hother, Option.some.injEq]
    split_ifs with hhas
    · refine iff_of_false nofun ?_
      rintro ⟨rfl, hfree⟩
      rw [hhas] at hfree
      cases hfree
    · constructor
      · intro h
        cases h
        exact ⟨rfl, Bool.eq_false_iff.mpr hhas⟩
      · rintro ⟨rfl, -⟩
        rfl

lemma stepMember_key {behind : Place} {token : Token} {key : String}
    (hstage : stage = .firstKey ∨ stage = .key) (hlexeme : token.lexeme = .text (.ok key)) :
    stepMember stage behind given token =
      (readKey behind given token).map fun field => (.colon field, given) := by
  unfold stepMember
  rw [hlexeme]
  rcases hstage with rfl | rfl <;> rfl

lemma stepMember_colon {behind : Place} {token : Token} {field : Field}
    (hlexeme : token.lexeme = .colon) :
    stepMember (.colon field) behind given token = .ok (.value field, given) := by
  unfold stepMember
  rw [hlexeme]

lemma stepMember_value {behind : Place} {token : Token} {field : Field} :
    stepMember (.value field) behind given token =
      (field.read (.key field.key) given token).map fun given => (.separator, given) := by
  unfold stepMember
  split
  all_goals first | rfl | simp_all

/-- What follows some symbols. -/
lemma exists_rest {front : List Symbol} (h : Lexes tail text (front ++ symbols)) :
    ∃ text', Lexes tail text' symbols := by
  induction front generalizing text with
  | nil => exact ⟨text, h⟩
  | cons symbol front ih =>
      obtain ⟨token, rest, q, -, hlater, -⟩ := h.exists_token .start
      exact ih hlater

/-- The value of a member. What follows it does not depend on what has been read. -/
lemma exists_readMembers_value {v : Json} {rest : List Symbol} (hv : WrittenAs v symbols)
    (h : Lexes tail text (symbols ++ rest)) (finish p : Place) :
    ∃ text' q, Lexes tail text' rest ∧ ∀ (field : Field) (given g : Given),
      readMembers finish (.value field) given (tokensFrom p 0 text) = .ok g ↔
        ∃ next, (field.Holds symbols next ∧ ∀ other, other ≠ field → other.Same given next) ∧
          readMembers finish .separator next (tokensFrom q 0 text') = .ok g := by
  have hall := h
  obtain ⟨symbol, others, rfl, hothers⟩ := written_eq_cons hv
  obtain ⟨token, text', q, hread, hlater, htokens⟩ := h.exists_token p
  have hstep : ∀ (field : Field) (given g : Given),
      readMembers finish (.value field) given (tokensFrom p 0 text) = .ok g ↔
        ∃ next, field.read (.key field.key) given token = .ok next ∧
          readMembers finish .separator next (tokensFrom q 0 text') = .ok g := by
    intro field given g
    rw [htokens, readMembers_cons_ok (.value field) nofun]
    simp only [stepMember_value, except_map_ok]
    constructor
    · rintro ⟨_, next, ⟨_, hnext, ⟨⟩⟩, hrest⟩
      rw [Field.not_broken_of_read hnext] at hrest
      exact ⟨next, hnext, hrest⟩
    · rintro ⟨next, hnext, hrest⟩
      refine ⟨.separator, next, ⟨next, hnext, rfl⟩, ?_⟩
      rw [Field.not_broken_of_read hnext]
      exact hrest
  rcases hothers with rfl | hopens
  · refine ⟨text', q, hlater, fun field given g => ?_⟩
    simp only [hstep, Field.read_iff hread]
  · obtain ⟨text', hrest⟩ := exists_rest hall
    refine ⟨text', q, hrest, fun field given g => ?_⟩
    rw [hstep]
    refine iff_of_false ?_ ?_
    · rintro ⟨next, hnext, -⟩
      exact Field.read_opened hread hopens hnext
    · rintro ⟨next, ⟨hholds, -⟩, -⟩
      exact Field.not_holds_opened hopens hholds

/-- A member, from its key on. -/
lemma exists_readMembers_member {v : Json} {rest : List Symbol} (hv : WrittenAs v member.symbols)
    (h : Lexes tail text (member.written ++ rest)) (hstage : stage = .firstKey ∨ stage = .key)
    (finish p : Place) :
    ∃ text' q, Lexes tail text' rest ∧ ∀ given g : Given,
      readMembers finish stage given (tokensFrom p 0 text) = .ok g ↔
        ∃ field next, Adds given member next field ∧
          readMembers finish .separator next (tokensFrom q 0 text') = .ok g := by
  have hne : stage ≠ .complete := by
    rcases hstage with rfl | rfl <;> nofun
  obtain ⟨key, text₁, q₁, hkey, hlater₁, htokens₁⟩ := h.exists_token p
  obtain ⟨colon, text₂, q₂, hcolon, hlater₂, htokens₂⟩ := hlater₁.exists_token q₁
  obtain ⟨text', q, hlater, hvalue⟩ := exists_readMembers_value hv hlater₂ finish q₂
  refine ⟨text', q, hlater, fun given g => ?_⟩
  have hkey : key.lexeme = .text (.ok member.key) := hkey
  have hcolon : colon.lexeme = .colon := hcolon
  have htokens : tokensFrom p 0 text = key :: colon :: tokensFrom q₂ 0 text₂ := by
    rw [htokens₁, htokens₂, hkey, hcolon]
    rfl
  rw [htokens, readMembers_cons_ok _ hne, stepMember_key hstage hkey]
  simp only [except_map_ok, readKey_ok_iff hkey]
  constructor
  · rintro ⟨_, _, ⟨field, ⟨hfield, hfree⟩, ⟨⟩⟩, hrest⟩
    obtain ⟨_, _, hcolon', hrest⟩ :=
      (readMembers_cons_ok (.colon field) nofun).mp hrest
    rw [stepMember_colon hcolon] at hcolon'
    cases hcolon'
    obtain ⟨next, ⟨hholds, hsame⟩, hrest⟩ := (hvalue field given g).mp hrest
    exact ⟨field, next, ⟨hfield, hfree, hholds, hsame⟩, hrest⟩
  · rintro ⟨field, next, ⟨hfield, hfree, hholds, hsame⟩, hrest⟩
    refine ⟨.colon field, given, ⟨field, ⟨hfield, hfree⟩, rfl⟩, ?_⟩
    refine (readMembers_cons_ok (.colon field) nofun).mpr
      ⟨.value field, given, stepMember_colon hcolon, ?_⟩
    exact (hvalue field given g).mpr ⟨next, ⟨hholds, hsame⟩, hrest⟩

/-- The end of an object. -/
lemma readMembers_closed (hstage : stage = .firstKey ∨ stage = .separator)
    (h : Lexes tail text [.closeBrace]) :
    readMembers finish stage given (tokensFrom p 0 text) = .ok g ↔ g = given := by
  obtain ⟨token, text', q, hbrace, -, htokens⟩ := h.exists_token p
  have hbrace : token.lexeme = .closeBrace := hbrace
  have hne : stage ≠ .complete := by
    rcases hstage with rfl | rfl <;> nofun
  have hstep : ∀ behind, stepMember stage behind given token = .ok (.complete, given) := by
    intro behind
    unfold stepMember
    rw [hbrace]
    rcases hstage with rfl | rfl <;> rfl
  rw [htokens, readMembers_cons_ok _ hne, hstep]
  simpa [readMembers_complete] using eq_comm

/-- The members behind a member. -/
lemma readMembers_others (hmembers : ∀ member ∈ members, ∃ v, WrittenAs v member.symbols)
    (h : Lexes tail text
      ((members.map Member.written).flatMap (Symbol.comma :: ·) ++ [.closeBrace])) :
    readMembers finish .separator given (tokensFrom p 0 text) = .ok g ↔
      GivesOver given members g := by
  induction members generalizing text given p with
  | nil =>
      exact (readMembers_closed (.inr rfl) h).trans givesOver_nil.symm
  | cons member members ih =>
      obtain ⟨⟨v, hv⟩, hmembers⟩ := List.forall_mem_cons.mp hmembers
      rw [List.map_cons, List.flatMap_cons, List.cons_append, List.cons_append,
        List.append_assoc] at h
      obtain ⟨token, text₁, q₁, hcomma, hlater₁, htokens⟩ := h.exists_token p
      obtain ⟨text', q, hlater, hmember⟩ :=
        exists_readMembers_member hv hlater₁ (.inr rfl) finish q₁
      have hcomma : token.lexeme = .comma := hcomma
      have hstep : readMembers finish .separator given (tokensFrom p 0 text) = .ok g ↔
          readMembers finish .key given (tokensFrom q₁ 0 text₁) = .ok g := by
        rw [htokens, readMembers_cons_ok .separator nofun]
        simp [stepMember, hcomma, Lexeme.isBroken]
      simp only [hstep, hmember, givesOver_cons, ih hmembers hlater]

/-- **What is read of an object.** -/
lemma readMembers_object (hmembers : ∀ member ∈ members, ∃ v, WrittenAs v member.symbols)
    (h : Lexes tail text (Json.commaSeparated (members.map Member.written) ++ [.closeBrace])) :
    readMembers finish .firstKey given (tokensFrom p 0 text) = .ok g ↔
      GivesOver given members g := by
  cases members with
  | nil =>
      exact (readMembers_closed (.inl rfl) h).trans givesOver_nil.symm
  | cons member members =>
      obtain ⟨⟨v, hv⟩, hmembers⟩ := List.forall_mem_cons.mp hmembers
      rw [List.map_cons, Json.commaSeparated, List.append_assoc] at h
      obtain ⟨text', q, hlater, hmember⟩ :=
        exists_readMembers_member hv h (.inl rfl) finish p
      simp only [hmember, givesOver_cons, readMembers_others hmembers hlater]

end Objects

/-! ### Texts -/

/-- The text starts, behind white space, with an object that has these members. Anything may
follow. -/
def StartsWithObject (text : String) (members : List Member) : Prop :=
  (∀ member ∈ members, ∃ v, WrittenAs v member.symbols) ∧
    ∃ tail, Lexes tail text.toList (Json.objectSymbols members)

/-- The configuration that is read is the one that the members give. -/
lemma ofText_iff {text : String} {members : List Member} {c : Config}
    (h : StartsWithObject text members) : ofText text = .ok c ↔ Gives members c := by
  obtain ⟨hmembers, tail, hlexes⟩ := h
  obtain ⟨token, rest, q, hbrace, hlater, htokens⟩ := hlexes.exists_token .start
  have hbrace : token.lexeme = .openBrace := hbrace
  have hgiven : Given.ofTokens (.ofText text) =
      readMembers (Place.start.advanceAll text.toList) .firstKey .none (tokensFrom q 0 rest) := by
    rw [hbrace] at htokens
    simp only [Given.ofTokens, Tokens.ofText, htokens, hbrace]
    rfl
  rw [ofText, except_map_ok, hgiven, gives_iff]
  simp only [readMembers_object hmembers hlater]

/-- An object that can be read starts every text that goes on behind it. -/
lemma exists_startsWithObject {limit : ℕ} {object : String} {m : Table Json}
    (h : Json.ofText limit object = .ok (.object m)) (extra : String) :
    ∃ members, StartsWithObject (object ++ extra) members := by
  obtain ⟨symbols, hwritten, hlexes⟩ := Json.exists_written_of_ofText h
  generalize hv : Json.object m = v at hwritten
  cases hwritten with
  | object members hmembers =>
      refine ⟨members.map Prod.snd, List.forall_mem_map.mpr fun member hmember => ?_,
        [] ++ extra.toList, ?_⟩
      · exact ⟨member.1, hmembers member hmember⟩
      · rw [String.toList_append]
        refine hlexes.append_right extra.toList fun n hn => ?_
        rw [Json.objectSymbols, ← List.cons_append, List.getLast?_concat] at hn
        cases hn
  | _ => cases hv

/-- **Configuration objects are read exactly.** Every text that starts with an object that can be
read starts with an object that has some members, whatever follows it. A configuration is read from
such a text if and only if every key is that of a field, no key occurs twice, and every value is
one that its field can have. It is the one that the members give, so that it does not depend on
how and in which order they are written. -/
theorem configurations_read_exactly :
    (∀ (limit : ℕ) (object extra : String) (m : Table Json),
      Json.ofText limit object = .ok (.object m) →
        ∃ members, StartsWithObject (object ++ extra) members) ∧
    (∀ (text : String) (members : List Member), StartsWithObject text members →
      ((∃ c, ofText text = .ok c) ↔ IsConfiguration members) ∧
        ∀ c, ofText text = .ok c ↔ Gives members c) ∧
    ∀ (text text' : String) (members members' : List Member), StartsWithObject text members →
      StartsWithObject text' members' → members.Perm members' →
        ∀ c, ofText text = .ok c ↔ ofText text' = .ok c := by
  refine ⟨fun limit object extra m h => exists_startsWithObject h extra, fun text members h => ?_,
    fun text text' members members' h h' hperm c => ?_⟩
  · refine ⟨?_, fun c => ofText_iff h⟩
    simp only [ofText_iff h, exists_gives_iff]
  · rw [ofText_iff h, ofText_iff h']
    exact ⟨fun hc => hc.perm hperm, fun hc => hc.perm hperm.symm⟩

/-! ### The same members in another order -/

namespace Swapped

/-- The numeral 5. -/
def five : Numeral := ⟨false, ['5'], [], []⟩

/-- A member that sets the depth limit. -/
def depth : Member := ⟨"max_definition_depth", [.number five]⟩

/-- A member that asks for reports. -/
def shown : Member := ⟨"debug", [.boolean true]⟩

lemma five_isNatural : five.IsNatural 5 := ⟨rfl, rfl, rfl, rfl, by decide⟩

lemma spells_five : Symbol.Spells (.number five) ['5'] :=
  .number ⟨⟨nofun, List.forall_mem_singleton.mpr rfl⟩, nofun, List.forall_mem_nil _, .inl rfl⟩

lemma five_endsBefore {c : Char} {rest : List Char} (hc : c = ',' ∨ c = '}') :
    Symbol.EndsBefore (.number five) (c :: rest) := by
  rcases hc with rfl | rfl
  · exact ⟨by rintro _ ⟨⟩; rfl, by rintro _ _ ⟨⟩; exact ⟨nofun, nofun⟩, nofun⟩
  · exact ⟨by rintro _ ⟨⟩; rfl, by rintro _ _ ⟨⟩; exact ⟨nofun, nofun⟩, nofun⟩

lemma spells_depth : Symbol.Spells (.text "max_definition_depth")
    ('"' :: ("max_definition_depth".toList ++ ['"'])) :=
  .plain _ (by decide +kernel)

lemma spells_debug : Symbol.Spells (.text "debug") ('"' :: ("debug".toList ++ ['"'])) :=
  .plain _ (by decide +kernel)

/-- The first letter may be escaped. -/
lemma spells_debug_escaped : Symbol.Spells (.text "debug")
    ('"' :: (['\\', 'u', '0', '0', '6', '4'] ++ "ebug".toList ++ ['"'])) :=
  .text (.cons (.escaped (.unit rfl rfl rfl)) (.plain (by decide +kernel)))

lemma written : ∀ member ∈ [shown, depth], ∃ v, WrittenAs v member.symbols := by
  have hfive : ∀ k : ℕ, Number.integer 5 = .integer k ↔ five.IsNatural k := by
    refine fun k => ⟨fun h => ?_, fun h => ?_⟩
    · cases h
      exact five_isNatural
    · rw [← h.value]
      rfl
  exact List.forall_mem_cons.mpr ⟨⟨_, .boolean true⟩, List.forall_mem_singleton.mpr
    ⟨_, .number hfive⟩⟩

lemma gives : Gives [shown, depth] ⟨"constr", true, 5⟩ := by
  refine ⟨?_, by decide, fun field => ?_, fun field => ?_⟩
  · exact List.forall_mem_cons.mpr ⟨⟨.debug, rfl⟩, List.forall_mem_singleton.mpr ⟨.maxDepth, rfl⟩⟩
  · refine List.forall_mem_cons.mpr ⟨fun h => ?_, List.forall_mem_singleton.mpr fun h => ?_⟩
    · obtain rfl : Field.debug = field := Field.key_inj h
      rfl
    · obtain rfl : Field.maxDepth = field := Field.key_inj h
      exact ⟨five, rfl, five_isNatural⟩
  · cases field with
    | discriminator => exact fun _ => rfl
    | debug => exact fun h => absurd (by decide) h
    | maxDepth => exact fun h => absurd (by decide) h

lemma starts : StartsWithObject "\x7b\"debug\":true,\"max_definition_depth\":5\x7d"
    [shown, depth] := by
  have htext : "\x7b\"debug\":true,\"max_definition_depth\":5\x7d".toList =
      ['{'] ++ ('"' :: ("debug".toList ++ ['"']) ++ ([':'] ++ ("true".toList ++ ([','] ++
        ('"' :: ("max_definition_depth".toList ++ ['"']) ++ ([':'] ++ (['5'] ++ (['}'] ++
          [])))))))) := by
    decide +kernel
  refine ⟨written, [], ?_⟩
  rw [htext]
  exact .symbol .openBrace trivial (.symbol spells_debug trivial (.symbol .colon trivial
    (.symbol .yes trivial (.symbol .comma trivial (.symbol spells_depth trivial
    (.symbol .colon trivial (.symbol spells_five (five_endsBefore (.inr rfl))
    (.symbol .closeBrace trivial .done))))))))

/-- Blanks, an escape and a text behind the object make no difference. -/
lemma starts_swapped : StartsWithObject
    " \x7b\"max_definition_depth\": 5, \"\\u0064ebug\": true\x7d and more" [depth, shown] := by
  have htext : " \x7b\"max_definition_depth\": 5, \"\\u0064ebug\": true\x7d and more".toList =
      ' ' :: (['{'] ++ ('"' :: ("max_definition_depth".toList ++ ['"']) ++ ([':'] ++ ' ' ::
        (['5'] ++ ([','] ++ ' ' ::
          ('"' :: (['\\', 'u', '0', '0', '6', '4'] ++ "ebug".toList ++ ['"']) ++
            ([':'] ++ ' ' :: ("true".toList ++ (['}'] ++ " and more".toList))))))))) := by
    decide +kernel
  refine ⟨fun member hmember => written member ((List.Perm.swap _ _ _).mem_iff.mp hmember),
    " and more".toList, ?_⟩
  rw [htext]
  exact .blank rfl (.symbol .openBrace trivial (.symbol spells_depth trivial (.symbol .colon trivial
    (.blank rfl (.symbol spells_five (five_endsBefore (.inl rfl)) (.symbol .comma trivial
    (.blank rfl (.symbol spells_debug_escaped trivial (.symbol .colon trivial (.blank rfl
    (.symbol .yes trivial (.symbol .closeBrace trivial .done))))))))))))

end Swapped

/-- Two fields in either order. The third has its standard value. -/
theorem configurations_read_exactly_swapped :
    ofText "\x7b\"debug\":true,\"max_definition_depth\":5\x7d" = .ok ⟨"constr", true, 5⟩ ∧
      ofText " \x7b\"max_definition_depth\": 5, \"\\u0064ebug\": true\x7d and more" =
        .ok ⟨"constr", true, 5⟩ := by
  have hread := ((configurations_read_exactly.2.1 _ _ Swapped.starts).2 _).mpr Swapped.gives
  exact ⟨hread, (configurations_read_exactly.2.2 _ _ _ _ Swapped.starts Swapped.starts_swapped
    (.swap _ _ _) _).mp hread⟩

end JsonTypes.Config
