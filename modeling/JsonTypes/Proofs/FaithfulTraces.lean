/-
The reports of a walk retrace it, and nothing depends on whether they are shown.

An expansion is reported with the number of instances that are open around it. Where the walk
leaves an instance it reports nothing, and a walk that fails stops reporting in the middle. Still
the open instances can be read off: every report cuts the path behind it at its depth.

* `Event.extend`, `retraced`: the path after an event, and after a list of them.
* `Continues`: events that can be reports of a walk behind a path, below a limit; `append` and
  `isPrefix` put two of them together, since the front of the path outlasts them.
* `Trail.Continues`: such events behind every path that starts with the open instances. So it is
  with the reports of a type (`Ty.walk_continues`) and of an instance (`visit_continues`).
* `Verdict.Expands`: a check reports expansions only, up to its failure.
* `traces_faithful`: what can be read off the reports of a walk and of a check.
-/
import JsonTypes.Proofs.WalkCalls
import Mathlib.Data.List.Chain

namespace JsonTypes

/-! ### Paths -/

/-- The depth of an expansion. -/
def Event.depth? : Event → Option ℕ
  | .expanding _ depth => some depth
  | _ => none

/-- The depths of the expansions, in order. -/
def depths (events : List Event) : List ℕ :=
  events.filterMap Event.depth?

@[simp] lemma depths_expanding (i : Instance) (depth : ℕ) (events : List Event) :
    depths (.expanding i depth :: events) = depth :: depths events := rfl

/-- The path after an event: an expansion cuts it at its depth and appends its instance. -/
def Event.extend (path : List Instance) : Event → List Instance
  | .expanding i depth => path.take depth ++ [i]
  | _ => path

/-- The path after some events, outermost instance first. -/
def retraced (events : List Event) : List Instance :=
  events.foldl Event.extend []

/-- Events that can follow behind a path: no expansion lies outside of the path, above the
depth `low` or at the limit, and what is in progress is on the path. -/
inductive Continues (low limit : ℕ) : List Instance → List Event → Prop where
  | nil {path : List Instance} : Continues low limit path []
  | expanding {path : List Instance} {i : Instance} {depth : ℕ} {events : List Event}
      (above : low ≤ depth) (along : depth ≤ path.length) (below : depth < limit)
      (rest : Continues low limit (path.take depth ++ [i]) events) :
      Continues low limit path (.expanding i depth :: events)
  | inProgress {path : List Instance} {i : Instance} {events : List Event}
      (isOpen : i.isIn path = true) (rest : Continues low limit path events) :
      Continues low limit path (.inProgress i :: events)

namespace Continues

variable {low limit : ℕ} {path front : List Instance} {events later : List Event}

lemma mono {low' : ℕ} (hle : low' ≤ low) (h : Continues low limit path events) :
    Continues low' limit path events := by
  induction h with
  | nil => exact .nil
  | expanding above along below _ ih => exact .expanding (hle.trans above) along below ih
  | inProgress isOpen _ ih => exact .inProgress isOpen ih

lemma append (h : Continues low limit path events)
    (hlater : Continues low limit (events.foldl Event.extend path) later) :
    Continues low limit path (events ++ later) := by
  induction h with
  | nil => exact hlater
  | expanding above along below _ ih => exact .expanding above along below (ih hlater)
  | inProgress isOpen _ ih => exact .inProgress isOpen (ih hlater)

/-- The path stays as it is in front of all expansions. -/
lemma isPrefix (h : Continues low limit path events) (hfront : front <+: path)
    (hlow : front.length ≤ low) : front <+: events.foldl Event.extend path := by
  induction h with
  | nil => exact hfront
  | expanding above _ _ _ ih =>
      have hcut := List.prefix_take_iff.mpr ⟨hfront, hlow.trans above⟩
      exact ih (hcut.trans (List.prefix_append ..))
  | inProgress _ _ ih => exact ih hfront

/-- An instance in progress is on the path that is retraced from the events before it, also if
other events follow in the end. -/
lemma isIn {before after tail : List Event} {i : Instance} (h : Continues low limit path events)
    (htail : .inProgress i ∉ tail) (hsplit : events ++ tail = before ++ .inProgress i :: after) :
    i.isIn (before.foldl Event.extend path) = true := by
  induction h generalizing before with
  | nil =>
      rw [List.nil_append] at hsplit
      exact absurd (hsplit ▸ List.mem_append_right before List.mem_cons_self) htail
  | expanding _ _ _ _ ih =>
      cases before with
      | nil => cases hsplit
      | cons event before =>
          obtain ⟨rfl, hrest⟩ := List.cons.inj hsplit
          exact ih hrest
  | inProgress isOpen _ ih =>
      cases before with
      | nil =>
          obtain ⟨rfl, -⟩ : _ = i ∧ _ := by simpa using hsplit
          exact isOpen
      | cons event before =>
          obtain ⟨rfl, hrest⟩ := List.cons.inj hsplit
          have hopen := ih hrest
          exact hopen

/-- The depths lie between the bounds. -/
lemma depth_bounds (h : Continues low limit path events) :
    ∀ depth ∈ depths events, low ≤ depth ∧ depth < limit := by
  induction h with
  | nil => exact List.forall_mem_nil _
  | expanding above _ below _ ih => exact List.forall_mem_cons.mpr ⟨⟨above, below⟩, ih⟩
  | inProgress _ _ ih => exact ih

/-- From one expansion to the next, the depth increases by at most one: no expansion lies
deeper than the path is long. -/
lemma depth_chain (h : Continues low limit path events) :
    (depths events).IsChain (fun depth next => next ≤ depth + 1) ∧
      ∀ depth ∈ (depths events).head?, depth ≤ path.length := by
  induction h with
  | nil => exact ⟨.nil, nofun⟩
  | @expanding path i depth events _ along _ _ ih =>
      have hlength : (path.take depth ++ [i]).length = depth + 1 := by simp [along]
      rw [hlength] at ih
      rw [depths_expanding]
      exact ⟨List.isChain_cons.mpr ⟨ih.2, ih.1⟩, by simpa using along⟩
  | inProgress _ _ ih => exact ih

lemma wellFormed_notMem (h : Continues low limit path events) (d : Description) :
    .wellFormed d ∉ events := by
  induction h with
  | nil => simp
  | expanding _ _ _ _ ih => simpa using ih
  | inProgress _ _ ih => simpa using ih

end Continues

/-! ### Walks -/

/-- Events that can follow while the instances of a trail are open: behind every path that
starts with these, which no event cuts off. -/
def Trail.Continues (trail : Trail) (limit : ℕ) (events : List Event) : Prop :=
  ∀ path, trail.all.reverse <+: path → JsonTypes.Continues trail.all.length limit path events

section Walks

variable {bodies : Family} {root : Instance} {limit room : ℕ} {trail : Trail}

lemma Trail.Continues.append {events later : List Event} (h : trail.Continues limit events)
    (hlater : trail.Continues limit later) : trail.Continues limit (events ++ later) := by
  intro path hpath
  have hkept := (h path hpath).isPrefix hpath (by simp)
  exact (h path hpath).append (hlater _ hkept)

lemma Trail.Continues.bind {α β : Type} {first : Traced DefinitionError α}
    {next : α → Traced DefinitionError β} (hfirst : trail.Continues limit first.events)
    (hnext : ∀ a, first.result = .ok a → trail.Continues limit (next a).events) :
    trail.Continues limit (first >>= next).events := by
  cases h : first.result with
  | error e =>
      rw [Traced.events_bind_error h]
      exact hfirst
  | ok a =>
      rw [Traced.events_bind_ok h]
      exact hfirst.append (hnext a h)

lemma Trail.Continues.thread {ι α : Type} {run : ι → α → Traced DefinitionError α}
    (single : ∀ k s, trail.Continues limit (run k s).events) (list : List ι) (state : α) :
    trail.Continues limit (Traced.thread run list state).events := by
  induction list generalizing state with
  | nil => exact fun _ _ => .nil
  | cons k rest ih => exact Trail.Continues.bind (single k state) fun next _ => ih next

/-- **Types.** The reports of a type can follow, if those of the instances in it can. -/
lemma Ty.walk_continues (inside : ∀ (trail : Trail) i finished, trail.all.length + room = limit →
      trail.Continues limit (visit bodies root limit room trail i finished).events)
    (t : Ty) (trail : Trail) (finished : List Instance) (hroom : trail.all.length + room = limit) :
    trail.Continues limit
      (t.walk root (visit bodies root limit room) trail finished).events := by
  induction t generalizing trail finished with
  | primitive p => exact fun _ _ => .nil
  | container c t ih => exact ih trail.guard finished hroom
  | fields entries ih =>
      rw [walk_fields]
      exact Trail.Continues.thread (fun k s => ih k trail s hroom) _ _
  | inst i =>
      rw [walk_inst]
      split_ifs with hbare hguarded hfinished
      · exact fun _ _ => .nil
      · intro path hpath
        have hall : i.isIn trail.all = true := Trail.isIn_all.mpr (Or.inr hguarded)
        have hopen : i.isIn path = true :=
          Application.isIn_mono (fun j hj => hpath.subset (List.mem_reverse.mpr hj)) hall
        exact .inProgress hopen .nil
      · exact fun _ _ => .nil
      · exact inside trail i finished hroom
  | param index =>
      rw [walk_param]
      split_ifs <;> exact fun _ _ => .nil

/-- What an expansion reports: the instance, then what its entries do, behind the instance. -/
lemma Trail.Continues.enter {i : Instance} {events : List Event} (hroom : trail.all.length < limit)
    (h : (trail.enter i).Continues limit events) :
    trail.Continues limit (.expanding i trail.depth :: events) := by
  intro path hpath
  have hdepth : trail.depth = trail.all.length := (List.length_append ..).symm
  have hcut : path.take trail.depth = trail.all.reverse := by
    have htake := List.prefix_iff_eq_take.mp hpath
    rw [hdepth, ← List.length_reverse, ← htake]
  have hinner := h (path.take trail.depth ++ [i]) (by simp [hcut])
  rw [Trail.all_enter, List.length_cons] at hinner
  have hlong : trail.depth ≤ path.length := by
    have hle := hpath.length_le
    rwa [List.length_reverse, ← hdepth] at hle
  exact .expanding hdepth.ge hlong (by omega) (hinner.mono (Nat.le_succ _))

/-- An expansion with room reports its instance, and then what can follow inside of it. -/
lemma visit_succ_continues
    (inside : ∀ (trail : Trail) i finished, trail.all.length + room = limit →
      trail.Continues limit (visit bodies root limit room trail i finished).events)
    (trail : Trail) (i : Instance) (finished : List Instance)
    (hroom : trail.all.length + (room + 1) = limit) :
    ∃ events, (visit bodies root limit (room + 1) trail i finished).events =
      .expanding i trail.depth :: events ∧ (trail.enter i).Continues limit events := by
  refine ⟨_, events_visit_succ, ?_⟩
  have hinside : (trail.enter i).all.length + room = limit := by
    rw [Trail.all_enter, List.length_cons]
    omega
  cases bodies i with
  | error e => exact fun _ _ => .nil
  | ok entries => exact Ty.walk_continues inside _ _ _ hinside

/-- **Instances.** The reports of an expansion can follow. The induction is on the room that is
left below the open instances. -/
lemma visit_continues (trail : Trail) (i : Instance) (finished : List Instance)
    (hroom : trail.all.length + room = limit) :
    trail.Continues limit (visit bodies root limit room trail i finished).events := by
  induction room generalizing trail i finished with
  | zero => exact fun _ _ => .nil
  | succ room ih =>
      obtain ⟨events, hevents, hinner⟩ := visit_succ_continues ih trail i finished hroom
      rw [hevents]
      exact hinner.enter (by omega)

/-- The walk over a definition expands its own instance at depth 0, if there is room, and then
others inside of it. -/
lemma start_continues (f : Factory) :
    let events := ((WalkCall.start f limit).run bodies f.generic limit).events
    Continues 0 limit [] events ∧
      (depths events).head? = (if limit = 0 then none else some 0) ∧
        ∀ depth ∈ (depths events).tail, 0 < depth := by
  intro events
  have hstart : Continues 0 limit [] events :=
    visit_continues ⟨[], []⟩ f.generic [] (Nat.zero_add _) [] List.nil_prefix
  refine ⟨hstart, ?_⟩
  cases limit with
  | zero => exact ⟨rfl, List.forall_mem_nil _⟩
  | succ limit =>
      obtain ⟨inner, hsplit, hinner⟩ : ∃ inner, events = .expanding f.generic 0 :: inner ∧
          (Trail.enter ⟨[], []⟩ f.generic).Continues (limit + 1) inner :=
        visit_succ_continues visit_continues ⟨[], []⟩ f.generic [] (Nat.zero_add _)
      have hinner' := hinner _ List.prefix_rfl
      rw [Trail.all_enter] at hinner'
      rw [hsplit, depths_expanding]
      exact ⟨rfl, fun depth hdepth => (hinner'.depth_bounds depth hdepth).1⟩

end Walks

/-! ### Checks -/

/-- A check reports expansions only. -/
def Verdict.Expands (verdict : Verdict) : Prop :=
  ∀ event ∈ verdict.events, ∃ i, event = .expandingForCheck i

section Checks

variable {bodies : Family} {discriminator : String}

lemma Verdict.Expands.forEach {ι : Type} {run : ι → Verdict} {list : List ι}
    (single : ∀ k ∈ list, (run k).Expands) : Verdict.Expands (Traced.forEach run list) := by
  induction list with
  | nil => exact List.forall_mem_nil _
  | cons k rest ih =>
      obtain ⟨hk, hrest⟩ := List.forall_mem_cons.mp single
      intro event hevent
      rw [Traced.forEach, ← Traced.bind_eq, Traced.mem_events_bind] at hevent
      rcases hevent with hevent | ⟨_, -, hevent⟩
      · exact hk event hevent
      · exact ih hrest event hevent

/-- The parts of a layer report expansions only. -/
def Layer.Expands : Layer → Prop
  | .scalar => True
  | .items row => ∀ k t, ((row.item k).check t).Expands
  | .members table => ∀ k t, ((table.entry k).check t).Expands

lemma Layer.Expands.keyed {v : Json} {layer : Layer} {members : Table Part}
    (h : layer.Expands) (hkeyed : layer.keyed v = .ok members) :
    ∀ k t, ((members.entry k).check t).Expands := by
  cases layer with
  | members table =>
      obtain rfl := Except.ok.inj hkeyed
      exact h
  | scalar | items => cases hkeyed

lemma Verdict.expands_wrong (reason : Reason) : (wrong reason).Expands := List.forall_mem_nil _

lemma Verdict.expands_pure : Expands (pure ()) := List.forall_mem_nil _

lemma Table.checkFields_expands {members : Table Part}
    (parts : ∀ k t, ((members.entry k).check t).Expands) (fields : Table Ty) :
    Verdict.Expands (members.checkFields fields) := by
  rw [checkFields]
  split_ifs
  · refine Verdict.Expands.forEach fun k _ => ?_
    cases hpart : members.find? (fields.name k) with
    | none => exact Verdict.expands_pure
    | some part =>
        obtain ⟨l, -, rfl⟩ := find?_eq_some.mp hpart
        simp only [Part.checkField]
        split_ifs
        · exact Verdict.expands_wrong _
        · exact parts l (fields.entry k)
  · exact Verdict.expands_wrong _

lemma Table.checkVariant_expands {members : Table Part}
    (parts : ∀ k t, ((members.entry k).check t).Expands) (variants : Table Ty) :
    Verdict.Expands (members.checkVariant discriminator variants) := by
  rw [checkVariant]
  split
  · exact Verdict.expands_wrong _
  · exact Verdict.expands_wrong _
  · next constr _ =>
    cases variants.find? constr with
    | none => exact Verdict.expands_wrong _
    | some shape =>
        cases hpayload : members.find? constr with
        | none => exact Verdict.expands_wrong _
        | some payload =>
            obtain ⟨k, -, rfl⟩ := find?_eq_some.mp hpayload
            simp only
            split_ifs
            · exact Verdict.expands_wrong _
            · exact Verdict.expands_wrong _
            · exact parts k shape
  · exact List.forall_mem_nil _

/-- The check of a layer reports expansions only if its parts do. The induction is on the
type. -/
lemma Ty.checkLayer_expands {v : Json} {layer : Layer} (parts : layer.Expands) (t : Ty) :
    (t.checkLayer bodies discriminator v layer).Expands := by
  induction t with
  | primitive p =>
      rw [checkLayer]
      split_ifs
      · exact Verdict.expands_pure
      · exact Verdict.expands_wrong _
  | container c t ih =>
      cases c with
      | optional =>
          rw [checkLayer]
          split_ifs
          · exact Verdict.expands_pure
          · exact ih
      | repeated =>
          cases layer with
          | items row => exact Verdict.Expands.forEach fun k _ => parts k t
          | scalar | members => exact Verdict.expands_wrong _
      | map =>
          rw [checkLayer]
          cases hkeyed : layer.keyed v with
          | error reason => exact Verdict.expands_wrong _
          | ok members => exact Verdict.Expands.forEach fun k _ => parts.keyed hkeyed k t
  | fields declared =>
      rw [checkLayer]
      cases hkeyed : layer.keyed v with
      | error reason => exact Verdict.expands_wrong _
      | ok members => exact Table.checkFields_expands (parts.keyed hkeyed) declared
  | inst i =>
      intro event hevent
      rw [checkLayer, Traced.mem_events_bind] at hevent
      rcases hevent with hevent | ⟨_, -, hevent⟩
      · exact ⟨i, List.mem_singleton.mp hevent⟩
      · rw [Traced.mem_events_bind] at hevent
        rcases hevent with hevent | ⟨d, -, hevent⟩
        · exact absurd hevent List.not_mem_nil
        · cases hkeyed : layer.keyed v with
          | error reason =>
              rw [hkeyed] at hevent
              exact Verdict.expands_wrong _ event hevent
          | ok members =>
              rw [hkeyed] at hevent
              cases hkind : d.kind with
              | record =>
                  rw [hkind] at hevent
                  exact Table.checkFields_expands (parts.keyed hkeyed) _ event hevent
              | schema =>
                  rw [hkind] at hevent
                  exact Table.checkVariant_expands (parts.keyed hkeyed) _ event hevent
  | param index => exact Verdict.expands_wrong _

/-- **Checks report expansions only**, up to their failure. -/
lemma Json.check_expands (v : Json) (t : Ty) :
    Verdict.Expands (v.check bodies discriminator t) := by
  induction v using part_induction generalizing t with
  | _ v ih =>
    rw [check_eq]
    refine Ty.checkLayer_expands ?_ t
    cases v with
    | array items => exact fun k t => ih _ (.item items k) t
    | object members => exact fun k t => ih _ (.member members k) t
    | null | boolean | number | string => trivial

end Checks

/-! ### The main statement -/

/-- The reports of a check are expansions, and the last one its failure, if it fails. -/
lemma events_check_error {bodies : Family} {config : Config} {t : Ty} {v : Json} {e : CheckError}
    (h : (check bodies config t v).result = .error e) :
    (check bodies { config with debug := true } t v).events =
      (v.check bodies config.discriminator t).events ++ [.failed t e] := by
  rw [check, Traced.events_bind_pure _ fun _ => v]
  change ((v.check bodies config.discriminator t).reported t).events = _
  rw [Verdict.reported, check_error.mp h]

/-- **The trace of a walk retraces it, and no result depends on it.** Whether reports are shown or
not, definitions and checks have the same results. The depths of the expansions of a walk start
at 0, are never 0 again, increase by at most one from one expansion to the next, and lie below
the limit. What is in progress is on the path retraced from the expansions before it. A
definition is reported as well-formed if it is, once and in the end. The reports of a check that
fails are all traces but for the last one, which has the type, the kind and the message of its
error. -/
theorem traces_faithful (bodies : Family) (config : Config) (f : Factory) :
    (let walked := validate bodies { config with debug := true } f
    let depths := depths walked.events
    walked.result = (validate bodies { config with debug := false } f).result ∧
      depths.head? = (if config.maxDepth = 0 then none else some 0) ∧
      (∀ depth ∈ depths.tail, 0 < depth) ∧
      depths.IsChain (fun depth next => next ≤ depth + 1) ∧
      (∀ depth ∈ depths, depth < config.maxDepth) ∧
      (∀ before i after, walked.events = before ++ .inProgress i :: after →
        i.isIn (retraced before) = true) ∧
      (∀ d, walked.result = .ok d →
        ∃ before, walked.events = before ++ [.wellFormed d] ∧ ∀ d', .wellFormed d' ∉ before) ∧
      ∀ e, walked.result = .error e → ∀ d, .wellFormed d ∉ walked.events) ∧
    ∀ t v, let checked := check bodies { config with debug := true } t v
      checked.result = (check bodies { config with debug := false } t v).result ∧
      ∀ e, checked.result = .error e →
        ∃ before last, checked.events = before ++ [last] ∧
          (∀ event ∈ before, event.level = "TRACE") ∧ last.level = "DEBUG" ∧
          last.message = e.message ∧
          last.values = [("ty", t.text), ("kind", e.tag.text)] := by
  refine ⟨?_, fun t v => ⟨?_, fun e he => ?_⟩⟩
  · intro walked
    have hevents := events_validate bodies config f
    have hresult : walked.result = (validate bodies config f).result := by
      simp only [walked, validate_result]
    obtain ⟨hwalk, hhead, htail⟩ := @start_continues bodies config.maxDepth f
    generalize ((WalkCall.start f config.maxDepth).run bodies f.generic
      config.maxDepth).events = events at hevents hwalk hhead htail
    have hdepths : depths walked.events = depths events := by
      rw [hevents, depths, List.filterMap_append]
      cases (validate bodies config f).result <;> exact List.append_nil _
    rw [hdepths, hresult]
    refine ⟨by rw [validate_result, validate_result], hhead, htail, hwalk.depth_chain.1,
      fun depth hdepth => (hwalk.depth_bounds depth hdepth).2, fun before i after hsplit => ?_,
      fun d hd => ?_, fun e he => ?_⟩
    · refine hwalk.isIn ?_ (hevents.symm.trans hsplit)
      cases (validate bodies config f).result <;> simp
    · rw [hd] at hevents
      exact ⟨events, hevents, hwalk.wellFormed_notMem⟩
    · rw [he, List.append_nil] at hevents
      rw [hevents]
      exact hwalk.wellFormed_notMem
  · rw [check_result, check_result]
  · have he' : (check bodies config t v).result = .error e := by
      rw [← he, check_result, check_result]
    refine ⟨_, _, events_check_error he', fun event hevent => ?_, rfl, rfl, rfl⟩
    obtain ⟨i, rfl⟩ := v.check_expands t event hevent
    rfl

/-- Rose trees: the record is expanded at depth 0 and the list of its children at depth 1. There
both are met again, on the path that is retraced so far. -/
theorem traces_faithful_rose :
    let walked := validate Prelude.bodies { Config.standard with debug := true }
      Prelude.rose.factory
    walked.events.map Event.message = ["expanding", "expanding", "already in progress",
        "already in progress", "definition is well-formed"] ∧
      depths walked.events = [0, 1] ∧
      (∀ before i after, walked.events = before ++ .inProgress i :: after →
        i.isIn (retraced before) = true) ∧
      ∃ d before, walked.result = .ok d ∧ walked.events = before ++ [.wellFormed d] ∧
        ∀ d', .wellFormed d' ∉ before := by
  intro walked
  obtain ⟨⟨-, -, -, -, -, hopen, hlast, -⟩, -⟩ :=
    traces_faithful Prelude.bodies .standard Prelude.rose.factory
  obtain ⟨before, hbefore⟩ := hlast _ rfl
  exact ⟨rfl, rfl, hopen, _, before, rfl, hbefore⟩

end JsonTypes
