/-
Lists of first occurrences.

What comes up again and again is listed once, in the order in which it came up first. Such a
list grows at its end only, by an item that is not in it yet. So it makes no difference
whether it is made on the way or afterwards, from all that has come up.

* `FirstOccurrences`: a list of the items of another one, in the order of their first
  occurrences there.
* `FirstOccurrences.concat`: what one more item does to it.
* `FirstOccurrences.eraseDups`, `FirstOccurrences.unique`: there is such a list, and only one.
* `FirstOccurrences.length_eq`: it is as long as there are different items.
-/
import Mathlib.Data.Finset.Card
import Mathlib.Data.List.Induction
import Mathlib.Tactic.Lemma

namespace JsonTypes

variable {α : Type} [DecidableEq α]

/-- A list has the items of another one, each once, in the order in which they come up there
first. -/
structure FirstOccurrences (items listed : List α) : Prop where
  mem_iff : ∀ a, a ∈ listed ↔ a ∈ items
  nodup : listed.Nodup
  ascending : listed.Pairwise fun a b => items.idxOf a < items.idxOf b

namespace FirstOccurrences

variable {items listed other : List α}

lemma nil : FirstOccurrences ([] : List α) [] :=
  ⟨fun _ => Iff.rfl, .nil, .nil⟩

/-- **One more item** changes nothing if it has come up before, and else goes to the end. -/
lemma concat (h : FirstOccurrences items listed) (a : α) :
    FirstOccurrences (items ++ [a]) (if a ∈ listed then listed else listed ++ [a]) := by
  -- what has come up keeps its first occurrence
  have hold : listed.Pairwise fun b c => (items ++ [a]).idxOf b < (items ++ [a]).idxOf c := by
    refine h.ascending.imp_of_mem fun {b c} hb hc hbc => ?_
    rwa [List.idxOf_append_of_mem ((h.mem_iff b).mp hb),
      List.idxOf_append_of_mem ((h.mem_iff c).mp hc)]
  split_ifs with ha
  · refine ⟨fun b => ?_, h.nodup, hold⟩
    rw [List.mem_append, List.mem_singleton, ← h.mem_iff]
    exact ⟨Or.inl, fun hb => hb.elim id fun hb => hb ▸ ha⟩
  · have hnodup : (listed ++ [a]).Nodup := List.concat_eq_append ▸ h.nodup.concat ha
    refine ⟨fun b => ?_, hnodup, List.pairwise_append.mpr ⟨hold, by simp, ?_⟩⟩
    · rw [List.mem_append, List.mem_append, h.mem_iff]
    · intro b hb c hc
      obtain rfl := List.mem_singleton.mp hc
      have hb : b ∈ items := (h.mem_iff b).mp hb
      have hc : c ∉ items := fun hc => ha ((h.mem_iff c).mpr hc)
      calc (items ++ [c]).idxOf b = items.idxOf b := List.idxOf_append_of_mem hb
        _ < items.length := List.idxOf_lt_length_of_mem hb
        _ ≤ (items ++ [c]).idxOf c := by
            rw [List.idxOf_append_of_notMem hc]
            exact Nat.le_add_right _ _

/-- Crossing out what has come up before leaves the first occurrences. -/
lemma eraseDups (items : List α) : FirstOccurrences items items.eraseDups := by
  induction items using List.reverseRecOn with
  | nil => exact nil
  | append_singleton rest a ih =>
      have hlast : ([a].removeAll rest).eraseDups =
          if a ∈ rest.eraseDups then [] else [a] := by
        by_cases ha : a ∈ rest <;> simp [List.removeAll, List.eraseDups_cons, ha]
      have hconcat := ih.concat a
      rw [List.eraseDups_append, hlast]
      split_ifs at hconcat ⊢
      · rwa [List.append_nil]
      · exact hconcat

/-- **There is one list of first occurrences only.** -/
lemma unique (h : FirstOccurrences items listed) (h' : FirstOccurrences items other) :
    listed = other := by
  have hperm : listed.Perm other := (List.perm_ext_iff_of_nodup h.nodup h'.nodup).mpr
    fun a => (h.mem_iff a).trans (h'.mem_iff a).symm
  exact hperm.eq_of_pairwise (fun a b _ _ hab hba => absurd hab (Nat.lt_asymm hba))
    h.ascending h'.ascending

/-- It is as long as there are different items. -/
lemma length_eq (h : FirstOccurrences items listed) : listed.length = items.toFinset.card := by
  rw [← List.toFinset_card_of_nodup h.nodup]
  congr 1
  ext a
  simp [h.mem_iff]

end FirstOccurrences

end JsonTypes
