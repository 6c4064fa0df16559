import Mathlib.Data.List.Nodup
import TickMachine.Proofs.Registry.Commands
import TickMachine.Proofs.Registry.Tick

/-! # Machines by their ids

A load appends a machine with the id that is next, and everything else leaves machines in their
places or takes them out. So the ids ascend in the order of the machines, and a registry can be read
as a map: what an operation does to it is said by what is found under each id afterwards.
-/

namespace TickMachine

namespace Registry

variable {registry after : Registry} {m old : Machine} {id : Nat}

/-! ## Ascending ids -/

/-- The ids ascend in the order of the machines, and all of them were given. -/
structure Ordered (registry : Registry) : Prop where
  ascending : (registry.machines.map Machine.id).Pairwise (· < ·)
  below : registry.IdsBelow

theorem empty_ordered : empty.Ordered where
  ascending := .nil
  below _ hmem := by cases hmem

theorem Ordered.distinctIds (h : registry.Ordered) : registry.DistinctIds :=
  h.ascending.imp Nat.ne_of_lt

theorem Ordered.succeeds (h : registry.Ordered) (hafter : after.Succeeds registry) :
    after.Ordered where
  ascending := h.ascending.sublist hafter.ids
  below := h.below.succeeds hafter

theorem Ordered.register (h : registry.Ordered) (name : BoundedText maxProgramNameSize)
    (image : Image) (callLimit : Nat) : (registry.register name image callLimit).Ordered where
  ascending := by
    rw [Registry.register, List.map_append, List.pairwise_append]
    refine ⟨h.ascending, List.pairwise_singleton _ _, fun former hformer new hnew => ?_⟩
    obtain ⟨m, hmem, rfl⟩ := List.mem_map.mp hformer
    obtain rfl := List.mem_singleton.mp hnew
    exact h.below m hmem
  below := h.below.register name image callLimit

theorem Ordered.perform (h : registry.Ordered) (engine : Engine) (command : Command) :
    (engine.perform registry command).2.Ordered := by
  rcases engine.perform_cases registry command with hafter | ⟨name, image, hafter⟩
  · exact h.succeeds hafter
  · rw [hafter]
    exact h.register name image engine.callLimit

theorem history_ordered (requests : List (Engine × Command)) :
    (Engine.history requests).Ordered := by
  have hempty : (Engine.history []).Ordered := empty_ordered
  exact Engine.history_keeps (fun engine _ command h => h.perform engine command) hempty requests

/-! ## Looking machines up -/

theorem find?_eq_none_iff :
    registry.find? id = none ↔ ∀ m ∈ registry.machines, m.id ≠ id := by
  simp [find?]

theorem id_of_find? (h : registry.find? id = some m) : m.id = id := by
  simpa using List.find?_some h

theorem find?_eq_some_iff (hids : registry.DistinctIds) :
    registry.find? id = some m ↔ m ∈ registry.machines ∧ m.id = id := by
  constructor
  · intro h
    exact ⟨List.mem_of_find?_eq_some h, id_of_find? h⟩
  · rintro ⟨hmem, rfl⟩
    cases hfind : registry.find? m.id with
    | none => exact absurd rfl (find?_eq_none_iff.mp hfind m hmem)
    | some other =>
        have hother : other ∈ registry.machines := List.mem_of_find?_eq_some hfind
        rw [List.inj_on_of_nodup_map hids hother hmem (id_of_find? hfind)]

theorem find?_replace (registry : Registry) (m : Machine) (id : Nat) :
    (registry.replace m).find? id =
      (registry.find? id).map fun old => if old.id = m.id then m else old := by
  have hsame : ∀ old : Machine, (if old.id = m.id then m else old).id = old.id := by
    intro old
    split
    next hid => exact hid.symm
    next => rfl
  simp only [find?, replace, List.find?_map, Function.comp_def, hsame]

theorem find?_replace_self (hfind : registry.find? m.id = some old) :
    (registry.replace m).find? m.id = some m := by
  rw [find?_replace, hfind, Option.map_some, if_pos (id_of_find? hfind)]

theorem find?_erase (hids : registry.DistinctIds) (gone id : Nat) :
    (registry.erase gone).find? id = if id = gone then none else registry.find? id := by
  obtain ⟨machines, nextId⟩ := registry
  induction machines with
  | nil => simp [erase, find?]
  | cons m others ih =>
      obtain ⟨hfresh, hothers⟩ := List.nodup_cons.mp hids
      by_cases hgone : m.id = gone
      · -- the machine in front is taken out, and no other has its id
        subst hgone
        have hnone : (⟨others, nextId⟩ : Registry).find? m.id = none :=
          find?_eq_none_iff.mpr fun other hother heq =>
            hfresh (List.mem_map.mpr ⟨other, hother, heq⟩)
        by_cases hid : id = m.id
        · subst hid
          simpa [erase, find?] using hnone
        · simp [erase, find?, hid, Ne.symm hid]
      · by_cases hid : m.id = id
        · subst hid
          simp [erase, find?, hgone]
        · simpa [erase, find?, hgone, hid] using ih hothers

theorem find?_tick (hids : registry.DistinctIds) (budget id : Nat) :
    (registry.tick budget).1.find? id = (registry.find? id).bind (Machine.survivor? budget) := by
  rw [tick_eq hids]
  obtain ⟨machines, nextId⟩ := registry
  simp only [find?]
  induction machines with
  | nil => rfl
  | cons m others ih =>
      obtain ⟨hfresh, hothers⟩ := List.nodup_cons.mp hids
      obtain ⟨after, _, hsurvivor, _, hid⟩ | ⟨fault, _, hsurvivor, _⟩ := m.turn_cases budget
      · rw [List.filterMap_cons_some hsurvivor, List.find?_cons, List.find?_cons, hid]
        split
        next => exact hsurvivor.symm
        next => exact ih hothers
      · rw [List.filterMap_cons_none hsurvivor, ih hothers, List.find?_cons]
        split
        next heq =>
          -- what failed is gone, and no other machine has its id
          have hnone : others.find? (·.id = id) = none := by
            rw [List.find?_eq_none]
            intro other hother hsame
            refine hfresh (List.mem_map.mpr ⟨other, hother, ?_⟩)
            rw [of_decide_eq_true hsame, of_decide_eq_true heq]
          rw [hnone, Option.bind_none, Option.bind_some, hsurvivor]
        next => rfl

theorem find?_register (h : registry.IdsBelow) (name : BoundedText maxProgramNameSize)
    (image : Image) (callLimit id : Nat) :
    (registry.register name image callLimit).find? id =
      if id = registry.nextId then
        some (.fresh registry.nextId name image.instructions.toArray callLimit)
      else registry.find? id := by
  simp only [find?, register, List.find?_append]
  split
  next heq =>
    subst heq
    have hnone : registry.machines.find? (·.id = registry.nextId) = none := by
      rw [List.find?_eq_none]
      intro m hmem heq
      exact Nat.ne_of_lt (h m hmem) (of_decide_eq_true heq)
    rw [hnone]
    simp [Machine.fresh]
  next hne => simp [Machine.fresh, Ne.symm hne]

end Registry

end TickMachine
