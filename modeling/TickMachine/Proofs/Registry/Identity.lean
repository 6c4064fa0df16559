import TickMachine.Proofs.Registry.Lifecycle

/-! # Ids and names

The loads of a history are answered with 0, 1, 2 and so on, whatever other commands stand between
them, so an id belongs to one machine for good. A name may belong to several machines; it stands for
the one of them that was loaded first.
-/

namespace TickMachine

namespace Registry

variable {registry : Registry} {m : Machine} {name : String}

/-! ## Names -/

/-- The machine has the name, and the least id of all machines with this name. -/
structure Eldest (registry : Registry) (name : String) (m : Machine) : Prop where
  mem : m ∈ registry.machines
  named : m.name.text = name
  least : ∀ other ∈ registry.machines, other.name.text = name → m.id ≤ other.id

theorem eldest_of_named? (h : registry.Ordered) (hname : registry.named? name = some m) :
    registry.Eldest name m := by
  obtain ⟨hnamed, front, back, hmachines, hfront⟩ := List.find?_eq_some_iff_append.mp hname
  refine ⟨List.mem_of_find?_eq_some hname, of_decide_eq_true hnamed, fun other hmem hother => ?_⟩
  have hascending := h.ascending
  rw [hmachines, List.map_append, List.map_cons, List.pairwise_append] at hascending
  rw [hmachines] at hmem
  rcases List.mem_append.mp hmem with hmem | hmem
  · -- no machine in front has the name
    simpa [hother] using hfront other hmem
  · rcases List.mem_cons.mp hmem with rfl | hmem
    · exact Nat.le_refl _
    · have hbehind := (List.pairwise_cons.mp hascending.2.1).1
      exact Nat.le_of_lt (hbehind other.id (List.mem_map_of_mem hmem))

theorem named?_eq_some_iff (h : registry.Ordered) :
    registry.named? name = some m ↔ registry.Eldest name m := by
  refine ⟨eldest_of_named? h, fun heldest => ?_⟩
  cases hname : registry.named? name with
  | none =>
      have hnone := List.find?_eq_none.mp hname m heldest.mem
      exact absurd (decide_eq_true heldest.named) hnone
  | some first =>
      have hfirst : registry.Eldest name first := eldest_of_named? h hname
      have hid : first.id = m.id := Nat.le_antisymm
        (hfirst.least m heldest.mem heldest.named) (heldest.least first hfirst.mem hfirst.named)
      rw [List.inj_on_of_nodup_map h.distinctIds hfirst.mem heldest.mem hid]

/-- Asking by a name is asking by the id that the name stands for. -/
theorem resolve_of_named? (hname : registry.named? name = some m) :
    registry.resolve name = .ok m.id := by
  rw [resolve, hname]

end Registry

namespace Engine

open Registry

/-! ## Ids that loads are answered with -/

/-- The answers to requests that are carried out one after the other. -/
def replies (registry : Registry) : List (Engine × Command) → List Reply
  | [] => []
  | (engine, command) :: others =>
    (engine.perform registry command).1 :: replies (engine.perform registry command).2 others

/-- The loads that succeed are answered with the ids from the next one on, without a gap. -/
theorem exists_loaded_eq_range' (before later : List (Engine × Command)) :
    ∃ count,
      (replies (history before) later).filterMap Reply.loaded? =
        List.range' (history before).nextId count ∧
      (history (before ++ later)).nextId = (history before).nextId + count := by
  induction later generalizing before with
  | nil => exact ⟨0, rfl, by rw [List.append_nil, Nat.add_zero]⟩
  | cons request others ih =>
      obtain ⟨engine, command⟩ := request
      obtain ⟨count, hloaded, hnext⟩ := ih (before ++ [(engine, command)])
      rw [history_concat] at hloaded hnext
      rw [List.append_assoc, List.singleton_append] at hnext
      rw [replies, hnext]
      rcases engine.perform_outcome (history before) command with
        ⟨hnone, hafter⟩ | ⟨name, image, _, houtcome⟩
      · rw [List.filterMap_cons_none hnone, hloaded, hafter.nextId]
        exact ⟨count, rfl, rfl⟩
      · have hanswer : (Reply.loaded (history before).nextId).loaded? =
            some (history before).nextId := rfl
        rw [houtcome] at hloaded ⊢
        rw [List.filterMap_cons_some hanswer, hloaded]
        refine ⟨count + 1, List.range'_succ.symm, ?_⟩
        exact Nat.add_right_comm _ 1 count

/-- An id that was given and whose machine is gone stays without a machine, and no load is answered
with it again. -/
theorem never_again {before : List (Engine × Command)} {id : Nat}
    (hgiven : id < (history before).nextId) (hgone : (history before).find? id = none)
    (later : List (Engine × Command)) :
    (history (before ++ later)).find? id = none ∧
      .loaded id ∉ replies (history before) later := by
  constructor
  · have hlasting : Machine.Lasting fun _ => False := .of_sameProgram fun _ h => h
    have hholds : (history before).Holds id fun _ => False :=
      ⟨find?_eq_none_iff.mp hgone, hgiven⟩
    exact find?_eq_none_iff.mpr
      (history_keeps (fun _ _ _ => perform_holds hlasting) hholds later).machines
  · intro hmem
    obtain ⟨count, hloaded, _⟩ := exists_loaded_eq_range' before later
    have hrange : id ∈ List.range' (history before).nextId count := by
      rw [← hloaded]
      exact List.mem_filterMap.mpr ⟨.loaded id, hmem, rfl⟩
    exact absurd (List.mem_range'_1.mp hrange).1 (Nat.not_le_of_lt hgiven)

/-- After every history the ids ascend in the order of the machines and are below the next one. The
loads that succeeded were answered with 0, 1, 2 and so on. Once a machine is removed its id is never
found or given again. A name stands for the machine with the least id, and this is the one that is
frozen or terminated by the name. -/
theorem history_identity (requests : List (Engine × Command)) :
    ((history requests).machines.map Machine.id).Pairwise (· < ·) ∧
    (∀ m ∈ (history requests).machines, m.id < (history requests).nextId) ∧
    (replies .empty requests).filterMap Reply.loaded? = List.range (history requests).nextId ∧
    (∀ m ∈ (history requests).machines, ∀ engine command,
      Removes engine (history requests) m command → ∀ later,
        (history (requests ++ (engine, command) :: later)).find? m.id = none ∧
        .loaded m.id ∉ replies (history (requests ++ [(engine, command)])) later) ∧
    (∀ name m, (history requests).named? name = some m ↔ (history requests).Eldest name m) ∧
    ∀ name m, (history requests).named? name = some m → ∀ engine : Engine,
      (history requests).find? m.id = some m ∧
      engine.perform (history requests) (.freezeByName name) =
        engine.perform (history requests) (.freeze m.id) ∧
      engine.perform (history requests) (.terminateByName name) =
        engine.perform (history requests) (.terminate m.id) := by
  have hordered : (history requests).Ordered := history_ordered requests
  refine ⟨hordered.ascending, hordered.below, ?_, ?_, ?_, ?_⟩
  · obtain ⟨count, hloaded, hnext⟩ := exists_loaded_eq_range' [] requests
    rw [List.nil_append] at hnext
    rw [hnext, List.range_eq_range']
    exact hloaded.trans (congrArg (List.range' 0) (Nat.zero_add count).symm)
  · intro m hmem engine command hremoves later
    have hgone : (history (requests ++ [(engine, command)])).find? m.id = none := by
      rw [history_concat]
      exact (find?_eq_none_iff_removes engine hordered hmem command).mpr hremoves
    have hgiven : m.id < (history (requests ++ [(engine, command)])).nextId := by
      obtain ⟨count, _, hnext⟩ := exists_loaded_eq_range' requests [(engine, command)]
      rw [hnext]
      exact Nat.lt_add_right count (hordered.below m hmem)
    rw [List.append_cons]
    exact never_again hgiven hgone later
  · exact fun name m => named?_eq_some_iff hordered
  · intro name m hname engine
    have hresolve := resolve_of_named? hname
    refine ⟨(find?_eq_some_iff hordered.distinctIds).mpr ⟨List.mem_of_find?_eq_some hname, rfl⟩,
      ?_, ?_⟩
    · exact congrArg (settle _) (bind_of_eq_ok hresolve)
    · exact congrArg (settle _) (bind_of_eq_ok hresolve)

theorem history_identity_twins :
    (replies .empty twins).filterMap Reply.loaded? = [0, 1] ∧
    perform {} (history twins) (.terminateByName "twin") =
      perform {} (history twins) (.terminate 0) ∧
    ∀ later, (history (twins ++ ({}, .tick) :: later)).find? 0 = none ∧
      .loaded 0 ∉ replies (history (twins ++ [(({} : Engine), .tick)])) later := by
  obtain ⟨_, _, hloaded, hremoved, _, hnamed⟩ := history_identity twins
  have hlength : 0 < (history twins).machines.length := by decide
  have hmem : (history twins).machines[0] ∈ (history twins).machines := List.getElem_mem hlength
  have hremoves : Removes {} (history twins) (history twins).machines[0] .tick := .fail rfl rfl
  exact ⟨hloaded, (hnamed "twin" _ rfl {}).2.2,
    fun later => hremoved _ hmem {} .tick hremoves later⟩

end Engine

end TickMachine
