import TickMachine.Proofs.Registry.Lookup

/-! # The life of a machine

What a command does to one machine of the registry: it takes the machine out, or makes something of
it that depends on the machine alone. `Removes` and `Becomes` list both, each with the commands that
can do it, so that what can happen in the life of a machine is read off them.
-/

namespace TickMachine

namespace Registry

variable {registry : Registry} {m old changed : Machine} {id : Nat} {name : String}

/-- The command takes the machine out of the registry. -/
inductive Removes (engine : Engine) (registry : Registry) (m : Machine) : Command → Prop
  | terminate : Removes engine registry m (.terminate m.id)
  | terminateByName {name : String} (hname : registry.named? name = some m) :
      Removes engine registry m (.terminateByName name)
  /-- The machine fails in its turn. -/
  | fail {fault : Fault} (hrunning : m.phase = .running)
      (h : m.tick engine.budget = .error fault) : Removes engine registry m .tick

/-- What the command makes of a machine that it leaves in the registry, and how it is answered. -/
inductive Becomes (engine : Engine) (registry : Registry) (m : Machine) :
    Command → Reply → Machine → Prop
  /-- The machine is left alone; by a tick only if it is not running. -/
  | stay {command : Command} {reply : Reply} (h : command = .tick → m.phase ≠ .running) :
      Becomes engine registry m command reply m
  | start {after : Machine} (h : m.start = .ok after) :
      Becomes engine registry m (.execute m.id) .done after
  | freeze {after : Machine} (h : m.freeze = .ok after) :
      Becomes engine registry m (.freeze m.id) .done after
  | freezeByName {name : String} {after : Machine} (hname : registry.named? name = some m)
      (h : m.freeze = .ok after) : Becomes engine registry m (.freezeByName name) .done after
  | reset : Becomes engine registry m (.reset m.id) .done m.reset
  | write {address : Nat} {cell : Cell} {after : Machine}
      (h : m.setCellAt address cell = .ok after) :
      Becomes engine registry m (.write m.id address cell) .done after
  | turn {reply : Reply} {after : Machine} (hrunning : m.phase = .running)
      (h : m.tick engine.budget = .ok after) : Becomes engine registry m .tick reply after

/-- The machine stays registered, as something that the command can make of it. -/
def Survives (engine : Engine) (registry : Registry) (m : Machine) (command : Command)
    (outcome : Reply × Registry) : Prop :=
  ∃ after, outcome.2.find? m.id = some after ∧
    Becomes engine registry m command outcome.1 after

variable {engine : Engine} {command : Command} {reply : Reply} {after : Machine}

theorem Becomes.moved (h : Becomes engine registry m command reply after) : m.Moved after := by
  cases h with
  | stay => exact .stay
  | start h => exact .start h
  | freeze h => exact .freeze h
  | freezeByName _ h => exact .freeze h
  | reset => exact .reset
  | write h => exact .write h
  | turn _ h => exact .turn h

/-! ## Machines that are asked for -/

theorem get_eq_ok_iff : registry.get id = .ok m ↔ registry.find? id = some m := by
  unfold get
  cases registry.find? id with
  | none => simp
  | some found => simp

theorem resolve_eq_ok (h : registry.resolve name = .ok id) :
    ∃ m, registry.named? name = some m ∧ m.id = id := by
  unfold resolve at h
  split at h
  next m hname =>
    cases h
    exact ⟨m, hname, rfl⟩
  next => cases h

/-- Of all machines only the one with the id is changed. -/
theorem find?_changed (hids : registry.DistinctIds) (hmem : m ∈ registry.machines)
    (hold : registry.find? id = some old) (hsame : changed.id = old.id) :
    m = old ∧ m.id = id ∧ (registry.replace changed).find? m.id = some changed ∨
      (registry.replace changed).find? m.id = some m := by
  have hfind : registry.find? m.id = some m := (find?_eq_some_iff hids).mpr ⟨hmem, rfl⟩
  have hid : old.id = id := id_of_find? hold
  rw [find?_replace, hfind, Option.map_some, hsame, hid]
  split
  next heq =>
    rw [heq, hold] at hfind
    exact .inl ⟨(Option.some.inj hfind).symm, heq, rfl⟩
  next => exact .inr rfl

/-! ## What becomes of a machine in one command -/

/-- What becomes of a machine by a request that replaces at most one machine. -/
theorem survives_settle {attempt : Except Fault Registry} (hids : registry.DistinctIds)
    (hmem : m ∈ registry.machines) (hcommand : command ≠ .tick)
    (h : ∀ next, attempt = .ok next → ∃ id old changed, registry.find? id = some old ∧
      changed.id = old.id ∧ next = registry.replace changed ∧
      (m = old → m.id = id → Becomes engine registry m command .done changed)) :
    Survives engine registry m command (Engine.settle registry attempt) := by
  have hstay : command = .tick → m.phase ≠ .running := fun heq => absurd heq hcommand
  cases attempt with
  | error fault => exact ⟨m, (find?_eq_some_iff hids).mpr ⟨hmem, rfl⟩, .stay hstay⟩
  | ok next =>
      obtain ⟨id, old, changed, hold, hsame, rfl, hbecomes⟩ := h next rfl
      rcases find?_changed hids hmem hold hsame with ⟨heq, hid, hfind⟩ | hfind
      · exact ⟨changed, hfind, hbecomes heq hid⟩
      · exact ⟨m, hfind, .stay hstay⟩

/-- What becomes of a machine by a request to remove one. -/
theorem survives_or_removes_settle {attempt : Except Fault Registry} (hids : registry.DistinctIds)
    (hmem : m ∈ registry.machines) (hcommand : command ≠ .tick)
    (h : ∀ next, attempt = .ok next → ∃ old, registry.find? old.id = some old ∧
      next = registry.erase old.id ∧ (m = old → Removes engine registry m command)) :
    (Engine.settle registry attempt).2.find? m.id = none ∧ Removes engine registry m command ∨
      Survives engine registry m command (Engine.settle registry attempt) := by
  have hstay : command = .tick → m.phase ≠ .running := fun heq => absurd heq hcommand
  have hfind : registry.find? m.id = some m := (find?_eq_some_iff hids).mpr ⟨hmem, rfl⟩
  cases attempt with
  | error fault => exact .inr ⟨m, hfind, .stay hstay⟩
  | ok next =>
      obtain ⟨old, hold, rfl, hremoves⟩ := h next rfl
      have herase := find?_erase hids old.id m.id
      by_cases hid : m.id = old.id
      · rw [if_pos hid] at herase
        rw [hid, hold] at hfind
        exact .inl ⟨herase, hremoves (Option.some.inj hfind).symm⟩
      · rw [if_neg hid, hfind] at herase
        exact .inr ⟨m, herase, .stay hstay⟩

theorem freeze_eq_ok {next : Registry} (h : registry.freeze id = .ok next) :
    ∃ old frozen, registry.find? id = some old ∧ old.freeze = .ok frozen ∧
      next = registry.replace frozen := by
  obtain ⟨old, hget, h⟩ := of_bind_eq_ok h
  obtain ⟨frozen, hfreeze, h⟩ := of_bind_eq_ok h
  cases h
  exact ⟨old, frozen, get_eq_ok_iff.mp hget, hfreeze, rfl⟩

theorem terminate_eq_ok {next : Registry} (h : registry.terminate id = .ok next) :
    ∃ old, registry.find? old.id = some old ∧ old.id = id ∧ next = registry.erase old.id := by
  obtain ⟨old, hget, h⟩ := of_bind_eq_ok h
  cases h
  have hold : registry.find? id = some old := get_eq_ok_iff.mp hget
  exact ⟨old, (id_of_find? hold).symm ▸ hold, id_of_find? hold, rfl⟩

/-- The machine that a name stands for is the one found under its id. -/
theorem named?_of_find? {named : Machine} (hids : registry.DistinctIds)
    (hname : registry.named? name = some named) (hfind : registry.find? named.id = some m) :
    registry.named? name = some m := by
  have hnamed : registry.find? named.id = some named :=
    (find?_eq_some_iff hids).mpr ⟨List.mem_of_find?_eq_some hname, rfl⟩
  rw [hname, ← hnamed, hfind]

theorem survives_execute (hids : registry.DistinctIds) (hmem : m ∈ registry.machines) :
    Survives engine registry m (.execute id) (engine.perform registry (.execute id)) := by
  refine survives_settle hids hmem (by simp) fun next h => ?_
  obtain ⟨old, hget, h⟩ := of_bind_eq_ok h
  obtain ⟨started, hstart, h⟩ := of_bind_eq_ok h
  cases h
  refine ⟨id, old, started, get_eq_ok_iff.mp hget, (Machine.start_sameProgram hstart).id, rfl, ?_⟩
  rintro rfl rfl
  exact .start hstart

theorem survives_freeze (hids : registry.DistinctIds) (hmem : m ∈ registry.machines) :
    Survives engine registry m (.freeze id) (engine.perform registry (.freeze id)) := by
  refine survives_settle hids hmem (by simp) fun next h => ?_
  obtain ⟨old, frozen, hold, hfreeze, rfl⟩ := freeze_eq_ok h
  refine ⟨id, old, frozen, hold, (Machine.freeze_sameProgram hfreeze).id, rfl, ?_⟩
  rintro rfl rfl
  exact .freeze hfreeze

theorem survives_freezeByName (hids : registry.DistinctIds) (hmem : m ∈ registry.machines) :
    Survives engine registry m (.freezeByName name)
      (engine.perform registry (.freezeByName name)) := by
  refine survives_settle hids hmem (by simp) fun next h => ?_
  obtain ⟨id, hresolve, h⟩ := of_bind_eq_ok h
  obtain ⟨named, hname, rfl⟩ := resolve_eq_ok hresolve
  obtain ⟨old, frozen, hold, hfreeze, rfl⟩ := freeze_eq_ok h
  refine ⟨named.id, old, frozen, hold, (Machine.freeze_sameProgram hfreeze).id, rfl, ?_⟩
  rintro rfl _
  exact .freezeByName (named?_of_find? hids hname hold) hfreeze

theorem survives_reset (hids : registry.DistinctIds) (hmem : m ∈ registry.machines) :
    Survives engine registry m (.reset id) (engine.perform registry (.reset id)) := by
  refine survives_settle hids hmem (by simp) fun next h => ?_
  obtain ⟨old, hget, h⟩ := of_bind_eq_ok h
  cases h
  refine ⟨id, old, old.reset, get_eq_ok_iff.mp hget, old.reset_sameProgram.id, rfl, ?_⟩
  rintro rfl rfl
  exact .reset

theorem survives_write {address : Nat} {cell : Cell} (hids : registry.DistinctIds)
    (hmem : m ∈ registry.machines) :
    Survives engine registry m (.write id address cell)
      (engine.perform registry (.write id address cell)) := by
  simp only [Engine.perform]
  split
  next attempt hwrite =>
    refine survives_settle hids hmem (by simp) fun next h => ?_
    obtain ⟨old, hold, rfl⟩ := Option.map_eq_some_iff.mp hwrite
    obtain ⟨written, hset, h⟩ := of_bind_eq_ok h
    cases h
    refine ⟨id, old, written, hold, (Machine.setCellAt_sameProgram hset).id, rfl, ?_⟩
    rintro rfl rfl
    exact .write hset
  next => exact ⟨m, (find?_eq_some_iff hids).mpr ⟨hmem, rfl⟩, .stay (by simp)⟩

/-- A load finds room behind all machines, whether it succeeds or not. -/
theorem find?_settleLoad {attempt : Except LoadError Registry} (hids : registry.IdsBelow)
    (hgiven : id < registry.nextId)
    (h : ∀ next, attempt = .ok next → ∃ (name : BoundedText maxProgramNameSize) (image : Image)
      (callLimit : Nat), next = registry.register name image callLimit) :
    (Engine.settleLoad registry attempt).2.find? id = registry.find? id := by
  cases attempt with
  | error error => rfl
  | ok next =>
      obtain ⟨name, image, callLimit, rfl⟩ := h next rfl
      rw [Engine.settleLoad, find?_register hids, if_neg (Nat.ne_of_lt hgiven)]

theorem find?_load (engine : Engine) (hids : registry.IdsBelow) (hgiven : id < registry.nextId)
    (name : String) (bytes : List UInt8) :
    (engine.perform registry (.load name bytes)).2.find? id = registry.find? id := by
  refine find?_settleLoad hids hgiven fun next h => ?_
  obtain ⟨bounded, image, _, hnext⟩ := Engine.load_eq_ok h
  exact ⟨bounded, image, engine.callLimit, hnext⟩

theorem find?_loadImage (engine : Engine) (hids : registry.IdsBelow)
    (hgiven : id < registry.nextId) (name : String) (image : Image) :
    (engine.perform registry (.loadImage name image)).2.find? id = registry.find? id := by
  refine find?_settleLoad hids hgiven fun next h => ?_
  obtain ⟨bounded, _, hnext⟩ := Engine.loadImage_eq_ok h
  exact ⟨bounded, image, engine.callLimit, hnext⟩

/-- A command removes a machine of the registry, or makes something of it. -/
theorem perform_fate (engine : Engine) (hregistry : registry.Ordered)
    (hmem : m ∈ registry.machines) (command : Command) :
    (engine.perform registry command).2.find? m.id = none ∧ Removes engine registry m command ∨
      Survives engine registry m command (engine.perform registry command) := by
  have hids : registry.DistinctIds := hregistry.distinctIds
  have hfind : registry.find? m.id = some m := (find?_eq_some_iff hids).mpr ⟨hmem, rfl⟩
  cases command with
  | load name bytes =>
      have hkept := find?_load engine hregistry.below (hregistry.below m hmem) name bytes
      exact .inr ⟨m, hkept.trans hfind, .stay (by simp)⟩
  | loadImage name image =>
      have hkept := find?_loadImage engine hregistry.below (hregistry.below m hmem) name image
      exact .inr ⟨m, hkept.trans hfind, .stay (by simp)⟩
  | execute id => exact .inr (survives_execute hids hmem)
  | freeze id => exact .inr (survives_freeze hids hmem)
  | freezeByName name => exact .inr (survives_freezeByName hids hmem)
  | terminate id =>
      refine survives_or_removes_settle hids hmem (by simp) fun next h => ?_
      obtain ⟨old, hold, rfl, rfl⟩ := terminate_eq_ok h
      refine ⟨old, hold, rfl, ?_⟩
      rintro rfl
      exact .terminate
  | terminateByName name =>
      refine survives_or_removes_settle hids hmem (by simp) fun next h => ?_
      obtain ⟨id, hresolve, h⟩ := of_bind_eq_ok h
      obtain ⟨named, hname, rfl⟩ := resolve_eq_ok hresolve
      obtain ⟨old, hold, hid, rfl⟩ := terminate_eq_ok h
      refine ⟨old, hold, rfl, ?_⟩
      rintro rfl
      exact .terminateByName (named?_of_find? hids hname (hid ▸ hold))
  | reset id => exact .inr (survives_reset hids hmem)
  | tick =>
      have hafter := find?_tick hids engine.budget m.id
      rw [hfind, Option.bind_some] at hafter
      by_cases hrunning : m.phase = .running
      · obtain ⟨after, hturn, hsurvivor, _⟩ | ⟨fault, hturn, hsurvivor, _⟩ :=
          m.turn_cases engine.budget
        · exact .inr ⟨after, hafter.trans hsurvivor, .turn hrunning hturn⟩
        · exact .inl ⟨hafter.trans hsurvivor, .fail hrunning hturn⟩
      · rw [Machine.survivor?, Machine.tick_of_not_running hrunning] at hafter
        exact .inr ⟨m, hafter, .stay fun _ => hrunning⟩
  | write id address cell => exact .inr (survives_write hids hmem)

/-- A machine is gone after a command if and only if the command is one that removes it. -/
theorem find?_eq_none_iff_removes (engine : Engine) (hregistry : registry.Ordered)
    (hmem : m ∈ registry.machines) (command : Command) :
    (engine.perform registry command).2.find? m.id = none ↔
      Removes engine registry m command := by
  have hids : registry.DistinctIds := hregistry.distinctIds
  have hfind : registry.find? m.id = some m := (find?_eq_some_iff hids).mpr ⟨hmem, rfl⟩
  constructor
  · intro hnone
    rcases perform_fate engine hregistry hmem command with ⟨_, hremoves⟩ | ⟨after, hafter, _⟩
    · exact hremoves
    · rw [hnone] at hafter
      cases hafter
  · intro h
    have hget : registry.get m.id = .ok m := get_eq_ok_iff.mpr hfind
    have hterminate : registry.terminate m.id = .ok (registry.erase m.id) := by
      rw [terminate, bind_of_eq_ok hget]
      rfl
    have herase : (registry.erase m.id).find? m.id = none := by
      rw [find?_erase hids, if_pos rfl]
    cases h with
    | terminate => rw [Engine.perform, hterminate]; exact herase
    | terminateByName hname =>
        rw [Engine.perform, terminateByName, resolve, hname, bind_of_eq_ok rfl, hterminate]
        exact herase
    | fail hrunning h =>
        have hafter := find?_tick hids engine.budget m.id
        rw [hfind, Option.bind_some, Machine.survivor?, h] at hafter
        exact hafter

/-! ## Phases -/

/-- The phase that a machine can be in after a command, and how the command is answered. -/
inductive Advances (registry : Registry) (m : Machine) : Command → Reply → Phase → Prop
  | stay {command : Command} {reply : Reply} : Advances registry m command reply m.phase
  | start (h : m.phase = .loaded ∨ m.phase = .frozen) :
      Advances registry m (.execute m.id) .done .running
  | freeze (h : m.phase = .running) : Advances registry m (.freeze m.id) .done .frozen
  | freezeByName {name : String} (hname : registry.named? name = some m)
      (h : m.phase = .running) : Advances registry m (.freezeByName name) .done .frozen
  | halt {reply : Reply} (h : m.phase = .running) : Advances registry m .tick reply .halted
  | reset : Advances registry m (.reset m.id) .done .loaded

theorem Becomes.advances (h : Becomes engine registry m command reply after) :
    Advances registry m command reply after.phase := by
  cases h with
  | stay => exact .stay
  | start h =>
      obtain ⟨_, rfl⟩ := Machine.eq_of_start h
      exact .start (Machine.phase_of_start h)
  | freeze h =>
      obtain ⟨hrunning, rfl⟩ := Machine.eq_of_freeze h
      exact .freeze hrunning
  | freezeByName hname h =>
      obtain ⟨hrunning, rfl⟩ := Machine.eq_of_freeze h
      exact .freezeByName hname hrunning
  | reset => exact .reset
  | write h =>
      obtain ⟨hcontrol, _⟩ := Machine.setCellAt_control h
      have hphase : after.phase = m.phase := congrArg Machine.Control.phase hcontrol
      rw [hphase]
      exact .stay
  | turn hrunning h =>
      rcases (Machine.turn_phase hrunning h).2 with hphase | hphase
      · rw [hphase, ← hrunning]
        exact .stay
      · rw [hphase]
        exact .halt hrunning

/-- A tick leaves a machine alone that is not running. -/
theorem Becomes.eq_of_not_running (h : Becomes engine registry m .tick reply after)
    (hrunning : m.phase ≠ .running) : after = m := by
  cases h with
  | stay => rfl
  | turn hruns => exact absurd hruns hrunning

theorem Becomes.ticks_eq (h : Becomes engine registry m .tick reply after)
    (hrunning : m.phase = .running) : after.ticks = m.ticks + 1 := by
  cases h with
  | stay hstay => exact absurd hrunning (hstay rfl)
  | turn _ h => exact (Machine.turn_phase hrunning h).1

end Registry

namespace Engine

open Registry

/-- After every history a command takes a machine out of the registry only if it asks for that or
the machine fails in its turn; a machine that stays keeps what it was loaded with, its phase
advances as it can by this command, and a tick leaves it alone or counts once. -/
theorem history_lifecycle (requests : List (Engine × Command)) (engine : Engine)
    (command : Command) {m : Machine} (hmem : m ∈ (history requests).machines) :
    (engine.perform (history requests) command).2.find? m.id = none ∧
        Removes engine (history requests) m command ∨
      ∃ after, (engine.perform (history requests) command).2.find? m.id = some after ∧
        m.SameProgram after ∧
        Advances (history requests) m command (engine.perform (history requests) command).1
          after.phase ∧
        (command = .tick → m.phase ≠ .running → after = m) ∧
        (command = .tick → m.phase = .running → after.ticks = m.ticks + 1) := by
  rcases perform_fate engine (history_ordered requests) hmem command with
    hgone | ⟨after, hafter, hbecomes⟩
  · exact .inl hgone
  · refine .inr ⟨after, hafter, hbecomes.moved.sameProgram, hbecomes.advances, ?_, ?_⟩
    · rintro rfl
      exact hbecomes.eq_of_not_running
    · rintro rfl
      exact hbecomes.ticks_eq

/-- Two programs of one name are started. The first one leaves its program, the second one halts. -/
def twins : List (Engine × Command) :=
  [({}, .loadImage "twin" ⟨[.ofOpcode .jump 0 (.u32 9)]⟩),
    ({}, .loadImage "twin" ⟨[.ofOpcode .halt 0 .none]⟩), ({}, .execute 0), ({}, .execute 1)]

theorem history_lifecycle_twins :
    (history twins).machines.map Machine.phase = [.running, .running] ∧
    (∃ m ∈ (history twins).machines, m.id = 0 ∧ Removes {} (history twins) m .tick) ∧
    ∃ m ∈ (history twins).machines, m.id = 1 ∧
      ∃ after, (perform {} (history twins) .tick).2.find? 1 = some after ∧
        after.phase = .halted ∧ m.SameProgram after ∧ after.ticks = m.ticks + 1 := by
  have hfirst : 0 < (history twins).machines.length := by decide
  have hsecond : 1 < (history twins).machines.length := by decide
  have hleaving : (history twins).machines[0] ∈ (history twins).machines := List.getElem_mem hfirst
  have hhalting : (history twins).machines[1] ∈ (history twins).machines :=
    List.getElem_mem hsecond
  refine ⟨by decide, ⟨_, hleaving, rfl, ?_⟩, ⟨_, hhalting, rfl, ?_⟩⟩
  · rcases history_lifecycle twins {} .tick hleaving with ⟨_, hremoves⟩ | ⟨after, hfind, _⟩
    · exact hremoves
    · have hgone : (perform {} (history twins) .tick).2.find? 0 = none := by decide
      exact absurd (hgone.symm.trans hfind) (by simp)
  · rcases history_lifecycle twins {} .tick hhalting with
      ⟨hnone, _⟩ | ⟨after, hfind, hsame, _, _, hcount⟩
    · have hleft : (perform {} (history twins) .tick).2.find? 1 ≠ none := by decide
      exact absurd hnone hleft
    · have hphase : ((perform {} (history twins) .tick).2.find? 1).map Machine.phase =
          some .halted := by decide
      have hafter : some after.phase = some .halted := (congrArg _ hfind).symm.trans hphase
      exact ⟨after, hfind, Option.some.inj hafter, hsame, hcount rfl rfl⟩

end Engine

end TickMachine
