import TickMachine.Machine.Engine
import TickMachine.Proofs.Attempts
import TickMachine.Proofs.Machine.Moves

/-! # What a command does to the machines

Every machine of the registry after a command was in it before and moved, or it was loaded by the
command and has the id that was next. So a property that no move takes away is kept by all machines
through every history, and a loaded machine can be followed by its id.
-/

namespace TickMachine

namespace Registry

variable {registry after : Registry} {m : Machine} {id : Nat} {name : String}

/-! ## Registries whose machines have moved -/

/-- The later registry holds machines of the former one, each after a move, and no others. -/
structure Succeeds (after registry : Registry) : Prop where
  machines : ∀ m ∈ after.machines, ∃ old ∈ registry.machines, old.Moved m
  /-- The machines that are left stand in their former order. -/
  ids : (after.machines.map Machine.id).Sublist (registry.machines.map Machine.id)
  nextId : after.nextId = registry.nextId

theorem Succeeds.refl (registry : Registry) : registry.Succeeds registry :=
  ⟨fun m hmem => ⟨m, hmem, .stay⟩, .refl _, rfl⟩

theorem mem_of_get (h : registry.get id = .ok m) : m ∈ registry.machines := by
  unfold get at h
  split at h
  next hfind =>
    cases h
    exact List.mem_of_find?_eq_some hfind
  next => cases h

theorem ids_replace (registry : Registry) (m : Machine) :
    (registry.replace m).machines.map Machine.id = registry.machines.map Machine.id := by
  rw [replace, List.map_map]
  apply List.map_congr_left
  intro old _
  by_cases hid : old.id = m.id <;> simp [hid]

theorem succeeds_replace {old : Machine} (hold : old ∈ registry.machines) (h : old.Moved m) :
    (registry.replace m).Succeeds registry := by
  refine ⟨fun other hmem => ?_, (registry.ids_replace m).symm ▸ .refl _, rfl⟩
  obtain ⟨former, hformer, rfl⟩ := List.mem_map.mp hmem
  split
  · exact ⟨old, hold, h⟩
  · exact ⟨former, hformer, .stay⟩

theorem succeeds_erase (registry : Registry) (id : Nat) :
    (registry.erase id).Succeeds registry :=
  ⟨fun m hmem => ⟨m, List.mem_of_mem_eraseP hmem, .stay⟩, List.eraseP_sublist.map _, rfl⟩

theorem succeeds_execute (h : registry.execute id = .ok after) : after.Succeeds registry := by
  obtain ⟨m, hget, h⟩ := of_bind_eq_ok h
  obtain ⟨started, hstart, h⟩ := of_bind_eq_ok h
  cases h
  exact succeeds_replace (mem_of_get hget) (.start hstart)

theorem succeeds_freeze (h : registry.freeze id = .ok after) : after.Succeeds registry := by
  obtain ⟨m, hget, h⟩ := of_bind_eq_ok h
  obtain ⟨frozen, hfreeze, h⟩ := of_bind_eq_ok h
  cases h
  exact succeeds_replace (mem_of_get hget) (.freeze hfreeze)

theorem succeeds_freezeByName (h : registry.freezeByName name = .ok after) :
    after.Succeeds registry := by
  obtain ⟨id, _, h⟩ := of_bind_eq_ok h
  exact succeeds_freeze h

theorem succeeds_terminate (h : registry.terminate id = .ok after) :
    after.Succeeds registry := by
  obtain ⟨m, _, h⟩ := of_bind_eq_ok h
  cases h
  exact registry.succeeds_erase m.id

theorem succeeds_terminateByName (h : registry.terminateByName name = .ok after) :
    after.Succeeds registry := by
  obtain ⟨id, _, h⟩ := of_bind_eq_ok h
  exact succeeds_terminate h

theorem succeeds_reset (h : registry.reset id = .ok after) : after.Succeeds registry := by
  obtain ⟨m, hget, h⟩ := of_bind_eq_ok h
  cases h
  exact succeeds_replace (mem_of_get hget) .reset

theorem succeeds_write {attempt : Except Fault Registry} {address : Nat} {cell : Cell}
    (hwrite : Engine.write registry id address cell = some attempt) (h : attempt = .ok after) :
    after.Succeeds registry := by
  obtain ⟨m, hfind, rfl⟩ := Option.map_eq_some_iff.mp hwrite
  obtain ⟨written, hset, h⟩ := of_bind_eq_ok h
  cases h
  exact succeeds_replace (List.mem_of_find?_eq_some hfind) (.write hset)

/-- In the middle of a tick the machines that failed are still there, as they were. -/
theorem moved_of_mem_sweep {machines : List Machine} {budget : Nat}
    (hmem : m ∈ (sweep budget machines).1) : ∃ old ∈ machines, old.Moved m := by
  induction machines with
  | nil => cases hmem
  | cons first others ih =>
      have hothers : m ∈ (sweep budget others).1 → ∃ old ∈ first :: others, old.Moved m := by
        intro hmem
        obtain ⟨old, hold, hmoved⟩ := ih hmem
        exact ⟨old, List.mem_cons_of_mem first hold, hmoved⟩
      simp only [sweep] at hmem
      split at hmem
      next next hturn =>
        rcases List.mem_cons.mp hmem with rfl | hmem
        · exact ⟨first, List.mem_cons_self, .turn hturn⟩
        · exact hothers hmem
      next =>
        rcases List.mem_cons.mp hmem with rfl | hmem
        · exact ⟨m, List.mem_cons_self, .stay⟩
        · exact hothers hmem

/-- Nor do they change their places. -/
theorem ids_sweep (budget : Nat) (machines : List Machine) :
    (sweep budget machines).1.map Machine.id = machines.map Machine.id := by
  induction machines with
  | nil => rfl
  | cons first others ih =>
      simp only [sweep]
      split
      next next hturn => rw [List.map_cons, ih, (Machine.tick_sameProgram hturn).id, List.map_cons]
      next => rw [List.map_cons, ih, List.map_cons]

theorem foldl_erase_sublist (registry : Registry) (ids : List Nat) :
    (ids.foldl erase registry).machines.Sublist registry.machines := by
  induction ids generalizing registry with
  | nil => exact .refl _
  | cons id ids ih => exact (ih (registry.erase id)).trans List.eraseP_sublist

theorem nextId_foldl_erase (registry : Registry) (ids : List Nat) :
    (ids.foldl erase registry).nextId = registry.nextId := by
  induction ids generalizing registry with
  | nil => rfl
  | cons id ids ih => exact ih (registry.erase id)

theorem succeeds_tick (registry : Registry) (budget : Nat) :
    (registry.tick budget).1.Succeeds registry where
  machines _ hmem := moved_of_mem_sweep ((foldl_erase_sublist _ _).subset hmem)
  ids := by
    rw [← ids_sweep budget registry.machines]
    exact (foldl_erase_sublist _ _).map Machine.id
  nextId := nextId_foldl_erase _ _

end Registry

/-! ## Commands -/

/-- The id that a load was answered with. -/
def Reply.loaded? : Reply → Option Nat
  | .loaded id => some id
  | _ => none

/-- The command loads an image under a name, from its bytes or as it is. -/
inductive Command.Loads (name : BoundedText maxProgramNameSize) (image : Image) : Command → Prop
  | bytes {bytes : List UInt8} (h : Image.decode bytes = .ok image) :
      Loads name image (.load name.text bytes)
  | image : Loads name image (.loadImage name.text image)

namespace Engine

open Registry

variable {engine : Engine} {registry : Registry}

theorem loadImage_eq_ok {after : Registry} {name : String} {image : Image}
    (h : engine.loadImage registry name image = .ok after) :
    ∃ bounded : BoundedText maxProgramNameSize,
      (Command.loadImage name image).Loads bounded image ∧
        after = registry.register bounded image engine.callLimit := by
  obtain ⟨bounded, hname, h⟩ := of_bind_eq_ok h
  cases h
  obtain rfl := BoundedText.ofString_eq_ok_iff.mp (mapError_eq_ok_iff.mp hname)
  exact ⟨bounded, .image, rfl⟩

theorem load_eq_ok {after : Registry} {name : String} {bytes : List UInt8}
    (h : engine.load registry name bytes = .ok after) :
    ∃ (bounded : BoundedText maxProgramNameSize) (image : Image),
      (Command.load name bytes).Loads bounded image ∧
        after = registry.register bounded image engine.callLimit := by
  obtain ⟨bounded, hname, h⟩ := of_bind_eq_ok h
  obtain ⟨image, hdecode, h⟩ := of_bind_eq_ok h
  cases h
  obtain rfl := BoundedText.ofString_eq_ok_iff.mp (mapError_eq_ok_iff.mp hname)
  exact ⟨bounded, image, .bytes (mapError_eq_ok_iff.mp hdecode), rfl⟩

/-- A command that can be refused loads nothing, and changes machines by moves only, if its success
does. -/
theorem succeeds_settle {attempt : Except Fault Registry}
    (hattempt : ∀ after, attempt = .ok after → after.Succeeds registry) :
    (settle registry attempt).1.loaded? = none ∧
      (settle registry attempt).2.Succeeds registry := by
  cases attempt with
  | error fault => exact ⟨rfl, Succeeds.refl registry⟩
  | ok after => exact ⟨rfl, hattempt after rfl⟩

/-- What a command can come to: nothing was loaded and the machines moved, or one more was
registered with the next id, which is the answer. -/
theorem perform_outcome (engine : Engine) (registry : Registry) (command : Command) :
    (engine.perform registry command).1.loaded? = none ∧
        (engine.perform registry command).2.Succeeds registry ∨
      ∃ (name : BoundedText maxProgramNameSize) (image : Image),
        command.Loads name image ∧ engine.perform registry command =
          (.loaded registry.nextId, registry.register name image engine.callLimit) := by
  cases command with
  | load name bytes =>
      cases hload : engine.load registry name bytes with
      | error e =>
          simp only [perform, hload]
          exact .inl ⟨rfl, Succeeds.refl registry⟩
      | ok after =>
          simp only [perform, hload]
          obtain ⟨bounded, image, hloads, rfl⟩ := load_eq_ok hload
          exact .inr ⟨bounded, image, hloads, rfl⟩
  | loadImage name image =>
      cases hload : engine.loadImage registry name image with
      | error e =>
          simp only [perform, hload]
          exact .inl ⟨rfl, Succeeds.refl registry⟩
      | ok after =>
          simp only [perform, hload]
          obtain ⟨bounded, hloads, rfl⟩ := loadImage_eq_ok hload
          exact .inr ⟨bounded, image, hloads, rfl⟩
  | execute id => exact .inl (succeeds_settle fun _ => succeeds_execute)
  | freeze id => exact .inl (succeeds_settle fun _ => succeeds_freeze)
  | freezeByName name => exact .inl (succeeds_settle fun _ => succeeds_freezeByName)
  | terminate id => exact .inl (succeeds_settle fun _ => succeeds_terminate)
  | terminateByName name => exact .inl (succeeds_settle fun _ => succeeds_terminateByName)
  | reset id => exact .inl (succeeds_settle fun _ => succeeds_reset)
  | tick => exact .inl ⟨rfl, registry.succeeds_tick engine.budget⟩
  | write id address cell =>
      simp only [perform]
      split
      next attempt hwrite => exact .inl (succeeds_settle fun _ => succeeds_write hwrite)
      next => exact .inl ⟨rfl, Succeeds.refl registry⟩

/-- What a command can come to, its answer aside. -/
theorem perform_cases (engine : Engine) (registry : Registry) (command : Command) :
    (engine.perform registry command).2.Succeeds registry ∨
      ∃ (name : BoundedText maxProgramNameSize) (image : Image),
        (engine.perform registry command).2 = registry.register name image engine.callLimit := by
  rcases engine.perform_outcome registry command with ⟨_, hafter⟩ | ⟨name, image, _, hafter⟩
  · exact .inl hafter
  · exact .inr ⟨name, image, congrArg Prod.snd hafter⟩

/-- The machines of a registry that gained one. -/
theorem mem_register {name : BoundedText maxProgramNameSize} {image : Image} {callLimit : Nat}
    {m : Machine} (hmem : m ∈ (registry.register name image callLimit).machines) :
    m ∈ registry.machines ∨
      m = .fresh registry.nextId name image.instructions.toArray callLimit := by
  rcases List.mem_append.mp hmem with hold | hnew
  · exact .inl hold
  · exact .inr (List.mem_singleton.mp hnew)

theorem history_concat (before : List (Engine × Command)) (engine : Engine) (command : Command) :
    history (before ++ [(engine, command)]) = (engine.perform (history before) command).2 := by
  rw [history, List.foldl_append]
  rfl

/-- What no command takes away holds after every history, if it holds at some time before. -/
theorem history_keeps {P : Registry → Prop}
    (hstep : ∀ (engine : Engine) (registry : Registry) (command : Command),
      P registry → P (engine.perform registry command).2)
    {before : List (Engine × Command)} (hbefore : P (history before))
    (requests : List (Engine × Command)) : P (history (before ++ requests)) := by
  rw [history, List.foldl_append]
  change P (requests.foldl _ (history before))
  generalize history before = registry at hbefore
  induction requests generalizing registry with
  | nil => exact hbefore
  | cons request others ih => exact ih _ (hstep request.1 registry request.2 hbefore)

end Engine

/-! ## Following a machine by its id -/

namespace Registry

/-- The ids that were given are below the next one. -/
def IdsBelow (registry : Registry) : Prop :=
  ∀ m ∈ registry.machines, m.id < registry.nextId

theorem IdsBelow.succeeds {registry after : Registry} (h : registry.IdsBelow)
    (hafter : after.Succeeds registry) : after.IdsBelow := by
  intro m hmem
  obtain ⟨old, hold, hmoved⟩ := hafter.machines m hmem
  rw [hafter.nextId, hmoved.sameProgram.id]
  exact h old hold

theorem IdsBelow.register {registry : Registry} (h : registry.IdsBelow)
    (name : BoundedText maxProgramNameSize) (image : Image) (callLimit : Nat) :
    (registry.register name image callLimit).IdsBelow := by
  intro m hmem
  rcases Engine.mem_register hmem with hold | rfl
  · exact Nat.lt_succ_of_lt (h m hold)
  · exact Nat.lt_succ_self registry.nextId

/-- The machines with an id have a property, and the id was given already, so that no machine to
come can have it. -/
structure Holds (id : Nat) (P : Machine → Prop) (registry : Registry) : Prop where
  machines : ∀ m ∈ registry.machines, m.id = id → P m
  given : id < registry.nextId

end Registry

namespace Engine

open Registry

variable {engine : Engine} {registry : Registry} {command : Command}

theorem perform_idsBelow (hids : registry.IdsBelow) :
    (engine.perform registry command).2.IdsBelow := by
  rcases engine.perform_cases registry command with hafter | ⟨name, image, hafter⟩
  · exact hids.succeeds hafter
  · rw [hafter]
    exact hids.register name image engine.callLimit

theorem history_idsBelow (requests : List (Engine × Command)) :
    (history requests).IdsBelow := by
  have hempty : (history []).IdsBelow := fun m hmem => by cases hmem
  exact history_keeps (fun _ _ _ => perform_idsBelow) hempty requests

/-- A lasting property of the machine with an id is there after every command. -/
theorem perform_holds {id : Nat} {P : Machine → Prop} (hP : Machine.Lasting P)
    (h : registry.Holds id P) : (engine.perform registry command).2.Holds id P := by
  rcases engine.perform_cases registry command with hafter | ⟨name, image, hafter⟩
  · refine ⟨fun m hmem hid => ?_, ?_⟩
    · obtain ⟨old, hold, hmoved⟩ := hafter.machines m hmem
      have hsame : old.id = id := hmoved.sameProgram.id.symm.trans hid
      exact hP.moved (h.machines old hold hsame) hmoved
    · rw [hafter.nextId]
      exact h.given
  · rw [hafter]
    refine ⟨fun m hmem hid => ?_, Nat.lt_succ_of_lt h.given⟩
    rcases mem_register hmem with hold | rfl
    · exact h.machines m hold hid
    · -- the machine that was loaded just now has an id of its own
      exact absurd hid (Nat.ne_of_gt h.given)

end Engine

namespace Engine

open Registry

variable {name : BoundedText maxProgramNameSize} {image : Image} {command : Command}

theorem perform_loads (engine : Engine) (registry : Registry) (h : command.Loads name image) :
    engine.perform registry command =
      (.loaded registry.nextId, registry.register name image engine.callLimit) := by
  have hname : BoundedText.ofString name.text = .ok name := BoundedText.ofString_eq_ok_iff.mpr rfl
  cases h with
  | bytes h =>
      simp only [perform, load, hname, h]
      rfl
  | image =>
      simp only [perform, loadImage, hname]
      rfl

/-- A lasting property that a machine has when it is loaded is one that the machine with its id has
for good, whatever happened before and happens later. -/
theorem history_holds {P : Machine → Prop} (hP : Machine.Lasting P) (h : command.Loads name image)
    (loader : Engine) (before after : List (Engine × Command))
    (hfresh : P (.fresh (history before).nextId name image.instructions.toArray
      loader.callLimit)) :
    (history (before ++ (loader, command) :: after)).Holds (history before).nextId P := by
  have hloaded : (history (before ++ [(loader, command)])).Holds (history before).nextId P := by
    have hrun : history (before ++ [(loader, command)]) =
        (history before).register name image loader.callLimit := by
      rw [history_concat, loader.perform_loads (history before) h]
    rw [hrun]
    refine ⟨fun m hmem hid => ?_, Nat.lt_succ_self (history before).nextId⟩
    rcases mem_register hmem with hold | rfl
    · exact absurd hid (Nat.ne_of_lt (history_idsBelow before m hold))
    · exact hfresh
  rw [List.append_cons]
  exact history_keeps (fun _ _ _ => perform_holds hP) hloaded after

end Engine

/-! ## Refusals -/

/-- The reasons for which a command can be refused. -/
inductive FaultCause.OfRequest : FaultCause → Prop
  | notReady : OfRequest .notReady
  | emptyProgram : OfRequest .emptyProgram
  | unknownProgram : OfRequest .unknownProgram
  | memoryOutOfBounds (address : Nat) : OfRequest (.memoryOutOfBounds address)

namespace Registry

variable {registry : Registry} {id : Nat} {name : String} {fault : Fault}

theorem get_error (h : registry.get id = .error fault) : fault.cause.OfRequest := by
  unfold get at h
  split at h
  next => cases h
  next =>
    cases h
    exact .unknownProgram

theorem resolve_error (h : registry.resolve name = .error fault) : fault.cause.OfRequest := by
  unfold resolve at h
  split at h
  next => cases h
  next =>
    cases h
    exact .unknownProgram

theorem execute_error (h : registry.execute id = .error fault) : fault.cause.OfRequest := by
  rcases of_bind_eq_error h with h | ⟨m, _, h⟩
  · exact get_error h
  · rcases of_bind_eq_error h with h | ⟨_, _, h⟩
    · unfold Machine.start at h
      split at h
      case h_1 | h_2 =>
        split at h
        next =>
          cases h
          exact .emptyProgram
        next => cases h
      all_goals
        cases h
        exact .notReady
    · cases h

theorem freeze_error (h : registry.freeze id = .error fault) : fault.cause.OfRequest := by
  rcases of_bind_eq_error h with h | ⟨m, _, h⟩
  · exact get_error h
  · rcases of_bind_eq_error h with h | ⟨_, _, h⟩
    · unfold Machine.freeze at h
      split at h
      next => cases h
      next =>
        cases h
        exact .notReady
    · cases h

theorem terminate_error (h : registry.terminate id = .error fault) : fault.cause.OfRequest := by
  rcases of_bind_eq_error h with h | ⟨_, _, h⟩
  · exact get_error h
  · cases h

theorem reset_error (h : registry.reset id = .error fault) : fault.cause.OfRequest := by
  rcases of_bind_eq_error h with h | ⟨_, _, h⟩
  · exact get_error h
  · cases h

/-- Asking by name is refused if there is no such machine, or if asking for its id is. -/
theorem resolve_bind_error {ask : Nat → Except Fault Registry}
    (hask : ∀ id, ask id = .error fault → fault.cause.OfRequest)
    (h : registry.resolve name >>= ask = .error fault) : fault.cause.OfRequest := by
  rcases of_bind_eq_error h with h | ⟨id, _, h⟩
  · exact resolve_error h
  · exact hask id h

end Registry

namespace Engine

open Registry

theorem write_error {registry : Registry} {id address : Nat} {cell : Cell}
    {attempt : Except Fault Registry} {fault : Fault}
    (hwrite : write registry id address cell = some attempt) (h : attempt = .error fault) :
    fault.cause.OfRequest := by
  obtain ⟨m, _, rfl⟩ := Option.map_eq_some_iff.mp hwrite
  unfold Machine.setCellAt at h
  split at h
  next => cases h
  next =>
    cases h
    exact .memoryOutOfBounds address

theorem settle_refused {registry : Registry} {attempt : Except Fault Registry} {fault : Fault}
    (h : (settle registry attempt).1 = .refused fault) : attempt = .error fault := by
  cases attempt with
  | ok after => cases h
  | error found =>
      cases h
      rfl

/-- No command is refused for a reason that only a running program can give. -/
theorem perform_refused {engine : Engine} {registry : Registry} {command : Command}
    {fault : Fault} (h : (engine.perform registry command).1 = .refused fault) :
    fault.cause.OfRequest := by
  cases command with
  | load name bytes =>
      simp only [perform] at h
      cases hload : engine.load registry name bytes <;> simp [hload, settleLoad] at h
  | loadImage name image =>
      simp only [perform] at h
      cases hload : engine.loadImage registry name image <;> simp [hload, settleLoad] at h
  | execute id => exact execute_error (settle_refused h)
  | freeze id => exact freeze_error (settle_refused h)
  | freezeByName name =>
      exact resolve_bind_error (fun _ => freeze_error) (settle_refused h)
  | terminate id => exact terminate_error (settle_refused h)
  | terminateByName name =>
      exact resolve_bind_error (fun _ => terminate_error) (settle_refused h)
  | reset id => exact reset_error (settle_refused h)
  | tick => cases h
  | write id address cell =>
      simp only [perform] at h
      split at h
      next attempt hwrite => exact write_error hwrite (settle_refused h)
      next => cases h

end Engine

end TickMachine
