import TickMachine.Proofs.Registry.Lifecycle

/-! # Registries changed in place

Commands carried out as a sequence of reads and writes on one registry, where a failure takes nothing
back: what was written before it stays written. Every operation reads and checks first, and once it
has begun to write nothing can fail any more. So it comes to the same as the attempt that gives a new
registry or none, and a command that fails changes nothing, of which later commands could tell.
-/

namespace TickMachine

/-- An operation on a registry that is changed in place. A failure keeps what was written so far. -/
abbrev InPlace (ε : Type) := EStateM ε Registry

namespace InPlace

open Registry

variable {ε α β : Type}

/-! ## Operations -/

/-- The machine with the given id. -/
def machine (id : Nat) : InPlace Fault Machine := do
  match (← get).find? id with
  | some m => return m
  | none => throw (unknown (idText id))

/-- The id of the machine with the given name. -/
def named (name : String) : InPlace Fault Nat := do
  match (← get).named? name with
  | some m => return m.id
  | none => throw (unknown name)

/-- Changes the first machine with the id, where it stands. -/
def changeFirst (id : Nat) (change : Machine → Machine) : List Machine → List Machine
  | [] => []
  | m :: others => if m.id = id then change m :: others else m :: changeFirst id change others

def writeTo (id : Nat) (change : Machine → Machine) : InPlace Fault Unit :=
  modify fun registry => { registry with machines := changeFirst id change registry.machines }

def execute (id : Nat) : InPlace Fault Unit := do
  let m ← machine id
  match m.phase with
  | .loaded | .frozen =>
    if m.code.isEmpty then throw (m.fault .emptyProgram)
    else writeTo id fun m => { m with phase := .running }
  | .running | .halted => throw (m.fault .notReady)

def freeze (id : Nat) : InPlace Fault Unit := do
  let m ← machine id
  match m.phase with
  | .running => writeTo id fun m => { m with phase := .frozen }
  | _ => throw (m.fault .notReady)

def freezeByName (name : String) : InPlace Fault Unit := do
  freeze (← named name)

def terminate (id : Nat) : InPlace Fault Unit := do
  let m ← machine id
  modify fun registry => registry.erase m.id

def terminateByName (name : String) : InPlace Fault Unit := do
  terminate (← named name)

def reset (id : Nat) : InPlace Fault Unit := do
  let _ ← machine id
  writeTo id Machine.reset

/-- Writes a memory cell of a machine that was found. -/
def write (m : Machine) (address : Nat) (cell : Cell) : InPlace Fault Unit :=
  if h : address < memorySize then
    writeTo m.id fun m => { m with memory := m.memory.set address cell }
  else throw (m.fault (.memoryOutOfBounds address))

/-- Takes the next id, then adds the machine. -/
def register (name : BoundedText maxProgramNameSize) (image : Image) (callLimit : Nat) :
    InPlace LoadError Nat := do
  let id := (← get).nextId
  modify fun registry => { registry with nextId := registry.nextId + 1 }
  modify fun registry => { registry with
    machines := registry.machines ++ [.fresh id name image.instructions.toArray callLimit] }
  return id

def loadImage (engine : Engine) (name : String) (image : Image) : InPlace LoadError Nat := do
  let name ← ofExcept ((BoundedText.ofString name).mapError .invalidName)
  register name image engine.callLimit

def load (engine : Engine) (name : String) (bytes : List UInt8) : InPlace LoadError Nat := do
  let name ← ofExcept ((BoundedText.ofString name).mapError .invalidName)
  let image ← ofExcept ((Image.decode bytes).mapError .image)
  register name image engine.callLimit

/-- The answer to an operation, with the registry it leaves behind. -/
def conclude (done : α → Reply) (failed : ε → Reply) :
    EStateM.Result ε Registry α → Reply × Registry
  | .ok a registry => (done a, registry)
  | .error e registry => (failed e, registry)

end InPlace

/-- Carries out a command by changing the registry in place. -/
def Engine.carryOut (engine : Engine) (registry : Registry) : Command → Reply × Registry
  | .load name bytes =>
    InPlace.conclude .loaded .notLoaded ((InPlace.load engine name bytes).run registry)
  | .loadImage name image =>
    InPlace.conclude .loaded .notLoaded ((InPlace.loadImage engine name image).run registry)
  | .execute id => InPlace.conclude (fun _ => .done) .refused ((InPlace.execute id).run registry)
  | .freeze id => InPlace.conclude (fun _ => .done) .refused ((InPlace.freeze id).run registry)
  | .freezeByName name =>
    InPlace.conclude (fun _ => .done) .refused ((InPlace.freezeByName name).run registry)
  | .terminate id =>
    InPlace.conclude (fun _ => .done) .refused ((InPlace.terminate id).run registry)
  | .terminateByName name =>
    InPlace.conclude (fun _ => .done) .refused ((InPlace.terminateByName name).run registry)
  | .reset id => InPlace.conclude (fun _ => .done) .refused ((InPlace.reset id).run registry)
  -- a tick has no failure of its own
  | .tick => engine.perform registry .tick
  | .write id address cell =>
    match registry.find? id with
    | some m =>
      InPlace.conclude (fun _ => .done) .refused ((InPlace.write m address cell).run registry)
    | none => (.absent, registry)

namespace InPlace

open Registry

variable {ε α β : Type} {registry : Registry} {m : Machine} {id : Nat}

/-! ## Reading first, writing last -/

/-- The operation finds what the attempt finds, and leaves the registry as it is. -/
def Reads (x : InPlace ε α) (registry : Registry) (found : Except ε α) : Prop :=
  x.run registry = match found with
    | .ok a => .ok a registry
    | .error e => .error e registry

/-- The operation comes to what the attempt says: to its registry, with the answer, or to its failure
with nothing written. -/
def Settles (x : InPlace ε α) (registry : Registry) (answer : α) (attempt : Except ε Registry) :
    Prop :=
  x.run registry = match attempt with
    | .ok after => .ok answer after
    | .error e => .error e registry

/-- What is read before anything is written does not spoil the registry. -/
theorem Reads.bind {x : InPlace ε α} {found : Except ε α} {f : α → InPlace ε β}
    {g : α → Except ε Registry} {answer : β} (hx : x.Reads registry found)
    (hf : ∀ a, found = .ok a → (f a).Settles registry answer (g a)) :
    (x >>= f).Settles registry answer (found >>= g) := by
  unfold Settles
  rw [EStateM.run_bind, hx]
  cases found with
  | ok a => exact hf a rfl
  | error e => rfl

theorem settles_throw (e : ε) (answer : α) : Settles (throw e) registry answer (.error e) := rfl

theorem reads_ofExcept (found : Except ε α) : Reads (ofExcept found) registry found := by
  cases found with
  | ok a => rfl
  | error e => rfl

theorem reads_machine (id : Nat) (registry : Registry) :
    (machine id).Reads registry (registry.get id) := by
  unfold Reads Registry.get
  cases hfind : registry.find? id with
  | some m => simp [machine, hfind]
  | none =>
      simp only [machine, EStateM.run_bind, EStateM.run_get, hfind]
      rfl

theorem reads_named (name : String) (registry : Registry) :
    (named name).Reads registry (registry.resolve name) := by
  unfold Reads Registry.resolve
  cases hname : registry.named? name with
  | some m => simp [named, hname]
  | none =>
      simp only [named, EStateM.run_bind, EStateM.run_get, hname]
      rfl

/-! ## Writing to one machine -/

/-- No two machines have the same id, so the first machine with an id is the one. -/
theorem changeFirst_eq {machines : List Machine} {change : Machine → Machine}
    (hids : (machines.map Machine.id).Nodup) (hfind : machines.find? (·.id = id) = some m)
    (hsame : (change m).id = m.id) : changeFirst id change machines =
      machines.map fun old => if old.id = (change m).id then change m else old := by
  have hid : m.id = id := by simpa using List.find?_some hfind
  rw [hsame, hid]
  induction machines with
  | nil => rfl
  | cons first others ih =>
      obtain ⟨hfresh, hothers⟩ := List.nodup_cons.mp hids
      by_cases hfirst : first.id = id
      · rw [List.find?_cons_of_pos (by simpa using hfirst)] at hfind
        obtain rfl := Option.some.inj hfind
        have hrest : ∀ old ∈ others, (if old.id = id then change first else old) = old := by
          intro old hold
          refine if_neg fun heq => hfresh (List.mem_map.mpr ⟨old, hold, ?_⟩)
          rw [heq, hfirst]
        rw [changeFirst, if_pos hfirst, List.map_cons, if_pos hfirst, List.map_congr_left hrest,
          List.map_id']
      · rw [List.find?_cons_of_neg (by simpa using hfirst)] at hfind
        rw [changeFirst, if_neg hfirst, List.map_cons, if_neg hfirst, ih hothers hfind]

theorem settles_writeTo {change : Machine → Machine} (hids : registry.DistinctIds)
    (hfind : registry.find? id = some m) (hsame : (change m).id = m.id) :
    (writeTo id change).Settles registry () (.ok (registry.replace (change m))) := by
  unfold Settles
  rw [writeTo, EStateM.run_modify, changeFirst_eq hids hfind hsame]
  rfl

/-! ## The operations settle -/

theorem settles_execute (hids : registry.DistinctIds) (id : Nat) :
    (execute id).Settles registry () (registry.execute id) := by
  refine (reads_machine id registry).bind fun m hget => ?_
  have hfind : registry.find? id = some m := get_eq_ok_iff.mp hget
  unfold Machine.start
  cases m.phase with
  | loaded | frozen =>
      dsimp only
      split
      next => exact settles_throw _ _
      next => exact settles_writeTo hids hfind rfl
  | running | halted => exact settles_throw _ _

theorem settles_freeze (hids : registry.DistinctIds) (id : Nat) :
    (freeze id).Settles registry () (registry.freeze id) := by
  refine (reads_machine id registry).bind fun m hget => ?_
  have hfind : registry.find? id = some m := get_eq_ok_iff.mp hget
  unfold Machine.freeze
  cases m.phase with
  | running => exact settles_writeTo hids hfind rfl
  | loaded | frozen | halted => exact settles_throw _ _

theorem settles_freezeByName (hids : registry.DistinctIds) (name : String) :
    (freezeByName name).Settles registry () (registry.freezeByName name) :=
  (reads_named name registry).bind fun id _ => settles_freeze hids id

theorem settles_terminate (id : Nat) (registry : Registry) :
    (terminate id).Settles registry () (registry.terminate id) :=
  (reads_machine id registry).bind fun _ _ => rfl

theorem settles_terminateByName (name : String) (registry : Registry) :
    (terminateByName name).Settles registry () (registry.terminateByName name) :=
  (reads_named name registry).bind fun id _ => settles_terminate id registry

theorem settles_reset (hids : registry.DistinctIds) (id : Nat) :
    (reset id).Settles registry () (registry.reset id) :=
  (reads_machine id registry).bind fun _ hget =>
    settles_writeTo hids (get_eq_ok_iff.mp hget) rfl

theorem settles_write (hids : registry.DistinctIds) (hfind : registry.find? id = some m)
    (address : Nat) (cell : Cell) :
    (write m address cell).Settles registry () (registry.replace <$> m.setCellAt address cell) := by
  obtain rfl := id_of_find? hfind
  unfold write Machine.setCellAt
  split
  next => exact settles_writeTo hids hfind rfl
  next => exact settles_throw _ _

/-- The id is taken and the machine added, or neither is. -/
theorem settles_register (name : BoundedText maxProgramNameSize) (image : Image) (callLimit : Nat) :
    (register name image callLimit).Settles registry registry.nextId
      (.ok (registry.register name image callLimit)) := rfl

theorem settles_loadImage (engine : Engine) (name : String) (image : Image) :
    (loadImage engine name image).Settles registry registry.nextId
      (engine.loadImage registry name image) :=
  (reads_ofExcept _).bind fun bounded _ => settles_register bounded image engine.callLimit

theorem settles_load (engine : Engine) (name : String) (bytes : List UInt8) :
    (load engine name bytes).Settles registry registry.nextId
      (engine.load registry name bytes) :=
  (reads_ofExcept _).bind fun bounded _ =>
    (reads_ofExcept _).bind fun image _ => settles_register bounded image engine.callLimit

theorem Settles.conclude_done {x : InPlace Fault Unit} {attempt : Except Fault Registry}
    (h : x.Settles registry () attempt) :
    conclude (fun _ => .done) .refused (x.run registry) = Engine.settle registry attempt := by
  rw [h]
  cases attempt with
  | ok after => rfl
  | error fault => rfl

theorem Settles.conclude_loaded {x : InPlace LoadError Nat} {attempt : Except LoadError Registry}
    (h : x.Settles registry registry.nextId attempt) :
    conclude .loaded .notLoaded (x.run registry) = Engine.settleLoad registry attempt := by
  rw [h]
  cases attempt with
  | ok after => rfl
  | error e => rfl

end InPlace

namespace Engine

open Registry InPlace

variable {registry : Registry}

/-- Changing the registry in place comes to the same as going on with a new one. -/
theorem carryOut_eq_perform (engine : Engine) (hids : registry.DistinctIds) (command : Command) :
    engine.carryOut registry command = engine.perform registry command := by
  cases command with
  | load name bytes => exact (settles_load engine name bytes).conclude_loaded
  | loadImage name image => exact (settles_loadImage engine name image).conclude_loaded
  | execute id => exact (settles_execute hids id).conclude_done
  | freeze id => exact (settles_freeze hids id).conclude_done
  | freezeByName name => exact (settles_freezeByName hids name).conclude_done
  | terminate id => exact (settles_terminate id registry).conclude_done
  | terminateByName name => exact (settles_terminateByName name registry).conclude_done
  | reset id => exact (settles_reset hids id).conclude_done
  | tick => rfl
  | write id address cell =>
      simp only [carryOut, perform, Engine.write]
      cases hfind : registry.find? id with
      | none => rfl
      | some m => exact (settles_write hids hfind address cell).conclude_done

end Engine

/-! ## Failures -/

/-- The command was not carried out. -/
def Reply.isFailure : Reply → Bool
  | .notLoaded _ | .refused _ | .absent => true
  | .loaded _ | .done | .ticked _ => false

namespace Engine

open Registry

variable {registry : Registry}

theorem settle_failed {attempt : Except Fault Registry}
    (h : (settle registry attempt).1.isFailure = true) : (settle registry attempt).2 = registry := by
  cases attempt with
  | ok after => cases h
  | error fault => rfl

theorem settleLoad_failed {attempt : Except LoadError Registry}
    (h : (settleLoad registry attempt).1.isFailure = true) :
    (settleLoad registry attempt).2 = registry := by
  cases attempt with
  | ok after => cases h
  | error error => rfl

theorem perform_failed {engine : Engine} {command : Command}
    (h : (engine.perform registry command).1.isFailure = true) :
    (engine.perform registry command).2 = registry := by
  cases command with
  | load | loadImage => exact settleLoad_failed h
  | execute | freeze | freezeByName | terminate | terminateByName | reset => exact settle_failed h
  | tick => cases h
  | write id address cell =>
      simp only [perform] at h ⊢
      split at h
      next => exact settle_failed h
      next => rfl

theorem settleLoad_eq_notLoaded_iff {attempt : Except LoadError Registry} {error : LoadError} :
    (settleLoad registry attempt).1 = .notLoaded error ↔ attempt = .error error := by
  cases attempt with
  | ok after => simp [settleLoad]
  | error found => simp [settleLoad]

/-- A program is not loaded for its name, or otherwise for its bytes. -/
theorem load_eq_error_iff {engine : Engine} {name : String} {bytes : List UInt8}
    {error : LoadError} : engine.load registry name bytes = .error error ↔
      16 < name.utf8ByteSize ∧ error = .invalidName ⟨name, 16⟩ ∨
      name.utf8ByteSize ≤ 16 ∧ ∃ cause, Image.decode bytes = .error cause ∧ error = .image cause := by
  unfold load
  cases hname : (BoundedText.ofString name : Except TooLong (BoundedText maxProgramNameSize)) with
  | error long =>
      obtain ⟨hlong, rfl⟩ := BoundedText.ofString_eq_error_iff.mp hname
      have hlong : 16 < name.utf8ByteSize := hlong
      have hover : ¬ name.utf8ByteSize ≤ 16 := Nat.not_le.mpr hlong
      simp [Except.mapError, bind, Except.bind, hlong, hover, maxProgramNameSize, eq_comm]
  | ok bounded =>
      have hfits : name.utf8ByteSize ≤ 16 := BoundedText.ofString_eq_ok_iff.mp hname ▸ bounded.fits
      have hshort : ¬ 16 < name.utf8ByteSize := Nat.not_lt.mpr hfits
      cases hdecode : Image.decode bytes with
      | ok image => simp [Except.mapError, bind, Except.bind, pure, Except.pure, hfits, hshort]
      | error cause => simp [Except.mapError, bind, Except.bind, hfits, hshort, eq_comm]

/-- Requests that come after a failure cannot tell that it happened. -/
theorem history_skip {before : List (Engine × Command)} {engine : Engine} {command : Command}
    (hfailed : (engine.perform (history before) command).1.isFailure = true)
    (later : List (Engine × Command)) :
    history (before ++ (engine, command) :: later) = history (before ++ later) := by
  have hskip : history (before ++ [(engine, command)]) = history before :=
    (history_concat before engine command).trans (perform_failed hfailed)
  have hlater (earlier : List (Engine × Command)) :
      history (earlier ++ later) = later.foldl _ (history earlier) := List.foldl_append
  rw [← List.singleton_append, ← List.append_assoc, hlater, hlater, hskip]

/-- After every history, a command that fails while it changes the registry in place leaves the whole
registry as it was. Loading fails for a name of more than 16 bytes, whatever the bytes are, and
otherwise just where decoding fails, with its error. -/
theorem carryOut_failed_unchanged (before : List (Engine × Command)) (engine : Engine) :
    (∀ command, engine.carryOut (history before) command = engine.perform (history before) command ∧
      ((engine.carryOut (history before) command).1.isFailure = true →
        (engine.carryOut (history before) command).2 = history before ∧
        ∀ later, history (before ++ (engine, command) :: later) = history (before ++ later))) ∧
    ∀ name bytes,
      (∀ long, (engine.carryOut (history before) (.load name bytes)).1 =
        .notLoaded (.invalidName long) ↔ 16 < name.utf8ByteSize ∧ long = ⟨name, 16⟩) ∧
      (name.utf8ByteSize ≤ 16 → ∀ error,
        (engine.carryOut (history before) (.load name bytes)).1 = .notLoaded error ↔
          ∃ cause, Image.decode bytes = .error cause ∧ error = .image cause) := by
  have hcarry (command : Command) := engine.carryOut_eq_perform
    (history_ordered before).distinctIds command
  refine ⟨fun command => ⟨hcarry command, fun hfailed => ?_⟩, fun name bytes => ?_⟩
  · rw [hcarry command] at hfailed ⊢
    exact ⟨perform_failed hfailed, history_skip hfailed⟩
  · have hload (error : LoadError) : (engine.carryOut (history before) (.load name bytes)).1 =
        .notLoaded error ↔ engine.load (history before) name bytes = .error error := by
      rw [hcarry]
      exact settleLoad_eq_notLoaded_iff
    refine ⟨fun long => ?_, fun hfits error => ?_⟩
    · rw [hload, load_eq_error_iff]
      simp
    · rw [hload, load_eq_error_iff]
      simp [hfits, Nat.not_lt.mpr hfits]

/-- A program that was loaded and started. -/
def underway : List (Engine × Command) :=
  [({}, .loadImage "main" ⟨[.ofOpcode .halt 0 .none]⟩), ({}, .execute 0)]

/-- It cannot be started again, there is no cell 16384, and another one is loaded neither under a
name of 17 bytes nor from bytes without a magic. -/
theorem carryOut_failed_unchanged_underway :
    (carryOut ⟨1, 256⟩ (history underway) (.execute 0)).2 = history underway ∧
    (carryOut ⟨1, 256⟩ (history underway) (.write 0 16384 0)).2 = history underway ∧
    history (underway ++ [(⟨1, 256⟩, .load "seventeen letters" []), (⟨1, 256⟩, .tick)]) =
      history (underway ++ [(⟨1, 256⟩, .tick)]) ∧
    (carryOut ⟨1, 256⟩ (history underway) (.load "seventeen letters" [])).1 =
      .notLoaded (.invalidName ⟨"seventeen letters", 16⟩) ∧
    (carryOut ⟨1, 256⟩ (history underway) (.load "sixteen letters." [])).1 =
      .notLoaded (.image .badMagic) := by
  have hcommands := (carryOut_failed_unchanged underway ⟨1, 256⟩).1
  have hloads := (carryOut_failed_unchanged underway ⟨1, 256⟩).2
  have hlong := ((hloads "seventeen letters" []).1 _).mpr ⟨by decide, rfl⟩
  have hbytes := ((hloads "sixteen letters." []).2 (by decide) _).mpr ⟨.badMagic, rfl, rfl⟩
  refine ⟨((hcommands (.execute 0)).2 (by decide)).1,
    ((hcommands (.write 0 16384 0)).2 (by decide)).1,
    ((hcommands (.load "seventeen letters" [])).2 ?_).2 _, hlong, hbytes⟩
  rw [hlong]
  rfl

end Engine

end TickMachine
