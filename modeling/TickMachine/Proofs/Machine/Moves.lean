import TickMachine.Proofs.Machine.Control

/-! # What can become of a machine

A machine changes by a move: it is started, paused, reset or written to from outside, or it has its
turn in a tick. No move changes what the machine was loaded with. A property that single steps and
the moves from outside preserve is `Lasting`; that it is then preserved by a whole turn, and holds
where a turn fails, is shown here once for all such properties.
-/

namespace TickMachine.Machine

/-- What may have become of a machine in one command. -/
inductive Moved (m : Machine) : Machine → Prop
  | stay : Moved m m
  | start {after : Machine} (h : m.start = .ok after) : Moved m after
  | freeze {after : Machine} (h : m.freeze = .ok after) : Moved m after
  | reset : Moved m m.reset
  | write {after : Machine} {address : Nat} {cell : Cell}
      (h : m.setCellAt address cell = .ok after) : Moved m after
  | turn {after : Machine} {budget : Nat} (h : m.tick budget = .ok after) : Moved m after

variable {m after : Machine} {budget : Nat}

theorem isRunning_iff : m.isRunning = true ↔ m.phase = .running :=
  decide_eq_true_iff

/-- Starting changes the phase only, and needs an instruction. -/
theorem eq_of_start (h : m.start = .ok after) :
    0 < m.code.size ∧ after = { m with phase := .running } := by
  unfold start at h
  split at h
  case h_1 | h_2 =>
    split at h
    next => cases h
    next hcode =>
      cases h
      have hsize : m.code.size ≠ 0 := by simpa [Array.isEmpty] using hcode
      exact ⟨Nat.pos_of_ne_zero hsize, rfl⟩
  all_goals cases h

theorem phase_of_start (h : m.start = .ok after) : m.phase = .loaded ∨ m.phase = .frozen := by
  unfold start at h
  split at h
  next hloaded => exact .inl hloaded
  next hfrozen => exact .inr hfrozen
  all_goals cases h

/-- Pausing changes the phase only, of a running machine. -/
theorem eq_of_freeze (h : m.freeze = .ok after) :
    m.phase = .running ∧ after = { m with phase := .frozen } := by
  unfold freeze at h
  split at h
  next hrunning =>
    cases h
    exact ⟨hrunning, rfl⟩
  next => cases h

/-! ## Turns -/

/-- What the steps of a running machine preserve is preserved by a run. -/
theorem run_keeps {P : Machine → Prop}
    (hstep : ∀ {m after : Machine}, P m → m.phase = .running → m.step = .ok after → P after)
    (hm : P m) (hrunning : m.phase = .running) (h : m.run budget = .ok after) : P after := by
  induction budget generalizing m with
  | zero =>
      cases h
      exact hm
  | succ budget ih =>
      simp only [Machine.run] at h
      split at h
      next => cases h
      next next hnext =>
        have hkept : P next := hstep hm hrunning hnext
        split at h
        next hruns => exact ih hkept (isRunning_iff.mp hruns) h
        next =>
          cases h
          exact hkept

theorem tick_of_not_running (h : m.phase ≠ .running) : m.tick budget = .ok m :=
  if_neg (mt isRunning_iff.mp h)

theorem tick_of_running (h : m.phase = .running) :
    m.tick budget = { m with ticks := m.ticks + 1 }.run (max budget 1) :=
  if_pos (isRunning_iff.mpr h)

/-- A step counts no tick, and ends the run or lets it go on. -/
theorem step_phase (h : m.step = .ok after) :
    after.ticks = m.ticks ∧ (after.phase = m.phase ∨ after.phase = .halted) := by
  cases stepped_of_step h with
  | proceed _ _ hsame => exact ⟨hsame.ticks_eq, .inl hsame.phase_eq⟩
  | halt => exact ⟨rfl, .inr rfl⟩
  | leave => exact ⟨rfl, .inr rfl⟩
  | ret => exact ⟨rfl, .inl rfl⟩
  | call => exact ⟨rfl, .inl rfl⟩
  | jump => exact ⟨rfl, .inl rfl⟩

/-- A running machine counts its turn once, however many instructions it executes, and is running
or halted behind it. -/
theorem turn_phase (hrunning : m.phase = .running) (h : m.tick budget = .ok after) :
    after.ticks = m.ticks + 1 ∧ (after.phase = .running ∨ after.phase = .halted) := by
  have hcounted : { m with ticks := m.ticks + 1 }.phase = .running := hrunning
  have hstep : ∀ {middle next : Machine},
      middle.ticks = m.ticks + 1 ∧ (middle.phase = .running ∨ middle.phase = .halted) →
      middle.phase = .running → middle.step = .ok next →
      next.ticks = m.ticks + 1 ∧ (next.phase = .running ∨ next.phase = .halted) := by
    rintro middle next ⟨hticks, _⟩ hruns hstep
    obtain ⟨hsame, hphase⟩ := step_phase hstep
    exact ⟨hsame.trans hticks, hphase.imp_left fun heq => heq.trans hruns⟩
  rw [tick_of_running hrunning] at h
  exact run_keeps hstep ⟨rfl, .inl hcounted⟩ hcounted h

/-! ## Lasting properties -/

/-- A property that a machine does not lose, whatever is done to it. -/
structure Lasting (P : Machine → Prop) : Prop where
  step : ∀ {m after : Machine}, P m → m.phase = .running → m.step = .ok after → P after
  /-- A running machine counts its ticks. -/
  count : ∀ {m : Machine}, P m → m.phase = .running → P { m with ticks := m.ticks + 1 }
  start : ∀ {m after : Machine}, P m → m.start = .ok after → P after
  freeze : ∀ {m after : Machine}, P m → m.freeze = .ok after → P after
  reset : ∀ {m : Machine}, P m → P m.reset
  write : ∀ {m after : Machine} {address : Nat} {cell : Cell},
    P m → m.setCellAt address cell = .ok after → P after

namespace Lasting

variable {P : Machine → Prop}

theorem run (hP : Lasting P) (hm : P m) (hrunning : m.phase = .running)
    (h : m.run budget = .ok after) : P after :=
  run_keeps hP.step hm hrunning h

/-- A run that fails does so in a step of a machine that still has the property. -/
theorem run_error (hP : Lasting P) {fault : Fault} (hm : P m) (hrunning : m.phase = .running)
    (h : m.run budget = .error fault) :
    ∃ last : Machine, P last ∧ last.phase = .running ∧ last.step = .error fault := by
  induction budget generalizing m with
  | zero => cases h
  | succ budget ih =>
      simp only [Machine.run] at h
      split at h
      next hstep =>
        cases h
        exact ⟨m, hm, hrunning, hstep⟩
      next next hstep =>
        split at h
        next hruns => exact ih (hP.step hm hrunning hstep) (isRunning_iff.mp hruns) h
        next => cases h

theorem tick (hP : Lasting P) (hm : P m) (h : m.tick budget = .ok after) : P after := by
  by_cases hrunning : m.phase = .running
  · rw [tick_of_running hrunning] at h
    exact hP.run (hP.count hm hrunning) hrunning h
  · rw [tick_of_not_running hrunning] at h
    cases h
    exact hm

theorem tick_error (hP : Lasting P) {fault : Fault} (hm : P m)
    (h : m.tick budget = .error fault) :
    ∃ last : Machine, P last ∧ last.phase = .running ∧ last.step = .error fault := by
  by_cases hrunning : m.phase = .running
  · rw [tick_of_running hrunning] at h
    exact hP.run_error (hP.count hm hrunning) hrunning h
  · rw [tick_of_not_running hrunning] at h
    cases h

theorem moved (hP : Lasting P) (hm : P m) (h : m.Moved after) : P after := by
  cases h with
  | stay => exact hm
  | start h => exact hP.start hm h
  | freeze h => exact hP.freeze hm h
  | reset => exact hP.reset hm
  | write h => exact hP.write hm h
  | turn h => exact hP.tick hm h

end Lasting

/-! ## What a machine was loaded with -/

/-- The machines have the same id and name, and were loaded with the same program and call limit. -/
structure SameProgram (m after : Machine) : Prop where
  id : after.id = m.id
  name : after.name = m.name
  code : after.code = m.code
  callLimit : after.callLimit = m.callLimit

theorem SameProgram.refl (m : Machine) : SameProgram m m :=
  ⟨rfl, rfl, rfl, rfl⟩

theorem SameProgram.trans {first second third : Machine} (h : SameProgram first second)
    (h' : SameProgram second third) : SameProgram first third :=
  ⟨h'.id.trans h.id, h'.name.trans h.name, h'.code.trans h.code, h'.callLimit.trans h.callLimit⟩

theorem step_sameProgram (h : m.step = .ok after) : SameProgram m after := by
  cases stepped_of_step h with
  | proceed _ _ hsame => exact ⟨hsame.id_eq, hsame.name_eq, hsame.code_eq, hsame.callLimit_eq⟩
  | _ => exact ⟨rfl, rfl, rfl, rfl⟩

theorem setCellAt_sameProgram {address : Nat} {cell : Cell}
    (h : m.setCellAt address cell = .ok after) : SameProgram m after := by
  obtain ⟨hcontrol, _⟩ := setCellAt_control h
  exact ⟨congrArg Control.id hcontrol, congrArg Control.name hcontrol,
    congrArg Control.code hcontrol, congrArg Control.callLimit hcontrol⟩

theorem start_sameProgram (h : m.start = .ok after) : SameProgram m after := by
  obtain ⟨_, rfl⟩ := eq_of_start h
  exact ⟨rfl, rfl, rfl, rfl⟩

theorem freeze_sameProgram (h : m.freeze = .ok after) : SameProgram m after := by
  obtain ⟨_, rfl⟩ := eq_of_freeze h
  exact ⟨rfl, rfl, rfl, rfl⟩

theorem reset_sameProgram (m : Machine) : SameProgram m m.reset :=
  ⟨rfl, rfl, rfl, rfl⟩

theorem count_sameProgram (m : Machine) : SameProgram m { m with ticks := m.ticks + 1 } :=
  ⟨rfl, rfl, rfl, rfl⟩

/-- What depends on the program only lasts, as no move changes the program. -/
theorem Lasting.of_sameProgram {P : Machine → Prop}
    (hP : ∀ {m after : Machine}, SameProgram m after → P m → P after) : Lasting P where
  step hm _ h := hP (step_sameProgram h) hm
  count {m} hm _ := hP m.count_sameProgram hm
  start hm h := hP (start_sameProgram h) hm
  freeze hm h := hP (freeze_sameProgram h) hm
  reset {m} hm := hP m.reset_sameProgram hm
  write hm h := hP (setCellAt_sameProgram h) hm

/-- A machine keeps both of two properties if it keeps each of them. -/
theorem Lasting.and {P Q : Machine → Prop} (hP : Lasting P) (hQ : Lasting Q) :
    Lasting fun m => P m ∧ Q m where
  step hm hrunning h := ⟨hP.step hm.1 hrunning h, hQ.step hm.2 hrunning h⟩
  count hm hrunning := ⟨hP.count hm.1 hrunning, hQ.count hm.2 hrunning⟩
  start hm h := ⟨hP.start hm.1 h, hQ.start hm.2 h⟩
  freeze hm h := ⟨hP.freeze hm.1 h, hQ.freeze hm.2 h⟩
  reset hm := ⟨hP.reset hm.1, hQ.reset hm.2⟩
  write hm h := ⟨hP.write hm.1 h, hQ.write hm.2 h⟩

theorem code_lasting (code : Array Instruction) : Lasting fun m => m.code = code :=
  .of_sameProgram fun hsame hm => hsame.code.trans hm

theorem sameProgram_lasting (origin : Machine) : Lasting (SameProgram origin) :=
  .of_sameProgram fun h hm => hm.trans h

theorem Moved.sameProgram (h : m.Moved after) : SameProgram m after :=
  (sameProgram_lasting m).moved (SameProgram.refl m) h

theorem tick_sameProgram (h : m.tick budget = .ok after) : SameProgram m after :=
  Moved.sameProgram (.turn h)

end TickMachine.Machine
