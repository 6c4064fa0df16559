import TickMachine.Proofs.Machine.Moves

/-! # The pace of a machine

Nothing a machine does depends on the ticks it has counted, and executing a number of instructions
can be broken off and gone on with at any place. So a turn with many instructions comes to the same
as several turns with few, but for the count of the ticks.
-/

namespace TickMachine.Machine

/-- The machine without its count of ticks. -/
def untimed (m : Machine) : Machine :=
  { m with ticks := 0 }

/-- The effect on machines without their counts of ticks. -/
def Effect.untimed (effect : Effect) : Effect :=
  (fun (after, transfer) => (after.untimed, transfer)) <$> effect

variable {m : Machine}

/-! ## Steps and the count of ticks -/

theorem untimed_cellAt (m : Machine) (address : Nat) :
    m.untimed.cellAt address = m.cellAt address :=
  rfl

theorem untimed_setCellAt (m : Machine) (address : Nat) (cell : Cell) :
    m.untimed.setCellAt address cell = untimed <$> m.setCellAt address cell := by
  unfold setCellAt
  split
  next => rfl
  next => rfl

/-- An operation on its operand register does not depend on the ticks if it does for no register. -/
theorem untimed_withRegister {operand : Operand} {default : Option Register}
    {use use' : Register → Effect} (huse : ∀ r, use' r = (use r).untimed) :
    (match m.untimed.operandRegister operand default with
      | .error fault => .error fault
      | .ok r => use' r) =
    Effect.untimed (match m.operandRegister operand default with
      | .error fault => .error fault
      | .ok r => use r) := by
  have hregister : m.untimed.operandRegister operand default =
      m.operandRegister operand default := rfl
  rw [hregister]
  cases m.operandRegister operand default with
  | error fault => rfl
  | ok r => exact huse r

theorem untimed_execute (m : Machine) (op : Opcode) (operand : Operand) :
    m.untimed.execute op operand = (m.execute op operand).untimed := by
  -- the ticks are in no case looked at, so only what the cases are made on has to be settled
  cases op with
  | nop | halt => rfl
  | ret =>
      obtain ⟨id, name, code, callLimit, registers, counter, condition, memory, calls, _⟩ := m
      cases calls with
      | nil => rfl
      | cons target calls => rfl
  | call =>
      cases operand with
      | u32 target =>
          simp only [execute]
          change (if m.callLimit ≤ m.calls.length then _ else _) = _
          split
          next => rfl
          next => rfl
      | _ => rfl
  | jump | or | and | loadInt | loadFloat =>
      cases operand with
      | _ => rfl
  | get | put => exact untimed_withRegister fun _ => rfl
  | load =>
      cases operand with
      | u16 address =>
          simp only [execute]
          rw [untimed_cellAt]
          cases m.cellAt address.toNat with
          | error fault => rfl
          | ok cell => rfl
      | _ => rfl
  | store =>
      cases operand with
      | u16 address =>
          have hcell : m.untimed.cell 0 = m.cell 0 := rfl
          simp only [execute]
          rw [hcell, untimed_setCellAt]
          cases m.setCellAt address.toNat (m.cell 0) with
          | error fault => rfl
          | ok after => rfl
      | _ => rfl
  | mulInt | addInt | subInt => exact untimed_withRegister fun _ => rfl
  | incInt | negInt => exact untimed_withRegister fun _ => rfl
  | mulFloat | addFloat | subFloat => exact untimed_withRegister fun _ => rfl
  | incFloat | negFloat => exact untimed_withRegister fun _ => rfl
  | cmpInt | cmpFloat => exact untimed_withRegister fun _ => rfl

theorem untimed_perform (m : Machine) (i : Instruction) :
    m.untimed.perform i = (m.perform i).untimed := by
  simp only [perform]
  change (if m.admits i = true then _ else _) = _
  split
  next =>
    cases i.opcode? with
    | none => rfl
    | some op => exact m.untimed_execute op i.operand
  next => rfl

theorem untimed_follow (m : Machine) (transfer : Transfer) :
    m.untimed.follow transfer = untimed <$> m.follow transfer := by
  cases transfer with
  | next | halt => rfl
  | jump target =>
      simp only [follow]
      change (if target < m.code.size then _ else _) = _
      split
      next => rfl
      next => rfl

theorem untimed_step (m : Machine) : m.untimed.step = untimed <$> m.step := by
  have hfetch : m.untimed.code[m.untimed.counter]? = m.code[m.counter]? := rfl
  simp only [step]
  rw [hfetch]
  cases m.code[m.counter]? with
  | none => rfl
  | some i =>
      simp only [untimed_perform]
      cases m.perform i with
      | error fault => rfl
      | ok effect => exact effect.1.untimed_follow effect.2

/-! ## Pausing in the middle -/

/-- The machine after a number of instructions, or fewer if it stops running. -/
def pace : Nat → Machine → Except Fault Machine
  | 0, m => .ok m
  | n + 1, m => (if m.isRunning then m.step else .ok m) >>= pace n

theorem pace_of_not_running (h : m.isRunning = false) (n : Nat) : m.pace n = .ok m := by
  induction n with
  | zero => rfl
  | succ n ih =>
      rw [pace, h]
      exact ih

theorem run_eq_pace (h : m.isRunning = true) (n : Nat) : m.run n = m.pace n := by
  induction n generalizing m with
  | zero => rfl
  | succ n ih =>
      rw [run, pace, if_pos h]
      cases m.step with
      | error fault => rfl
      | ok next =>
          change (if next.isRunning = true then next.run n else .ok next) = next.pace n
          split
          next hruns => exact ih hruns
          next hstopped => exact (pace_of_not_running (Bool.eq_false_iff.mpr hstopped) n).symm

theorem pace_add (first second : Nat) (m : Machine) :
    m.pace (first + second) = m.pace first >>= pace second := by
  induction first generalizing m with
  | zero =>
      rw [Nat.zero_add]
      rfl
  | succ first ih =>
      -- a machine that has stopped is passed on as it is, so no case is made on where it stops
      rw [Nat.succ_add, pace, pace, bind_assoc]
      exact bind_congr fun next => ih next

theorem untimed_pace (n : Nat) (m : Machine) : m.untimed.pace n = untimed <$> m.pace n := by
  induction n generalizing m with
  | zero => rfl
  | succ n ih =>
      have hfirst : (if m.untimed.isRunning then m.untimed.step else .ok m.untimed) =
          untimed <$> (if m.isRunning then m.step else .ok m) := by
        change (if m.isRunning then m.untimed.step else _) = _
        split
        next => exact m.untimed_step
        next => rfl
      rw [pace, pace, hfirst, map_bind, bind_map_left]
      exact bind_congr fun next => ih next

/-! ## Turns -/

/-- A turn is a number of instructions at least one, if the ticks are not looked at. -/
theorem untimed_tick (budget : Nat) (m : Machine) :
    untimed <$> m.tick budget = m.untimed.pace (max budget 1) := by
  unfold tick
  split
  next hruns =>
    have hcounted : { m with ticks := m.ticks + 1 }.isRunning = true := hruns
    rw [run_eq_pace hcounted, ← untimed_pace]
    rfl
  next hstopped =>
    have huntimed : m.untimed.isRunning = false := Bool.eq_false_iff.mpr hstopped
    rw [pace_of_not_running huntimed]
    rfl

/-- The machine after a number of turns. -/
def turns (budget : Nat) : Nat → Machine → Except Fault Machine
  | 0, m => .ok m
  | n + 1, m => m.turns budget n >>= tick budget

theorem untimed_turns (budget n : Nat) (m : Machine) :
    untimed <$> m.turns budget n = m.untimed.pace (n * max budget 1) := by
  induction n with
  | zero => rw [Nat.zero_mul]; rfl
  | succ n ih =>
      rw [turns, map_bind, Nat.succ_mul, pace_add, ← ih, bind_map_left]
      exact bind_congr fun next => untimed_tick budget next

/-- One long turn does what several short ones do that have as many instructions together. -/
theorem untimed_tick_eq_turns {whole part n : Nat} (h : max whole 1 = n * max part 1)
    (m : Machine) : untimed <$> m.tick whole = untimed <$> m.turns part n := by
  rw [untimed_tick, untimed_turns, h]

end TickMachine.Machine
