import TickMachine.Machine.Inspect
import TickMachine.Proofs.Machine.Moves

/-! # Well-formed machines

The control state of a machine in every registry that can be reached. The counter, the return
addresses and the instruction a machine halted at depend on each other: a return address lies
behind a `call`, and a machine halts at an instruction that it has, so none of the clauses could
be shown to be preserved by steps without the others.
-/

namespace TickMachine.Machine

/-- The operation of the instruction at an index, if there is one. -/
def operationAt? (m : Machine) (index : Nat) : Option Opcode :=
  m.code[index]?.bind Instruction.opcode?

/-- A machine as it can be found in a registry between two commands. -/
structure WellFormed (m : Machine) : Prop where
  memory_size : m.memory.toList.length = 16384
  counter_le : m.counter ≤ m.code.size
  condition_le : m.condition.toNat ≤ 7
  calls_length_le : m.calls.length ≤ m.callLimit
  /-- Every return address lies directly behind a `call`. -/
  calls_return : ∀ target ∈ m.calls,
    1 ≤ target ∧ target ≤ m.code.size ∧ m.operationAt? (target - 1) = some .call
  /-- A machine that was not started has no trace of a run. -/
  loaded : m.phase = .loaded →
    m.allRegisters = List.replicate 10 0 ∧ m.calls = [] ∧ m.ticks = 0
  code_pos : m.phase = .running ∨ m.phase = .frozen ∨ m.phase = .halted → 0 < m.code.size
  /-- A finished machine stands at the instruction that finished it. -/
  halted : m.phase = .halted → m.counter < m.code.size ∧
    (m.operationAt? m.counter = some .halt ∨
      m.operationAt? m.counter = some .ret ∧ m.calls = [])

theorem memory_length (m : Machine) : m.memory.toList.length = 16384 :=
  Vector.length_toList

theorem conditionBits_iff {m : Machine} : m.ConditionBits ↔ m.condition.toNat ≤ 7 :=
  UInt8.le_iff_toNat_le

theorem Runs.operationAt {m : Machine} {op : Opcode} {operand : Operand}
    (h : m.Runs op operand) : m.operationAt? m.counter = some op := by
  obtain ⟨i, hfetch, _, hop, _⟩ := h
  simp [operationAt?, hfetch, hop]

theorem lt_size_of_operationAt {m : Machine} {index : Nat} {op : Opcode}
    (h : m.operationAt? index = some op) : index < m.code.size := by
  obtain ⟨i, hfetch, _⟩ := Option.bind_eq_some_iff.mp h
  exact (Array.getElem?_eq_some_iff.mp hfetch).1

/-! ## Machines that do not run -/

theorem fresh_wellFormed (id : Nat) (name : BoundedText maxProgramNameSize)
    (code : Array Instruction) (callLimit : Nat) : (fresh id name code callLimit).WellFormed where
  memory_size := memory_length _
  counter_le := Nat.zero_le _
  condition_le := Nat.zero_le _
  calls_length_le := Nat.zero_le _
  calls_return := by simp [fresh]
  loaded _ := ⟨rfl, rfl, rfl⟩
  code_pos := by simp [fresh]
  halted h := by cases h

theorem reset_wellFormed (m : Machine) : m.reset.WellFormed :=
  fresh_wellFormed m.id m.name m.code m.callLimit

/-- Starting and pausing keep a machine well-formed, as both leave all but the phase alone. -/
theorem start_wellFormed {m after : Machine} (hm : m.WellFormed) (h : m.start = .ok after) :
    after.WellFormed := by
  obtain ⟨hcode, rfl⟩ := eq_of_start h
  exact { hm with
    loaded := by simp
    code_pos := fun _ => hcode
    halted := by simp }

theorem freeze_wellFormed {m after : Machine} (hm : m.WellFormed) (h : m.freeze = .ok after) :
    after.WellFormed := by
  obtain ⟨hrunning, rfl⟩ := eq_of_freeze h
  exact { hm with
    loaded := by simp
    code_pos := fun _ => hm.code_pos (.inl hrunning)
    halted := by simp }

theorem setCellAt_wellFormed {m after : Machine} {address : Nat} {cell : Cell}
    (hm : m.WellFormed) (h : m.setCellAt address cell = .ok after) : after.WellFormed := by
  unfold setCellAt at h
  split at h
  next =>
    cases h
    exact { hm with memory_size := memory_length _ }
  next => cases h

/-! ## Running machines -/

theorem SameControl.operationAt?_eq {m after : Machine} (h : SameControl m after) (index : Nat) :
    after.operationAt? index = m.operationAt? index := by
  rw [operationAt?, h.code_eq, operationAt?]

/-- The clauses that are about phases hold of a running machine if it has an instruction. -/
theorem WellFormed.of_running {m : Machine} (hrunning : m.phase = .running)
    (hcode : 0 < m.code.size) (hcounter : m.counter ≤ m.code.size)
    (hcondition : m.condition.toNat ≤ 7) (hlength : m.calls.length ≤ m.callLimit)
    (hreturn : ∀ target ∈ m.calls,
      1 ≤ target ∧ target ≤ m.code.size ∧ m.operationAt? (target - 1) = some .call) :
    m.WellFormed where
  memory_size := m.memory_length
  counter_le := hcounter
  condition_le := hcondition
  calls_length_le := hlength
  calls_return := hreturn
  loaded h := by simp [hrunning] at h
  code_pos _ := hcode
  halted h := by simp [hrunning] at h

/-- A machine that halts at the instruction at its counter stays well-formed. -/
theorem WellFormed.halt {m : Machine} (hm : m.WellFormed)
    (hat : m.operationAt? m.counter = some .halt ∨
      m.operationAt? m.counter = some .ret ∧ m.calls = []) :
    { m with phase := .halted }.WellFormed := by
  have hcounter : m.counter < m.code.size := by
    obtain hop | ⟨hop, _⟩ := hat <;> exact lt_size_of_operationAt hop
  exact { hm with
    loaded := by simp
    code_pos := fun _ => Nat.zero_lt_of_lt hcounter
    halted := fun _ => ⟨hcounter, hat⟩ }

/-- A step of a running machine leaves it well-formed, whatever the instruction. -/
theorem step_wellFormed {m after : Machine} (hm : m.WellFormed) (hrunning : m.phase = .running)
    (h : m.step = .ok after) : after.WellFormed := by
  have hcode : 0 < m.code.size := hm.code_pos (.inl hrunning)
  cases stepped_of_step h with
  | @proceed after hcounter _ hsame =>
      refine .of_running (hsame.phase_eq.trans hrunning) ?_ ?_ ?_ ?_ ?_
      · simpa only [hsame.code_eq] using hcode
      · exact hsame.code_eq ▸ hcounter
      · exact conditionBits_iff.mp (hsame.conditionBits (conditionBits_iff.mpr hm.condition_le))
      · simpa only [hsame.calls_eq, hsame.callLimit_eq] using hm.calls_length_le
      · intro target htarget
        have hreturn := hm.calls_return target (hsame.calls_eq ▸ htarget)
        rwa [← hsame.operationAt?_eq, ← hsame.code_eq] at hreturn
  | halt hruns => exact hm.halt (.inl hruns.operationAt)
  | leave hruns hcalls => exact hm.halt (.inr ⟨hruns.operationAt, hcalls⟩)
  | ret hruns hcalls htarget =>
      have hlength := hm.calls_length_le
      rw [hcalls, List.length_cons] at hlength
      refine .of_running hrunning hcode (Nat.le_of_lt htarget) hm.condition_le
        (Nat.le_of_succ_le hlength) ?_
      intro target htarget
      exact hm.calls_return target (hcalls ▸ List.mem_cons_of_mem _ htarget)
  | call hruns hroom htarget =>
      have hop : m.operationAt? m.counter = some .call := hruns.operationAt
      refine .of_running hrunning hcode (Nat.le_of_lt htarget) hm.condition_le hroom ?_
      intro target hmem
      -- the new return address lies behind the call that is executed here
      rcases List.mem_cons.mp hmem with rfl | hmem
      · exact ⟨Nat.succ_pos _, lt_size_of_operationAt hop, hop⟩
      · exact hm.calls_return target hmem
  | jump hruns htarget =>
      exact .of_running hrunning hcode (Nat.le_of_lt htarget) hm.condition_le hm.calls_length_le
        hm.calls_return

/-- No clause about a running machine speaks of the ticks it had. -/
theorem count_wellFormed {m : Machine} (hm : m.WellFormed) (hrunning : m.phase = .running) :
    { m with ticks := m.ticks + 1 }.WellFormed :=
  .of_running hrunning (hm.code_pos (.inl hrunning)) hm.counter_le hm.condition_le
    hm.calls_length_le hm.calls_return

theorem wellFormed_lasting : Lasting WellFormed where
  step := step_wellFormed
  count := count_wellFormed
  start := start_wellFormed
  freeze := freeze_wellFormed
  reset {m} _ := m.reset_wellFormed
  write := setCellAt_wellFormed

end TickMachine.Machine
