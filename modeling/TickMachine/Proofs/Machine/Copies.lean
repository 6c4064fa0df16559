import TickMachine.Proofs.Machine.Exact

/-! # The condition of a copied number

Where a number is written, its value decides the condition; where its cell is copied, the lower half
decides it as a signed integer. The sign bit is the same in both readings, so the conditions differ
only where the number has no order or its sign does not count: a NaN sets no condition bit, and
negative zero is zero as a number and the least integer as a word.
-/

namespace TickMachine

/-! ## Bit patterns in both readings -/

/-- The pattern of which only the sign bit is set. -/
def Single.negativeZero : Single := ⟨0x80000000⟩

/-- Words from the sign bit on stand for negative integers. -/
theorem signedWord_eq_ite (word : UInt32) :
    signedWord word = if word.toNat < 2 ^ 31 then (word.toNat : Int) else word.toNat - 2 ^ 32 := by
  have hlt : word.toNat < 2 ^ 32 := word.toNat_lt
  rw [signedWord_eq_bmod, Int.bmod_def]
  split_ifs <;> omega

/-- Patterns from the sign bit on stand in the order of values in front of zero, or at it. -/
theorem FloatFormat.rank_eq_ite (bits : UInt32) : single.rank bits.toNat =
    if bits.toNat < 2 ^ 31 then (bits.toNat : Int) else 2 ^ 31 - bits.toNat := by
  have hlt : bits.toNat < 2 ^ 32 := bits.toNat_lt
  have hweight : single.signWeight = 2 ^ 31 := rfl
  simp only [rank, isNegative, magnitude, hweight, decide_eq_true_eq]
  split_ifs <;> omega

namespace Condition

theorem ofSign_neg {n : Int} (h : n < 0) : ofSign n = negative := by
  rw [ofSign, if_neg h.not_gt, if_neg h.ne]

theorem ofSign_ne_zero (n : Int) : ofSign n ≠ 0 := by
  unfold ofSign
  split_ifs <;> decide

theorem ofSingle_of_isNan {x : Single} (h : x.isNan = true) : ofSingle x = 0 := by
  have hnan : FloatFormat.single.isNan x.bits.toNat = true := h
  rw [ofSingle, Single.compare?, FloatFormat.compare?, hnan]
  rfl

/-- The condition of a number that is no NaN is the sign of its place in the order of values. -/
theorem ofSingle_of_not_isNan {x : Single} (h : x.isNan = false) :
    ofSingle x = ofSign (FloatFormat.single.rank x.bits.toNat) := by
  have hnan : FloatFormat.single.isNan x.bits.toNat = false := h
  have hzero : FloatFormat.single.isNan Single.zero.bits.toNat = false := by decide
  have hrank : FloatFormat.single.rank Single.zero.bits.toNat = 0 := by decide
  rw [ofSingle, Single.compare?, FloatFormat.compare?, hnan, hzero, hrank, ← ofInt_eq_ofSign]
  rfl

/-- A pattern has the same condition in both readings if and only if it is neither a NaN nor negative
zero. -/
theorem ofSingle_eq_ofInt_iff (x : Single) :
    ofSingle x = ofInt (signedWord x.bits) ↔ x.isNan = false ∧ x ≠ .negativeZero := by
  rw [ofInt_eq_ofSign]
  cases hnan : x.isNan with
  | true =>
      rw [ofSingle_of_isNan hnan]
      simpa using (ofSign_ne_zero _).symm
  | false =>
      rw [ofSingle_of_not_isNan hnan, FloatFormat.rank_eq_ite, signedWord_eq_ite]
      have heq : x = .negativeZero ↔ x.bits.toNat = 2 ^ 31 := by
        rw [Single.mk.injEq, ← UInt32.toNat_inj]
        rfl
      rw [Ne, heq]
      rcases Nat.lt_trichotomy x.bits.toNat (2 ^ 31) with hlt | hat | hgt
      · rw [if_pos hlt, if_pos hlt]
        exact iff_of_true rfl ⟨rfl, hlt.ne⟩
      · -- the number is zero, the word is the least integer
        rw [hat]
        decide
      · have hbound : x.bits.toNat < 2 ^ 32 := x.bits.toNat_lt
        rw [if_neg hgt.not_gt, if_neg hgt.not_gt, ofSign_neg (by omega), ofSign_neg (by omega)]
        exact iff_of_true rfl ⟨rfl, hgt.ne'⟩

end Condition

/-! ## Writing and copying -/

namespace Machine

variable {m written copied : Machine} {r : Register} {x : Single}

/-- A step writes a number into a register: it loads the number or computes it. -/
structure Writes (m : Machine) (r : Register) (x : Single) (written : Machine) : Prop where
  step : m.step = .ok written
  operation : ∃ op operand, m.Runs op operand ∧ op.onSingles = true ∧ op.written? operand = some r
  number : written.single r = x

/-- The cell of a register is copied: `get` copies it to r0, `put` copies r0 to any register, and r0
is copied when it is stored and loaded again before the memory cell changes. -/
inductive Copied (r : Register) (m copied : Machine) : Prop
  | get {index : UInt8} (hruns : m.Runs .get (.u8 index)) (hindex : index.toNat = r)
      (h : m.step = .ok copied)
  | put {operand : Operand} (hr : r = .result) (hruns : m.Runs .put operand)
      (h : m.step = .ok copied)
  | load {address : UInt16} {stored loading : Machine} (hr : r = .result)
      (hruns : m.Runs .store (.u16 address)) (h : m.step = .ok stored)
      (hkept : loading.cellAt address.toNat = stored.cellAt address.toNat)
      (hruns' : loading.Runs .load (.u16 address)) (h' : loading.step = .ok copied)

theorem Writes.condition_eq (h : m.Writes r x written) :
    written.condition = Condition.ofSingle x := by
  obtain ⟨hstep, ⟨op, operand, hruns, hop, hr⟩, rfl⟩ := h
  rw [(hruns.worked hstep).condition_written hr, Opcode.conditionOf, if_pos hop]
  rfl

/-- Behind a copy the condition is that of the lower half as a signed integer. -/
theorem condition_of_setCell {middle : Machine} {transfer : Transfer} {cell : Cell}
    (hcopied : middle = m.setCell r cell) (hfollow : middle.follow transfer = .ok copied) :
    copied.condition = Condition.ofInt (signedWord cell.toUInt32) := by
  subst hcopied
  exact (eq_of_data ((follow_keeps hfollow).1.trans (m.setCell_data r cell))).2.1

theorem Copied.condition_eq (h : m.Copied r copied) :
    copied.condition = Condition.ofInt (signedWord (m.word r)) := by
  cases h with
  | get hruns hindex h =>
      obtain ⟨middle, transfer, hexecute, hfollow⟩ := hruns.exists_execute h
      obtain ⟨r', hnamed, hmiddle⟩ := exists_namedRegister hexecute (d := 0) (by simp)
      have hr : r' = r := by
        simp only [Operand.namedRegister?, hindex, r.isLt, dite_true] at hnamed
        exact (Option.some.inj hnamed).symm
      subst hr
      exact condition_of_setCell hmiddle hfollow
  | put hr hruns h =>
      subst hr
      obtain ⟨middle, transfer, hexecute, hfollow⟩ := hruns.exists_execute h
      obtain ⟨r', _, hmiddle⟩ := exists_namedRegister hexecute (d := 0) (by simp)
      exact condition_of_setCell hmiddle hfollow
  | @load address stored loading hr hruns h hkept hruns' h' =>
      subst hr
      obtain ⟨_, haddress, hoperand, hmemory⟩ := (hruns.worked h).memory_store rfl
      cases hoperand
      -- what is loaded is what r0 held when it was stored
      have hstored : stored.cellAt address.toNat = .ok (m.cell 0) := by
        rw [cellAt, hmemory, Vector.getElem?_set_self]
      obtain ⟨middle, transfer, hexecute, hfollow⟩ := hruns'.exists_execute h'
      simp only [execute, hkept, hstored] at hexecute
      cases hexecute
      exact condition_of_setCell rfl hfollow

/-! ## Copies of a number that was loaded -/

theorem exists_get (hfetch : m.code[m.counter]? = some (IntegerInstruction.get r).instruction) :
    ∃ copied, m.step = .ok copied ∧ m.Copied r copied := by
  obtain ⟨copied, hstep, _⟩ := exists_step_integer hfetch
  have hruns : m.Runs .get (IntegerInstruction.registerOperand r) := runs_of_instruction hfetch
  exact ⟨copied, hstep, .get hruns (IntegerInstruction.toNat_ofNat_register r) hstep⟩

theorem exists_put (hfetch : m.code[m.counter]? = some (IntegerInstruction.put r).instruction) :
    ∃ copied, m.step = .ok copied ∧ m.Copied .result copied := by
  obtain ⟨copied, hstep, _⟩ := exists_step_integer hfetch
  have hruns : m.Runs .put (IntegerInstruction.registerOperand r) := runs_of_instruction hfetch
  exact ⟨copied, hstep, .put rfl hruns hstep⟩

theorem exists_store_load {address : Fin memorySize}
    (hstore : m.code[m.counter]? = some (IntegerInstruction.store address).instruction)
    (hload : m.code[m.counter + 1]? = some (IntegerInstruction.load address).instruction) :
    ∃ copied, m.steps 2 = .ok copied ∧ m.Copied .result copied := by
  obtain ⟨stored, hstep, hwrote⟩ := exists_step_integer hstore
  rw [← hwrote.code, ← hwrote.counter] at hload
  obtain ⟨copied, hstep', _⟩ := exists_step_integer hload
  have hsteps : m.steps 2 = .ok copied := by
    change m.step >>= step = .ok copied
    rw [hstep]
    exact hstep'
  have hruns : m.Runs .store (IntegerInstruction.addressOperand address) :=
    runs_of_instruction hstore
  have hruns' : stored.Runs .load (IntegerInstruction.addressOperand address) :=
    runs_of_instruction hload
  exact ⟨copied, hsteps, .load rfl hruns hstep rfl hruns' hstep'⟩

/-- A machine in front of a number that is loaded, with other instructions behind it. -/
def loading (x : Single) (others : List IntegerInstruction) : Machine :=
  fresh 0 .empty
    (.ofOpcode .loadFloat 0 (.f32 x) :: others.map IntegerInstruction.instruction).toArray 0

theorem cell_setSingle (m : Machine) (r : Register) (x : Single) :
    (m.setSingle r x).cell r = x.bits.toUInt64 := by
  rw [cell_of_registers (eq_of_data (m.setSingle_data r x)).1, if_pos rfl]

theorem exists_loaded (x : Single) (others : List IntegerInstruction) :
    ∃ written, (loading x others).Writes .result x written ∧
      written.code = (loading x others).code ∧ written.counter = 1 := by
  have hruns : (loading x others).Runs .loadFloat (.f32 x) := ⟨_, rfl, rfl, rfl, rfl⟩
  have hstep : (loading x others).step =
      .ok { (loading x others).setSingle .result x with counter := 1 } := hruns.step_of_ok rfl
  refine ⟨_, ⟨hstep, ⟨_, _, hruns, rfl, rfl⟩, ?_⟩, rfl, rfl⟩
  change Single.mk (((loading x others).setSingle .result x).cell .result).toUInt32 = x
  rw [cell_setSingle, UInt32.toUInt32_toUInt64]

/-- The ways to copy r0. -/
def copies (r : Register) (address : Fin memorySize) : List (List IntegerInstruction) :=
  [[.get .result], [.put r], [.store address, .load address]]

/-- Whatever number is loaded, each way to copy it succeeds behind the load. -/
theorem exists_copied (x : Single) (r : Register) (address : Fin memorySize) :
    ∀ copy ∈ copies r address, ∃ written copied, (loading x copy).Writes .result x written ∧
      written.steps copy.length = .ok copied ∧ written.Copied .result copied := by
  intro copy hmem
  obtain ⟨written, hwrites, hcode, hcounter⟩ := exists_loaded x copy
  have hcopied : ∃ copied, written.steps copy.length = .ok copied ∧
      written.Copied .result copied := by
    simp only [copies, List.mem_cons, List.not_mem_nil, or_false] at hmem
    rcases hmem with rfl | rfl | rfl
    · exact exists_get (by rw [hcode, hcounter]; rfl)
    · exact exists_put (by rw [hcode, hcounter]; rfl)
    · exact exists_store_load (by rw [hcode, hcounter]; rfl) (by rw [hcode, hcounter]; rfl)
  obtain ⟨copied, hsteps, hcopied⟩ := hcopied
  exact ⟨written, copied, hwrites, hsteps, hcopied⟩

/-- Whatever number was written into a register, a copy of its cell sets the condition that was set
when it was written if and only if the number is neither a NaN nor negative zero. All ways to copy a
number succeed. -/
theorem copied_condition_iff (x : Single) :
    (∀ r address, ∀ copy ∈ copies r address, ∃ written copied,
      (loading x copy).Writes .result x written ∧ written.steps copy.length = .ok copied ∧
        written.Copied .result copied) ∧
    ∀ (m written source copied : Machine) (r r' : Register), m.Writes r x written →
      source.cell r' = written.cell r → source.Copied r' copied →
        (copied.condition = written.condition ↔ x.isNan = false ∧ x ≠ .negativeZero) := by
  refine ⟨exists_copied x, fun m written source copied r r' hwrites hcell hcopied => ?_⟩
  have hword : source.word r' = x.bits := by
    rw [Machine.word, hcell, ← hwrites.number]
    rfl
  rw [hcopied.condition_eq, hwrites.condition_eq, hword, eq_comm]
  exact Condition.ofSingle_eq_ofInt_iff x

/-- Of the negative number next to zero, negative zero and the NaN with the least pattern, stored and
loaded again, only the first one keeps its condition. -/
theorem copied_condition_iff_near_zero :
    ∀ x ∈ ([⟨0x80000001⟩, .negativeZero, ⟨0x7f800001⟩] : List Single), ∃ written copied,
      (loading x [.store lastAddress, .load lastAddress]).Writes .result x written ∧
        written.steps 2 = .ok copied ∧
        (copied.condition = written.condition ↔ x = ⟨0x80000001⟩) := by
  intro x hx
  have hcopy : [.store lastAddress, .load lastAddress] ∈ copies .result lastAddress := by
    simp [copies]
  obtain ⟨written, copied, hwrites, hsteps, hcopied⟩ :=
    (copied_condition_iff x).1 .result lastAddress _ hcopy
  refine ⟨written, copied, hwrites, hsteps, ?_⟩
  rw [(copied_condition_iff x).2 _ _ _ _ _ _ hwrites rfl hcopied]
  clear hwrites
  revert x
  decide

end Machine

end TickMachine
