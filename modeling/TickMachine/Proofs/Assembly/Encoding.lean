import TickMachine.Proofs.Assembly.Lines
import TickMachine.Proofs.Machine.Typed
import TickMachine.Proofs.Text.Numeral

/-! # What an instruction line is encoded to

A line with an unknown mnemonic becomes `nop`; any other line becomes its operation with the
operand that is read for its kind, and this operand fits. The labels matter for the operands that
are identifiers where an instruction is asked for, and for nothing else.
-/

namespace TickMachine.Assembly

open Text

variable {labels : Labels} {written : WrittenInstruction} {op : Opcode} {i : Instruction}
  {operand : Operand} {cs : List Char}

/-! ## Condition bits -/

theorem ofLetter?_le {c : Char} {bit : UInt8} (h : Condition.ofLetter? c = some bit) :
    bit ≤ Condition.all := by
  unfold Condition.ofLetter? at h
  split at h
  · cases h
    decide
  · cases h
    decide
  · cases h
    decide
  · cases h

theorem or_le {a b : UInt8} (ha : a ≤ Condition.all) (hb : b ≤ Condition.all) :
    a ||| b ≤ Condition.all := by
  rw [UInt8.le_iff_toNat_le] at ha hb ⊢
  rw [UInt8.toNat_or]
  exact Nat.le_of_lt_succ (Nat.or_lt_two_pow (n := 3) (Nat.lt_succ_of_le ha) (Nat.lt_succ_of_le hb))

theorem mapM_ofLetter?_le {bits : List UInt8} (h : cs.mapM Condition.ofLetter? = some bits) :
    ∀ bit ∈ bits, bit ≤ Condition.all := by
  induction cs generalizing bits with
  | nil =>
      cases h
      exact fun _ h => nomatch h
  | cons c cs ih =>
      rw [List.mapM_cons] at h
      obtain ⟨bit, hbit, h⟩ := Option.bind_eq_some_iff.mp h
      obtain ⟨others, hothers, h⟩ := Option.bind_eq_some_iff.mp h
      cases h
      exact List.forall_mem_cons.mpr ⟨ofLetter?_le hbit, ih hothers⟩

theorem foldl_or_le {bits : List UInt8} {start : UInt8} (hstart : start ≤ Condition.all)
    (hbits : ∀ bit ∈ bits, bit ≤ Condition.all) : bits.foldl (· ||| ·) start ≤ Condition.all := by
  induction bits generalizing start with
  | nil => exact hstart
  | cons bit bits ih =>
      obtain ⟨hbit, hbits⟩ := List.forall_mem_cons.mp hbits
      exact ih (or_le hstart hbit) hbits

/-- Letters stand for condition bits and for no other bits. -/
theorem ofLetters?_le {bits : UInt8} (h : Condition.ofLetters? cs = some bits) :
    bits ≤ Condition.all := by
  unfold Condition.ofLetters? at h
  split at h
  · cases h
  · obtain ⟨found, hfound, rfl⟩ := Option.map_eq_some_iff.mp h
    exact foldl_or_le (by decide) (mapM_ofLetter?_le hfound)

theorem mask?_le {bits : UInt8} (h : mask? cs = some bits) : bits ≤ Condition.all := by
  unfold mask? at h
  split at h
  next n hn =>
    split at h
    next hrange =>
      cases h
      rw [UInt8.le_iff_toNat_le, UInt8.toNat_ofNat']
      have hn : n.toNat ≤ 7 := Int.toNat_le.mpr hrange.2
      exact Nat.le_trans (Nat.mod_le _ _) hn
    next => cases h
  next => exact ofLetters?_le h

theorem register?_lt {n : Nat} (h : register? cs = some n) : n < registerCount := by
  unfold register? at h
  split at h <;> exact of_decide_eq_true (Option.filter_eq_some_iff.mp h).2

/-! ## Operands -/

/-- What is read in the place of an instruction is a number or the place of a label. -/
theorem readTarget_fits (h : readTarget labels cs = .ok operand) :
    OperandKind.target.Fits operand := by
  unfold readTarget at h
  split at h
  next =>
    split at h <;> cases h
    exact .target _
  next =>
    split at h <;> cases h
    exact .target _

theorem of_orInvalid {found : Option Operand} {cause : AssemblyCause}
    (h : (match found with
      | some operand => .ok operand
      | none => .error cause : Except AssemblyCause Operand) = .ok operand) :
    found = some operand := by
  cases found with
  | none => cases h
  | some found =>
      cases h
      rfl

theorem orInvalid_eq_ok_iff (found : Option Operand) {invalid : AssemblyCause} :
    (match found with
      | some operand => .ok operand
      | none => .error invalid : Except AssemblyCause Operand) = .ok operand ↔
      found = some operand := by
  refine ⟨of_orInvalid, ?_⟩
  rintro rfl
  rfl

theorem orInvalid_eq_error_iff (found : Option Operand) {cause invalid : AssemblyCause} :
    (match found with
      | some operand => .ok operand
      | none => .error invalid : Except AssemblyCause Operand) = .error cause ↔
      found = none ∧ cause = invalid := by
  cases found with
  | none => simp [eq_comm]
  | some operand => simp

theorem register_fits {n : Nat} (h : register? cs = some n) :
    (UInt8.ofNat n).toNat < registerCount := by
  rw [UInt8.toNat_ofNat']
  exact Nat.lt_of_le_of_lt (Nat.mod_le _ _) (register?_lt h)

/-- What is read for a kind of operands fits. -/
theorem readKind_fits {kind : OperandKind} (h : readKind kind labels cs = .ok operand) :
    kind.Fits operand := by
  cases kind with
  | none => cases h
  | target => exact readTarget_fits h
  | mask =>
      obtain ⟨bits, hbits, rfl⟩ := Option.map_eq_some_iff.mp (of_orInvalid h)
      exact .mask (mask?_le hbits)
  | immediate =>
      obtain ⟨n, _, rfl⟩ := Option.map_eq_some_iff.mp (of_orInvalid h)
      exact .immediate _
  | float =>
      obtain ⟨x, _, rfl⟩ := Option.map_eq_some_iff.mp (of_orInvalid h)
      exact .float x
  | address =>
      obtain ⟨n, _, rfl⟩ := Option.map_eq_some_iff.mp (of_orInvalid h)
      exact .address _
  | register =>
      obtain ⟨n, hn, rfl⟩ := Option.map_eq_some_iff.mp (of_orInvalid h)
      exact .register (register_fits hn)
  | optionalRegister =>
      obtain ⟨n, hn, rfl⟩ := Option.map_eq_some_iff.mp (of_orInvalid h)
      exact .optionalRegister (register_fits hn)

/-- An operand is left out where the operation has none or need not have one; else it is read for
the kind of the operation. -/
theorem readOperand_eq_ok_iff {text : Option (List Char)} :
    readOperand op labels text = .ok operand ↔
      (text = none ∧ operand = .none ∧ op.operandKind.Fits .none) ∨
        ∃ cs, text = some cs ∧ readKind op.operandKind labels cs = .ok operand := by
  unfold readOperand
  generalize op.operandKind = kind
  cases text with
  | none =>
      simp only [true_and, reduceCtorEq, false_and, exists_false, or_false]
      cases kind with
      | none => simp [OperandKind.Fits.none, eq_comm]
      | optionalRegister => simp [OperandKind.Fits.omitted, eq_comm]
      | _ =>
          simp only [reduceCtorEq, false_iff, not_and]
          intro _ hfits
          cases hfits
  | some cs =>
      simp only [reduceCtorEq, false_and, false_or, Option.some.injEq, exists_eq_left']

/-! ## Instructions -/

/-- The instruction line is encoded to the instruction. -/
inductive Encodes (labels : Labels) (written : WrittenInstruction) : Instruction → Prop
  | unknown (hop : Opcode.ofMnemonic? written.mnemonic = none) :
      Encodes labels written (.ofOpcode .nop 0 .none)
  | known {op : Opcode} {flags : UInt8} {operand : Operand}
      (hop : Opcode.ofMnemonic? written.mnemonic = some op)
      (hflags : readCondition written.condition = .ok flags)
      (hoperand : readOperand op labels written.operand = .ok operand) :
      Encodes labels written (.ofOpcode op flags operand)

theorem encodeInstruction_eq_ok_iff :
    encodeInstruction labels written = .ok i ↔ Encodes labels written i := by
  unfold encodeInstruction
  constructor
  · intro h
    split at h
    next hop =>
      cases h
      exact .unknown hop
    next op hop =>
      obtain ⟨flags, hflags, h⟩ := of_bind_eq_ok h
      obtain ⟨operand, hoperand, h⟩ := of_bind_eq_ok h
      cases h
      exact .known hop hflags hoperand
  · intro h
    cases h with
    | unknown hop => rw [hop]
    | known hop hflags hoperand =>
        simp only [hop]
        rw [bind_of_eq_ok hflags, bind_of_eq_ok hoperand]
        rfl

theorem opcode?_ofOpcode (op : Opcode) (flags : UInt8) (operand : Operand) :
    (Instruction.ofOpcode op flags operand).opcode? = some op :=
  Opcode.ofByte?_code op

theorem Encodes.wellTyped (h : Encodes labels written i) : i.WellTyped := by
  cases h with
  | unknown hop => exact ⟨.nop, opcode?_ofOpcode .nop 0 .none, .none⟩
  | @known op flags operand hop hflags hoperand =>
      refine ⟨op, opcode?_ofOpcode op flags operand, ?_⟩
      rcases readOperand_eq_ok_iff.mp hoperand with ⟨_, rfl, hfits⟩ | ⟨cs, _, hkind⟩
      · exact hfits
      · exact readKind_fits hkind

/-- Every instruction of an image that was assembled stands on some line. -/
theorem exists_encodes {source : String} {image : Image}
    (h : Image.ofAssembly source = .ok image) (hi : i ∈ image.instructions) :
    ∃ written, .instruction written ∈ linesOf source ∧
      Encodes (labelTable (linesOf source)) written i := by
  obtain ⟨_, _, _, hencoded⟩ := ofAssembly_eq_ok_iff.mp h
  obtain ⟨⟨index, hindex⟩, rfl⟩ := List.mem_iff_get.mp hi
  have hwritten : index < (instructionsIn (linesOf source)).length := by
    rw [hencoded.length_eq]
    exact hindex
  exact ⟨_, mem_instructionsIn.mp (List.get_mem _ ⟨index, hwritten⟩),
    encodeInstruction_eq_ok_iff.mp (hencoded.get hwritten hindex)⟩

/-- Whatever is assembled is well-typed. -/
theorem wellTyped_of_ofAssembly {source : String} {image : Image}
    (h : Image.ofAssembly source = .ok image) : ∀ i ∈ image.instructions, i.WellTyped := by
  intro i hi
  obtain ⟨written, _, hencodes⟩ := exists_encodes h hi
  exact hencodes.wellTyped

/-! ## Targets -/

theorem identifier?_eq_some_nil_iff {name : List Char} :
    identifier? cs = some (name, []) ↔ IsIdentifier cs ∧ name = cs := by
  rw [identifier?_eq_some_iff]
  constructor
  · rintro ⟨hname, rfl, _⟩
    rw [List.append_nil]
    exact ⟨hname, rfl⟩
  · rintro ⟨hname, rfl⟩
    exact ⟨hname, (List.append_nil name).symm, fun _ h => nomatch h⟩

/-- An identifier stands for the place of the label with this name. -/
theorem readTarget_of_isIdentifier (h : IsIdentifier cs) :
    readTarget labels cs = .ok operand ↔
      ∃ place, labels.lookup (String.ofList cs) = some place ∧ operand = .u32 (.ofNat place) := by
  rw [readTarget, identifier?_eq_some_nil_iff.mpr ⟨h, rfl⟩]
  simp only
  cases labels.lookup (String.ofList cs) with
  | none => simp
  | some place => simp [eq_comm]

/-- What is not an identifier is a number, whatever the labels are. -/
theorem readTarget_of_not_isIdentifier (h : ¬ IsIdentifier cs) :
    readTarget labels cs =
      match bounded? 0 (UInt32.size - 1 : Nat) cs with
      | some n => .ok (.u32 (.ofNat n.toNat))
      | none => .error (.invalidOperand (String.ofList cs)) := by
  unfold readTarget
  split
  next name hname => exact absurd (identifier?_eq_some_nil_iff.mp hname).1 h
  next => rfl

theorem isPlain_decimal (n : Nat) : IsPlain (decimal n) where
  ne_nil := decimal_ne_nil n
  chars c hc := by
    have hdigit := isDigit_of_mem_decimal c hc
    exact .inl (isIdentifierRest_of_isAlphanum (isAlphanum_iff.mpr (.inr hdigit)))

theorem integer?_decimal (n : Nat) : integer? (decimal n) = some (n : Int) := by
  unfold integer?
  split
  next digits heq =>
    have hx := isDigit_of_mem_decimal (n := n) 'x' (by simp [heq])
    cases hx
  next digits heq =>
    have hx := isDigit_of_mem_decimal (n := n) 'X' (by simp [heq])
    cases hx
  next => exact Text.integer?_decimal n

theorem isDigit_of_isIdentifierStart {c : Char} (h : isIdentifierStart c = true) :
    c.isDigit = false := by
  rw [← Bool.not_eq_true]
  intro hdigit
  rcases isIdentifierStart_iff.mp h with halpha | rfl
  · rw [Char.isDigit_iff_toNat] at hdigit
    rw [isAlpha_iff] at halpha
    simp only [Char.reduceToNat] at hdigit
    omega
  · cases hdigit

theorem not_isIdentifier_decimal (n : Nat) : ¬ IsIdentifier (decimal n) := by
  intro h
  have hhead := isDigit_head_decimal n
  generalize decimal n = cs at h hhead
  cases h with
  | @intro c cs hstart _ =>
      have hdigit : c.isDigit = true := hhead c rfl
      rw [isDigit_of_isIdentifierStart hstart] at hdigit
      cases hdigit

theorem bounded?_eq_some_iff {low high n : Int} :
    bounded? low high cs = some n ↔ integer? cs = some n ∧ low ≤ n ∧ n ≤ high := by
  rw [bounded?, Option.filter_eq_some_iff, decide_eq_true_iff]

/-- A decimal number stands for itself. -/
theorem readTarget_decimal (labels : Labels) {n : Nat} (hn : n < UInt32.size) :
    readTarget labels (decimal n) = .ok (.u32 (.ofNat n)) := by
  have hbounded : bounded? 0 (UInt32.size - 1 : Nat) (decimal n) = some (n : Int) :=
    bounded?_eq_some_iff.mpr
      ⟨integer?_decimal n, Int.natCast_nonneg n, Int.ofNat_le.mpr (Nat.le_sub_one_of_lt hn)⟩
  rw [readTarget_of_not_isIdentifier (not_isIdentifier_decimal n), hbounded]
  rfl

end TickMachine.Assembly
