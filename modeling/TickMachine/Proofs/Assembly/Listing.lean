import TickMachine.Proofs.Assembly.Encoding

/-! # Assembling a listing

A listing shows each instruction behind its index. Without the indices it is a source again, and
assembling this source gives the instructions back that the assembler can write: those with a known
operation, condition bits only, an operand for the operation, and neither floats nor empty masks.
-/

namespace TickMachine

/-- The instruction is shown as the assembler reads it. -/
structure Instruction.Listable (i : Instruction) : Prop where
  flags_le : i.flags ≤ Condition.all
  operand : ∃ op, i.opcode? = some op ∧ op.operandKind.Fits i.operand ∧
    op.operandKind ≠ .float ∧ (op.operandKind = .mask → i.operand ≠ .u8 0)

namespace Assembly

open Text

/-! ## Sources out of listings -/

/-- The line of a listing without the index, the blanks in front of it and the two behind it. -/
def withoutIndex (line : List Char) : List Char :=
  ((line.dropWhile (· = ' ')).dropWhile Char.isDigit).drop 2

/-- The lines of a listing without the indices. -/
def withoutIndices (listing : String) : String :=
  joinLines ((listing.toList.splitOn '\n').map withoutIndex)

/-! ## Words -/

theorem isIdentifier_mnemonic (op : Opcode) : IsIdentifier op.mnemonic.toList := by
  have h : identifier? op.mnemonic.toList = some (op.mnemonic.toList, []) := by
    cases op <;> rfl
  exact (identifier?_eq_some_nil_iff.mp h).1

theorem ofMnemonic?_mnemonic (op : Opcode) :
    Opcode.ofMnemonic? op.mnemonic.toList = some op := by
  cases op <;> rfl

/-- The sets of condition bits that are not empty. -/
theorem conditionBits_cases {bits : UInt8} (hbits : bits ≤ Condition.all) (hne : bits ≠ 0) :
    bits = 1 ∨ bits = 2 ∨ bits = 3 ∨ bits = 4 ∨ bits = 5 ∨ bits = 6 ∨ bits = 7 := by
  have hle : bits.toNat ≤ 7 := UInt8.le_iff_toNat_le.mp hbits
  have hpos : bits.toNat ≠ 0 := fun hzero => hne (UInt8.toNat_inj.mp hzero)
  simp only [← UInt8.toNat_inj, UInt8.reduceToNat]
  omega

/-- The letters of condition bits are read as these bits. -/
theorem letters_readable {bits : UInt8} (hbits : bits ≤ Condition.all) (hne : bits ≠ 0) :
    (Condition.letters bits).toList.all Char.isAlphanum = true ∧
      (Condition.letters bits).toList ≠ [] ∧
      Condition.ofLetters? (Condition.letters bits).toList = some bits ∧
      mask? (Condition.letters bits).toList = some bits := by
  rcases conditionBits_cases hbits hne with rfl | rfl | rfl | rfl | rfl | rfl | rfl <;> decide

/-- The word stands for the operand of the kind, whatever the labels are. -/
structure Denotes (kind : OperandKind) (word : List Char) (operand : Operand) : Prop where
  plain : IsPlain word
  read : ∀ labels, readKind kind labels word = .ok operand

theorem denotes_target (index : UInt32) :
    Denotes .target (decimal index.toNat) (.u32 index) where
  plain := isPlain_decimal index.toNat
  read labels := by
    have hread := readTarget_decimal labels index.toNat_lt
    rwa [UInt32.ofNat_toNat] at hread

theorem denotes_mask {bits : UInt8} (hbits : bits ≤ Condition.all) (hne : bits ≠ 0) :
    Denotes .mask (Condition.letters bits).toList (.u8 bits) where
  plain := by
    obtain ⟨hchars, hnil, _⟩ := letters_readable hbits hne
    exact ⟨hnil, fun c hc =>
      .inl (isIdentifierRest_of_isAlphanum (List.all_eq_true.mp hchars c hc))⟩
  read labels := by
    obtain ⟨_, _, _, hread⟩ := letters_readable hbits hne
    simp only [readKind, hread, Option.map_some]

theorem denotes_address (address : UInt16) :
    Denotes .address (decimal address.toNat) (.u16 address) where
  plain := isPlain_decimal address.toNat
  read labels := by
    have hbounded : bounded? 0 (UInt16.size - 1 : Nat) (decimal address.toNat) =
        some (address.toNat : Int) :=
      bounded?_eq_some_iff.mpr ⟨integer?_decimal _, Int.natCast_nonneg _,
        Int.ofNat_le.mpr (Nat.le_sub_one_of_lt address.toNat_lt)⟩
    simp only [readKind, hbounded, Option.map_some, Int.toNat_natCast, UInt16.ofNat_toNat]

theorem isPlain_toString (n : Int) : IsPlain (toString n).toList := by
  rcases toList_toString_int n with ⟨hdigits, _⟩ | ⟨hdigits, _⟩
  · rw [hdigits]
    exact isPlain_decimal n.toNat
  · rw [hdigits]
    exact ⟨List.cons_ne_nil _ _,
      List.forall_mem_cons.mpr ⟨.inr rfl, (isPlain_decimal n.natAbs).chars⟩⟩

theorem integer?_toString (n : Int) : integer? (toString n).toList = some n := by
  rw [← Text.integer?_toString n]
  rcases toList_toString_int n with ⟨hdigits, _⟩ | ⟨hdigits, _⟩
  · rw [hdigits, integer?_decimal, Text.integer?_decimal]
  · rw [hdigits]
    rfl

theorem denotes_immediate (value : Int32) :
    Denotes .immediate (toString value.toInt).toList (.i32 value) where
  plain := isPlain_toString value.toInt
  read labels := by
    have hbounded : bounded? Int32.minValue.toInt Int32.maxValue.toInt
        (toString value.toInt).toList = some value.toInt :=
      bounded?_eq_some_iff.mpr ⟨integer?_toString _, value.minValue_le_toInt, value.toInt_le⟩
    simp only [readKind, hbounded, Option.map_some, Int32.ofInt_toInt]

theorem register?_decimal {index : UInt8} (hindex : index.toNat < registerCount) :
    register? ('r' :: decimal index.toNat) = some index.toNat := by
  simp [register?, natural?_decimal, Option.filter, hindex]

theorem isPlain_register (index : Nat) : IsPlain ('r' :: decimal index) where
  ne_nil := List.cons_ne_nil _ _
  chars := List.forall_mem_cons.mpr ⟨by decide, (isPlain_decimal index).chars⟩

theorem denotes_register {index : UInt8} (hindex : index.toNat < registerCount) :
    Denotes .register ('r' :: decimal index.toNat) (.u8 index) where
  plain := isPlain_register index.toNat
  read labels := by
    simp only [readKind, register?_decimal hindex, Option.map_some, UInt8.ofNat_toNat]

theorem denotes_optionalRegister {index : UInt8} (hindex : index.toNat < registerCount) :
    Denotes .optionalRegister ('r' :: decimal index.toNat) (.u8 index) where
  plain := isPlain_register index.toNat
  read := (denotes_register hindex).read

theorem toList_append_toString (front : String) (n : Nat) :
    (front ++ toString n).toList = front.toList ++ decimal n := by
  rw [String.toList_append, toList_toString_nat]

/-- What is shown behind the mnemonic and the condition. -/
theorem operandText_cases {kind : OperandKind} {operand : Operand} (hfits : kind.Fits operand)
    (hfloat : kind ≠ .float) (hmask : kind = .mask → operand ≠ .u8 0) :
    (kind.Fits .none ∧ operand = .none ∧
        (Instruction.operandText (some kind) operand).toList = []) ∨
      ∃ word, (Instruction.operandText (some kind) operand).toList = ' ' :: word ∧
        Denotes kind word operand := by
  cases hfits with
  | none => exact .inl ⟨.none, rfl, rfl⟩
  | omitted => exact .inl ⟨.omitted, rfl, rfl⟩
  | target index => exact .inr ⟨_, toList_append_toString " " _, denotes_target index⟩
  | mask hbits =>
      have hne := fun hzero => hmask rfl (congrArg Operand.u8 hzero)
      exact .inr ⟨_, String.toList_append, denotes_mask hbits hne⟩
  | immediate value => exact .inr ⟨_, String.toList_append, denotes_immediate value⟩
  | float value => exact absurd rfl hfloat
  | address address => exact .inr ⟨_, toList_append_toString " " _, denotes_address address⟩
  | register hindex => exact .inr ⟨_, toList_append_toString " r" _, denotes_register hindex⟩
  | optionalRegister hindex =>
      exact .inr ⟨_, toList_append_toString " r" _, denotes_optionalRegister hindex⟩

/-- What is shown between the mnemonic and the operand. -/
theorem conditionText_cases {flags : UInt8} (hflags : flags ≤ Condition.all) :
    ∃ condition, (if flags = 0 then "" else s!".{Condition.letters flags}").toList =
        conditionText condition ∧
      (∀ letters ∈ condition, ∀ c ∈ letters, c.isAlphanum = true) ∧
      readCondition condition = .ok flags := by
  by_cases hzero : flags = 0
  · subst hzero
    exact ⟨none, rfl, nofun, rfl⟩
  · obtain ⟨hchars, _, hread, _⟩ := letters_readable hflags hzero
    rw [if_neg hzero]
    refine ⟨some (Condition.letters flags).toList, String.toList_append, ?_, ?_⟩
    · rintro _ ⟨⟩
      exact List.all_eq_true.mp hchars
    · simp only [readCondition, hread]

/-! ## Instructions -/

theorem ofOpcode_eq {i : Instruction} {op : Opcode} (hop : i.opcode? = some op)
    (hflags : i.flags ≤ Condition.all) : .ofOpcode op i.flags i.operand = i := by
  have hkept : i.flags &&& Condition.all = i.flags := by
    apply UInt8.toNat_inj.mp
    rw [UInt8.toNat_and]
    exact Nat.and_two_pow_sub_one_of_lt_two_pow (n := 3)
      (Nat.lt_succ_of_le (UInt8.le_iff_toNat_le.mp hflags))
  rw [Instruction.ofOpcode, Opcode.code_of_ofByte? hop, hkept]

/-- The text has no character that cuts a line. -/
structure OneLine (text : List Char) : Prop where
  feed : '\n' ∉ text
  semicolon : ';' ∉ text

theorem OneLine.append {front back : List Char} (hfront : OneLine front) (hback : OneLine back) :
    OneLine (front ++ back) where
  feed := by simp [hfront.feed, hback.feed]
  semicolon := by simp [hfront.semicolon, hback.semicolon]

theorem OneLine.cons {c : Char} {text : List Char} (hc : '\n' ≠ c ∧ ';' ≠ c)
    (h : OneLine text) : OneLine (c :: text) where
  feed := by simp [hc.1, h.feed]
  semicolon := by simp [hc.2, h.semicolon]

theorem oneLine_of_word {word : List Char} (h : ∀ c ∈ word, isIdentifierRest c = true) :
    OneLine word where
  feed hmem := nomatch h '\n' hmem
  semicolon hmem := nomatch h ';' hmem

theorem oneLine_of_plain {word : List Char} (h : IsPlain word) : OneLine word where
  feed := h.not_mem (.inl rfl)
  semicolon := h.not_mem (.inr (.inl rfl))

theorem oneLine_conditionText {condition : Option (List Char)}
    (h : ∀ letters ∈ condition, ∀ c ∈ letters, c.isAlphanum = true) :
    OneLine (conditionText condition) := by
  cases condition with
  | none => exact ⟨List.not_mem_nil, List.not_mem_nil⟩
  | some letters =>
      have hletters : OneLine letters :=
        oneLine_of_word fun c hc => isIdentifierRest_of_isAlphanum (h letters rfl c hc)
      exact hletters.cons (by decide)

/-- An instruction is shown as its mnemonic, its condition and its operand. -/
theorem toList_text {i : Instruction} {op : Opcode} {condition : Option (List Char)}
    (hop : i.opcode? = some op) (hcondition :
      (if i.flags = 0 then "" else s!".{Condition.letters i.flags}").toList =
        conditionText condition) :
    i.text.toList = op.mnemonic.toList ++ (conditionText condition ++
      (Instruction.operandText (some op.operandKind) i.operand).toList) := by
  rw [Instruction.text, hop, String.toList_append, String.toList_append, hcondition,
    List.append_assoc]
  rfl

theorem oneLine_text {op : Opcode} {condition : Option (List Char)} {rest : List Char}
    (hletters : ∀ letters ∈ condition, ∀ c ∈ letters, c.isAlphanum = true)
    (hrest : OneLine rest) :
    OneLine (op.mnemonic.toList ++ (conditionText condition ++ rest)) :=
  (oneLine_of_word (isIdentifier_mnemonic op).isIdentifierRest).append
    ((oneLine_conditionText hletters).append hrest)

/-- A listable instruction is shown as a line that is encoded to it. -/
theorem exists_spells {i : Instruction} (h : i.Listable) :
    ∃ written, Spells i.text.toList written ∧ OneLine i.text.toList ∧
      (∀ word ∈ written.operand, IsPlain word) ∧ ∀ labels, Encodes labels written i := by
  obtain ⟨hflags, op, hop, hfits, hfloat, hmask⟩ := h
  obtain ⟨condition, hcondition, hletters, hreadCondition⟩ := conditionText_cases hflags
  have htext := toList_text hop hcondition
  have hmnemonic : IsIdentifier op.mnemonic.toList := isIdentifier_mnemonic op
  rcases operandText_cases hfits hfloat hmask with
    ⟨hnone, hoperand, hempty⟩ | ⟨word, hword, hdenotes⟩
  · rw [htext, hempty]
    refine ⟨⟨op.mnemonic.toList, condition, none⟩, ⟨hmnemonic, hletters, [], rfl, .nothing⟩,
      oneLine_text hletters ⟨List.not_mem_nil, List.not_mem_nil⟩, nofun, fun labels => ?_⟩
    rw [← ofOpcode_eq hop hflags]
    exact .known (ofMnemonic?_mnemonic op) hreadCondition
      (readOperand_eq_ok_iff.mpr (.inl ⟨rfl, hoperand, hnone⟩))
  · rw [htext, hword]
    have hplain : IsPlain word := hdenotes.plain
    have hspace : AllBlank [' '] := by simp [AllBlank, isBlank]
    refine ⟨⟨op.mnemonic.toList, condition, some word⟩, ⟨hmnemonic, hletters, _, rfl,
      .operand ⟨' ', rfl, rfl⟩ hspace hplain.ne_nil hplain.trimmed⟩,
      oneLine_text hletters ((oneLine_of_plain hplain).cons (by decide)), ?_, fun labels => ?_⟩
    · rintro _ ⟨⟩
      exact hplain
    · rw [← ofOpcode_eq hop hflags]
      exact .known (ofMnemonic?_mnemonic op) hreadCondition
        (readOperand_eq_ok_iff.mpr (.inr ⟨word, rfl, hdenotes.read labels⟩))

/-- The line is read again. -/
theorem lineOf?_text {i : Instruction} (h : i.Listable) :
    ∃ written, lineOf? i.text.toList = some (.instruction written) ∧
      ∀ labels, encodeInstruction labels written = .ok i := by
  obtain ⟨written, hspells, honeLine, hplain, hencodes⟩ := exists_spells h
  have hbare : bare i.text.toList = i.text.toList := by
    refine bare_eq_iff.mpr
      ⟨[], [], ?_, allBlank_nil, isTail_nil, hspells.trimmed, honeLine.semicolon⟩
    rw [List.nil_append, List.append_nil]
  refine ⟨written, ?_, fun labels => encodeInstruction_eq_ok_iff.mpr (hencodes labels)⟩
  rw [lineOf?_eq_some_iff, hbare]
  exact ⟨hspells.ne_nil, hspells.readLine fun word hword hcolon =>
    (hplain word hword).not_mem (.inr (.inr rfl)) (List.mem_of_getLast? hcolon)⟩

/-! ## Lines of a listing -/

/-- A line of a listing without the feed at its end. -/
def indexedLine (width index : Nat) (i : Instruction) : List Char :=
  (padLeft width (toString index)).toList ++ (' ' :: ' ' :: i.text.toList)

theorem toList_padLeft (width n : Nat) :
    (padLeft width (toString n)).toList =
      List.replicate (width - (decimal n).length) ' ' ++ decimal n := by
  rw [padLeft, String.toList_ofList, toList_toString_nat]
  rfl

theorem withoutIndex_indexedLine (width index : Nat) (i : Instruction) :
    withoutIndex (indexedLine width index i) = i.text.toList := by
  have hblanks : ∀ c ∈ List.replicate (width - (decimal index).length) ' ',
      decide (c = ' ') = true := fun c hc => decide_eq_true (List.eq_of_mem_replicate hc)
  have hdigits : ∀ c ∈ (decimal index ++ (' ' :: ' ' :: i.text.toList)).head?,
      decide (c = ' ') = false := by
    intro c hc
    obtain ⟨d, cs, hcs⟩ := List.exists_cons_of_ne_nil (decimal_ne_nil index)
    have hd : d.isDigit = true := isDigit_of_mem_decimal (n := index) d (hcs ▸ List.mem_cons_self)
    rw [hcs] at hc
    cases hc
    rw [decide_eq_false_iff_not]
    rintro rfl
    cases hd
  rw [withoutIndex, indexedLine, toList_padLeft, List.append_assoc,
    dropWhile_append_stop hblanks hdigits,
    dropWhile_append_stop isDigit_of_mem_decimal (by rintro _ ⟨⟩; decide)]
  rfl

theorem not_mem_indexedLine {i : Instruction} (h : '\n' ∉ i.text.toList) (width index : Nat) :
    '\n' ∉ indexedLine width index i := by
  have hdigits : '\n' ∉ decimal index := (isPlain_decimal index).not_mem (.inl rfl)
  rw [indexedLine, toList_padLeft]
  simp [hdigits, h]

theorem toList_line (width index : Nat) (i : Instruction) :
    s!"{padLeft width (toString index)}  {i.text}\n".toList =
      indexedLine width index i ++ ['\n'] := by
  change (padLeft width (toString index) ++ "  " ++ i.text ++ "\n").toList = _
  simp only [String.toList_append, indexedLine, List.append_assoc]
  rfl

/-- A listing consists of the lines of its instructions, each with a feed behind it. -/
theorem toList_listing (image : Image) :
    image.listing.toList = (image.instructions.mapIdx
      (indexedLine (toString (image.instructions.length - 1)).length)).flatMap (· ++ ['\n']) := by
  rw [Image.listing, Image.listingLines, String.toList_join, List.flatMap_def, List.flatMap_def]
  congr 1
  apply List.ext_getElem?
  intro index
  simp only [List.getElem?_map, List.getElem?_mapIdx, Option.map_map, Function.comp_def,
    toList_line]

theorem splitOn_listing {image : Image}
    (h : ∀ i ∈ image.instructions, '\n' ∉ i.text.toList) :
    (image.listing.toList.splitOn '\n').map withoutIndex =
      image.instructions.map (·.text.toList) ++ [[]] := by
  rw [toList_listing, splitOn_flatMap, List.map_append]
  · congr 1
    apply List.ext_getElem?
    intro index
    simp [List.getElem?_mapIdx, Function.comp_def, withoutIndex_indexedLine]
  · intro line hline
    obtain ⟨index, hindex, rfl⟩ := List.mem_mapIdx.mp hline
    exact not_mem_indexedLine (h _ (List.getElem_mem hindex)) _ _

/-- The lines of listable instructions are read as instructions that are encoded to them. -/
theorem exists_written {instructions : List Instruction} (h : ∀ i ∈ instructions, i.Listable) :
    ∃ written, (instructions.map (·.text.toList)).filterMap lineOf? = written.map .instruction ∧
      ∀ labels, List.Forall₂ (fun line i => encodeInstruction labels line = .ok i) written
        instructions := by
  induction instructions with
  | nil => exact ⟨[], rfl, fun _ => .nil⟩
  | cons first others ih =>
      obtain ⟨hfirst, hothers⟩ := List.forall_mem_cons.mp h
      obtain ⟨line, hline, hencoded⟩ := lineOf?_text hfirst
      obtain ⟨written, hwritten, hall⟩ := ih hothers
      refine ⟨line :: written, ?_, fun labels => .cons (hencoded labels) (hall labels)⟩
      rw [List.map_cons, List.filterMap_cons, hline, hwritten, List.map_cons]

/-- What is read of a listing of listable instructions without its indices. -/
theorem linesOf_withoutIndices {image : Image} (h : ∀ i ∈ image.instructions, i.Listable) :
    (∀ raw ∈ textLines (withoutIndices image.listing).toList, Readable raw) ∧
      ∃ written, linesOf (withoutIndices image.listing) = written.map .instruction ∧
        ∀ labels, List.Forall₂ (fun line i => encodeInstruction labels line = .ok i) written
          image.instructions := by
  have hfeed : ∀ i ∈ image.instructions, '\n' ∉ i.text.toList := by
    intro i hi
    obtain ⟨_, _, honeLine, _⟩ := exists_spells (h i hi)
    exact honeLine.feed
  have hraws : ∀ raw ∈ image.instructions.map (·.text.toList) ++ [[]], '\n' ∉ raw := by
    rw [List.forall_mem_append, List.forall_mem_map]
    exact ⟨hfeed, List.forall_mem_singleton.mpr List.not_mem_nil⟩
  have hreadable : ∀ raw ∈ image.instructions.map (·.text.toList) ++ [[]], Readable raw := by
    rw [List.forall_mem_append, List.forall_mem_map]
    refine ⟨fun i hi => ?_, List.forall_mem_singleton.mpr (.inl rfl)⟩
    obtain ⟨written, hline, _⟩ := lineOf?_text (h i hi)
    exact .inr ⟨_, (lineOf?_eq_some_iff.mp hline).2⟩
  obtain ⟨written, hwritten, hencoded⟩ := exists_written h
  rw [withoutIndices, splitOn_listing hfeed]
  refine ⟨forall_readable_joinLines hraws hreadable, written, ?_, hencoded⟩
  rw [linesOf_joinLines hraws, List.filterMap_append, hwritten]
  exact List.append_nil _

/-- Without the indices a listing of listable instructions is assembled to these instructions,
exactly if there are no more of them than 32 bits can count. -/
theorem ofAssembly_withoutIndices {image : Image} (h : ∀ i ∈ image.instructions, i.Listable) :
    Image.ofAssembly (withoutIndices image.listing) = .ok image ↔
      image.instructions.length < 4294967296 := by
  refine ⟨length_lt_of_ofAssembly, fun hcount => ?_⟩
  obtain ⟨hreadable, written, hlines, hencoded⟩ := linesOf_withoutIndices h
  have hinstructions : instructionsIn (linesOf (withoutIndices image.listing)) = written := by
    rw [hlines, instructionsIn_map_instruction]
  refine ofAssembly_eq_ok_iff.mpr ⟨hreadable, ?_, ?_, ?_⟩
  · rw [hlines, labelsIn_map_instruction]
    exact List.nodup_nil
  · rw [hinstructions, (hencoded []).length_eq]
    exact hcount
  · rw [hinstructions]
    exact hencoded _

/-- The least integer, conditions, an operand that is left out and condition bits as an operand. -/
theorem ofAssembly_withoutIndices_mixed :
    let image : Image := ⟨[⟨7, 0, .i32 (-2147483648)⟩, ⟨16, 5, .none⟩, ⟨6, 0, .u8 6⟩,
      ⟨9, 2, .u8 7⟩, ⟨4, 0, .u32 1⟩]⟩
    (∀ i ∈ image.instructions, i.Listable) ∧ image.instructions.length < 4294967296 ∧
      withoutIndices image.listing =
        "ldi -2147483648\nsubi.pn\nand zn\nget.z r7\njmp 1\n" ∧
      Image.ofAssembly (withoutIndices image.listing) = .ok image := by
  intro image
  have hlistable : ∀ i ∈ image.instructions, i.Listable := by
    simp only [image, List.forall_mem_cons]
    exact ⟨⟨by decide, .loadInt, rfl, .immediate _, by decide, by decide⟩,
      ⟨by decide, .subInt, rfl, .omitted, by decide, by decide⟩,
      ⟨by decide, .and, rfl, .mask (by decide), by decide, by decide⟩,
      ⟨by decide, .get, rfl, .register (by decide), by decide, by decide⟩,
      ⟨by decide, .jump, rfl, .target _, by decide, by decide⟩, nofun⟩
  have hcount : image.instructions.length < 4294967296 := by decide
  exact ⟨hlistable, hcount, by decide +kernel,
    (ofAssembly_withoutIndices hlistable).mpr hcount⟩

/-- One instruction more than can be counted is listed, but the listing is not assembled. -/
theorem not_assembled_of_many :
    ¬ ∀ image : Image, image.instructions ≠ [] → (∀ i ∈ image.instructions, i.Listable) →
      Image.ofAssembly (withoutIndices image.listing) = .ok image := by
  intro h
  let image : Image := ⟨List.replicate 4294967296 ⟨0, 0, .none⟩⟩
  have hlistable : ∀ i ∈ image.instructions, i.Listable := by
    intro i hi
    rw [List.eq_of_mem_replicate hi]
    exact ⟨by decide, .nop, rfl, .none, by decide, by decide⟩
  have hne : image.instructions ≠ [] := List.replicate_succ_ne_nil
  have hcount := length_lt_of_ofAssembly (h image hne hlistable)
  rw [List.length_replicate] at hcount
  exact absurd hcount (by decide)

end Assembly

end TickMachine
