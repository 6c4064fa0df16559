import TickMachine.Proofs.Assembly.Encoding
import TickMachine.Proofs.Machine.Confined
import TickMachine.Proofs.Registry.Commands
import TickMachine.Proofs.Registry.Tick

/-! # Well-labelled sources

A source whose calls and jumps name labels, whose labels have an instruction somewhere behind them
and which does not run out at its end is assembled to a closed program. So control never leaves it.
-/

namespace TickMachine

namespace Assembly

/-- Calls and jumps go to labels, and there is an instruction wherever control can get. -/
structure WellLabelled (source : String) : Prop where
  targets : ∀ written ∈ instructionsIn (linesOf source), ∀ op,
    Opcode.ofMnemonic? written.mnemonic = some op → op = .call ∨ op = .jump →
      ∃ name, written.operand = some name ∧ .label (String.ofList name) ∈ linesOf source
  /-- Some instruction line follows each label line. -/
  labels : ∀ front name back, linesOf source = front ++ .label name :: back →
    instructionsIn back ≠ []
  /-- The last instruction line is a `halt`, `return` or `jmp` without a condition. -/
  last : ∃ written op, (instructionsIn (linesOf source)).getLast? = some written ∧
    written.condition = none ∧ Opcode.ofMnemonic? written.mnemonic = some op ∧ op.endsFlow = true

variable {source : String} {image : Image}

/-- Where the last line is an instruction line, every label line is followed by one. -/
theorem followed_of_getLast? {lines : List Line} {written : WrittenInstruction}
    (hlast : lines.getLast? = some (.instruction written)) (front : List Line) (name : String)
    (back : List Line) (hlines : lines = front ++ .label name :: back) :
    instructionsIn back ≠ [] := by
  subst hlines
  rw [List.getLast?_append, List.getLast?_cons] at hlast
  cases hback : back.getLast? with
  | none =>
      rw [hback] at hlast
      cases hlast
  | some line =>
      rw [hback] at hlast
      cases hlast
      exact List.ne_nil_of_mem (mem_instructionsIn.mpr (List.mem_of_getLast? hback))

/-- A label with an instruction behind it stands for an instruction. -/
theorem place?_lt {lines : List Line} {name : String} {place : Nat}
    (hlabels : ∀ front back, lines = front ++ .label name :: back → instructionsIn back ≠ [])
    (h : place? lines name = some place) : place < (instructionsIn lines).length := by
  have hmem : .label name ∈ lines := place?_isSome_iff.mp (Option.isSome_of_mem h)
  obtain ⟨front, back, rfl, hfront⟩ := List.eq_append_cons_of_mem hmem
  rw [place?_append hfront] at h
  cases h
  have hback : 0 < (instructionsIn back).length :=
    List.length_pos_iff.mpr (hlabels front back rfl)
  rw [instructionsIn_append, List.length_append]
  exact Nat.lt_add_of_pos_right hback

/-- A label that is called or jumped to stands for an instruction of the image. -/
theorem target_lt (hassembled : Image.ofAssembly source = .ok image)
    (hlabels : ∀ front name back, linesOf source = front ++ .label name :: back →
      instructionsIn back ≠ [])
    {name : List Char} (hname : .label (String.ofList name) ∈ linesOf source) {target : UInt32}
    (htarget : readTarget (labelTable (linesOf source)) name = .ok (.u32 target)) :
    target.toNat < image.instructions.length := by
  obtain ⟨_, hnodup, _, hencoded⟩ := ofAssembly_eq_ok_iff.mp hassembled
  have hidentifier : IsIdentifier name := by
    have hlabel := isIdentifier_of_mem_linesOf hname
    rwa [String.toList_ofList] at hlabel
  obtain ⟨place, hplace, heq⟩ := (readTarget_of_isIdentifier hidentifier).mp htarget
  rw [lookup_labelTable hnodup] at hplace
  have hlt := place?_lt (fun front back => hlabels front _ back) hplace
  cases heq
  calc (UInt32.ofNat place).toNat ≤ place := by
        rw [UInt32.toNat_ofNat']
        exact Nat.mod_le _ _
    _ < image.instructions.length := by rwa [← hencoded.length_eq]

/-- The last instruction of an image stands on the last instruction line. -/
theorem getLast?_encodes (hassembled : Image.ofAssembly source = .ok image)
    {written : WrittenInstruction}
    (hlast : (instructionsIn (linesOf source)).getLast? = some written) :
    ∃ i, image.instructions.getLast? = some i ∧
      Encodes (labelTable (linesOf source)) written i := by
  obtain ⟨_, _, _, hencoded⟩ := ofAssembly_eq_ok_iff.mp hassembled
  have hreversed := List.forall₂_reverse_iff.mpr hencoded
  rw [← List.head?_reverse] at hlast ⊢
  obtain ⟨others, hothers⟩ := List.head?_eq_some_iff.mp hlast
  rw [hothers] at hreversed
  obtain ⟨i, rest, hi, _, hrest⟩ := List.forall₂_cons_left_iff.mp hreversed
  exact ⟨i, by rw [hrest]; rfl, encodeInstruction_eq_ok_iff.mp hi⟩

/-- A well-labelled source is assembled to a closed program. -/
theorem closedProgram_of_wellLabelled (hassembled : Image.ofAssembly source = .ok image)
    (hlabelled : WellLabelled source) : ClosedProgram image.instructions.toArray where
  targets := by
    intro i hi hop target htarget
    obtain ⟨written, hwritten, hencodes⟩ := exists_encodes hassembled (List.mem_toArray.mp hi)
    cases hencodes with
    | unknown _ =>
        rw [opcode?_ofOpcode] at hop
        simp at hop
    | @known op flags operand hmnemonic _ hoperand =>
        rw [opcode?_ofOpcode, Option.some.injEq, Option.some.injEq] at hop
        obtain ⟨name, hname, hlabel⟩ :=
          hlabelled.targets written (mem_instructionsIn.mpr hwritten) op hmnemonic hop
        have htarget : operand = .u32 target := htarget
        subst htarget
        have hread : readTarget (labelTable (linesOf source)) name = .ok (.u32 target) := by
          rw [hname] at hoperand
          rcases hop with rfl | rfl <;> exact hoperand
        simpa using target_lt hassembled hlabelled.labels hlabel hread
  last := by
    obtain ⟨written, op, hlast, hcondition, hop, hends⟩ := hlabelled.last
    obtain ⟨i, hi, hencodes⟩ := getLast?_encodes hassembled hlast
    cases hencodes with
    | unknown hnone =>
        rw [hop] at hnone
        cases hnone
    | @known op' flags operand hop' hflags hoperand =>
        obtain rfl : op = op' := Option.some.inj (hop.symm.trans hop')
        refine ⟨_, op, ?_, ?_, opcode?_ofOpcode op flags operand, hends⟩
        · simpa [List.getLast?_eq_getElem?] using hi
        · rw [hcondition] at hflags
          cases hflags
          rfl

end Assembly

namespace Engine

open Assembly

/-- The program of a well-labelled source is loaded, and then its counter stays below the number of
its instructions, also within a tick, and nothing that happens to it or around it is an overrun. -/
theorem history_wellLabelled_confined {source : String} {image : Image}
    (hassembled : Image.ofAssembly source = .ok image) (hlabelled : WellLabelled source)
    {name : BoundedText maxProgramNameSize} {load : Command} (hload : load.Loads name image)
    (loader : Engine) (before after : List (Engine × Command)) :
    let id := (history before).nextId
    let registry := history (before ++ (loader, load) :: after)
    loader.perform (history before) load =
        (.loaded id, (history before).register name image loader.callLimit) ∧
      (∀ m ∈ registry.machines, m.id = id → m.counter < image.instructions.length ∧
        ∀ budget next, m.tick budget = .ok next → next.counter < image.instructions.length) ∧
      (∀ budget fault, (id, fault) ∈ registry.failures budget → fault.cause ≠ .overrun) ∧
      ∀ engine command fault,
        ((engine : Engine).perform registry command).1 = .refused fault →
          fault.cause ≠ .overrun := by
  intro id registry
  have hclosed := closedProgram_of_wellLabelled hassembled hlabelled
  have htyped : ∀ i ∈ image.instructions.toArray, i.WellTyped := fun i hi =>
    wellTyped_of_ofAssembly hassembled i (List.mem_toArray.mp hi)
  have hlasting :=
    (Machine.code_lasting image.instructions.toArray).and Machine.confined_lasting
  have hholds : registry.Holds id _ := history_holds hlasting hload loader before after
    ⟨rfl, Machine.fresh_confined htyped hclosed id name loader.callLimit⟩
  have hcounter : ∀ m : Machine, m.code = image.instructions.toArray ∧ m.Confined →
      m.counter < image.instructions.length := by
    rintro m ⟨hcode, hm⟩
    simpa [hcode] using hm.counter_lt
  refine ⟨loader.perform_loads (history before) hload, fun m hmem hid => ?_,
    fun budget fault hfailure => ?_, fun engine command fault hrefused => ?_⟩
  · have hm := hholds.machines m hmem hid
    exact ⟨hcounter m hm, fun _ next hturn => hcounter next (hlasting.tick hm hturn)⟩
  · obtain ⟨m, hmem, hid, hturn⟩ := Registry.mem_failures_iff.mp hfailure
    exact (hholds.machines m hmem hid).2.tick_error hturn
  · intro hcause
    have hrequest := perform_refused hrefused
    rw [hcause] at hrequest
    cases hrequest

/-- A call whose return address is the label that it calls, a loop and a return. -/
theorem history_wellLabelled_confined_next :
    let source := "  call next\nnext: ; twice\n  jmp.p next\n  return"
    let image : Image := ⟨[⟨3, 0, .u32 1⟩, ⟨4, 1, .u32 1⟩, ⟨1, 0, .none⟩]⟩
    let registry := history [({}, .loadImage "main" image), ({}, .execute 0), (⟨2, 1⟩, .tick)]
    Image.ofAssembly source = .ok image ∧ WellLabelled source ∧
      (Command.loadImage "main" image).Loads ⟨"main", by decide⟩ image ∧
      registry.machines.map (fun m => (m.counter, m.calls)) = [(2, [1])] ∧
      ∀ fault, (0, fault) ∈ registry.failures 5 → fault.cause ≠ .overrun := by
  intro source image registry
  have hlines : linesOf source =
      [.instruction ⟨['c', 'a', 'l', 'l'], none, some ['n', 'e', 'x', 't']⟩, .label "next",
        .instruction ⟨['j', 'm', 'p'], some ['p'], some ['n', 'e', 'x', 't']⟩,
        .instruction ⟨['r', 'e', 't', 'u', 'r', 'n'], none, none⟩] := by
    decide +kernel
  have hlabelled : WellLabelled source := by
    constructor
    · rw [hlines]
      intro written hwritten op hop hjumps
      simp only [instructionsIn, Line.instruction?, List.filterMap_cons, List.filterMap_nil,
        List.mem_cons, List.not_mem_nil, or_false] at hwritten
      rcases hwritten with rfl | rfl | rfl
      · exact ⟨_, rfl, by decide⟩
      · exact ⟨_, rfl, by decide⟩
      · -- a return has no operand
        have hret : some Opcode.ret = some op := hop
        cases hret
        simp at hjumps
    · rw [hlines]
      exact followed_of_getLast? rfl
    · rw [hlines]
      exact ⟨_, .ret, rfl, rfl, rfl, rfl⟩
  have hassembled : Image.ofAssembly source = .ok image := by decide +kernel
  have hload : (Command.loadImage "main" image).Loads ⟨"main", by decide⟩ image := .image
  obtain ⟨_, _, hfailures, _⟩ := history_wellLabelled_confined hassembled hlabelled hload {} []
    [({}, .execute 0), (⟨2, 1⟩, .tick)]
  exact ⟨hassembled, hlabelled, hload, by decide, hfailures 5⟩

end Engine

end TickMachine
