import Mathlib.Data.List.TakeWhile
import TickMachine.Proofs.Source.Program
import TickMachine.Proofs.Source.Turns

/-! # The two policies of the parser

A run that stops at the first error is the run that goes on, cut off there: up to the first error
both take the same turns, and no warning stops a run.
-/

namespace TickMachine

/-- The policy is to stop at the diagnostic. -/
def ErrorPolicy.stopsAt : ErrorPolicy → Diagnostic → Bool
  | .abort, d => d.severity = .error
  | .recover, _ => false

theorem ErrorPolicy.stopsAt_of_warning (policy : ErrorPolicy) {d : Diagnostic}
    (h : d.severity = .warning) : policy.stopsAt d = false := by
  cases policy <;> simp [stopsAt, h]

namespace Parse

variable {eof : Token}

/-- What a run with the given result comes to if it stops at the first error among those noted. -/
def stoppedAt (result : Except Diagnostic Program) : List Diagnostic → Parse
  | [] => ⟨[], result⟩
  | d :: ds =>
    match d.severity with
    | .error => ⟨[], .error d⟩
    | .warning => note d (stoppedAt result ds)

/-- The run cut off at the first error it noted. -/
def stopped (p : Parse) : Parse :=
  stoppedAt p.result p.noted

theorem after_abort (d? : Option Diagnostic) (p : Parse) :
    after .abort d? p.stopped = (after .recover d? p).stopped := by
  cases d? with
  | none => rfl
  | some d => cases hd : d.severity <;> simp only [after, stopped, note, stoppedAt, hd]

theorem finish_abort (t : Token) (frames : List Frame) (done : List Statement) :
    finish .abort t frames done = (finish .recover t frames done).stopped := by
  cases frames with
  | nil => rfl
  | cons f fs => rfl

/-- A run that stops at the first error is the run that goes on, cut off there. -/
theorem run_abort (heof : eof.kind = .eof) (frames : List Frame) (done : List Statement)
    (tokens : List Token) :
    run .abort eof frames done tokens = (run .recover eof frames done tokens).stopped := by
  induction frames, done, tokens using turn_induction eof with
  | ends frames done tokens hend => rw [run_end hend, run_end hend, finish_abort]
  | turns frames done t ts ht ih => rw [run_cons heof ts ht, run_cons heof ts ht, ih, after_abort]

theorem finish_recover (t : Token) (frames : List Frame) (done : List Statement) :
    ∃ program, (finish .recover t frames done).result = .ok program := by
  induction frames generalizing done with
  | nil => exact ⟨done.reverse, rfl⟩
  | cons f fs ih => exact ih (f.close done none)

theorem after_recover (d? : Option Diagnostic) (p : Parse) :
    (after .recover d? p).result = p.result := by
  cases d? with
  | none => rfl
  | some d => rfl

theorem noted_after_recover (d? : Option Diagnostic) (p : Parse) :
    (after .recover d? p).noted = d?.toList ++ p.noted := by
  cases d? with
  | none => rfl
  | some d => rfl

/-- A run that goes on after errors always comes to a program. -/
theorem run_recover (heof : eof.kind = .eof) (frames : List Frame) (done : List Statement)
    (tokens : List Token) :
    ∃ program, (run .recover eof frames done tokens).result = .ok program := by
  induction frames, done, tokens using turn_induction eof with
  | ends frames done tokens hend =>
      rw [run_end hend]
      exact finish_recover _ frames done
  | turns frames done t ts ht ih => rwa [run_cons heof ts ht, after_recover]

/-! ## The first error -/

/-- What is noted in front of the first error stays, and the error is the answer. -/
theorem stoppedAt_eq (result : Except Diagnostic Program) (noted : List Diagnostic) :
    stoppedAt result noted =
      ⟨noted.takeWhile (!ErrorPolicy.abort.stopsAt ·),
        (noted.find? ErrorPolicy.abort.stopsAt).elim result .error⟩ := by
  induction noted with
  | nil => rfl
  | cons d ds ih =>
      cases hd : d.severity with
      | error =>
          have hstop : ErrorPolicy.abort.stopsAt d = true := by simp [ErrorPolicy.stopsAt, hd]
          simp only [stoppedAt, hd]
          rw [List.takeWhile_cons_of_neg (by simp [hstop]), List.find?_cons_of_pos hstop,
            Option.elim_some]
      | warning =>
          have hgo := ErrorPolicy.abort.stopsAt_of_warning hd
          simp only [stoppedAt, hd, ih]
          rw [List.takeWhile_cons_of_pos (by simp [hgo]), List.find?_cons_of_neg (by simp [hgo])]
          rfl

theorem stoppedAt_of_no_error {result : Except Diagnostic Program} {noted : List Diagnostic}
    (h : ∀ d ∈ noted, d.severity ≠ .error) : stoppedAt result noted = ⟨noted, result⟩ := by
  have hgo : ∀ d ∈ noted, ErrorPolicy.abort.stopsAt d = false := by
    simpa [ErrorPolicy.stopsAt] using h
  have hall := List.takeWhile_eq_self_iff.mpr fun d hd => congrArg not (hgo d hd)
  rw [stoppedAt_eq, List.find?_eq_none.mpr fun d hd => by simp [hgo d hd]]
  exact congrArg (Parse.mk · result) hall

theorem stopped_of_no_error {p : Parse} (h : ∀ d ∈ p.noted, d.severity ≠ .error) :
    p.stopped = p :=
  stoppedAt_of_no_error h

theorem stoppedAt_of_error {result : Except Diagnostic Program} {noted : List Diagnostic}
    {d : Diagnostic} (h : noted.find? (·.severity = .error) = some d) :
    (stoppedAt result noted).result = .error d := by
  have hfind : noted.find? ErrorPolicy.abort.stopsAt = some d := h
  rw [stoppedAt_eq, hfind, Option.elim_some]

theorem no_error_of_stopped {p : Parse} {program : Program} (h : p.stopped.result = .ok program) :
    ∀ d ∈ p.noted, d.severity ≠ .error := by
  cases hfind : p.noted.find? (·.severity = .error) with
  | none => simpa using hfind
  | some d =>
      have herror : p.stopped.result = .error d := stoppedAt_of_error hfind
      cases h.symm.trans herror

/-- Without an error the policy makes no difference. -/
theorem ofTokens_eq_recover (policy : ErrorPolicy) {tokens : List Token}
    (h : ∀ d ∈ (ofTokens .recover tokens).noted, d.severity ≠ .error) :
    ofTokens policy tokens = ofTokens .recover tokens := by
  cases policy with
  | recover => rfl
  | abort =>
      rw [ofTokens, run_abort (endToken_kind tokens)]
      exact stopped_of_no_error h

theorem no_error_of_ok {tokens : List Token} {program : Program}
    (h : (ofTokens .abort tokens).result = .ok program) :
    ∀ d ∈ (ofTokens .recover tokens).noted, d.severity ≠ .error := by
  rw [ofTokens, run_abort (endToken_kind tokens)] at h
  exact no_error_of_stopped h

end Parse

namespace Parsed

theorem recovered_of_result {tokens : List Token} {program : Program}
    (h : (Parse.ofTokens .recover tokens).result = .ok program) :
    recovered tokens = ⟨program, (Parse.ofTokens .recover tokens).noted⟩ := by
  unfold recovered
  simp only [h]

theorem result_of_ofTokens {policy : ErrorPolicy} {tokens : List Token} {parsed : Parsed}
    (h : ofTokens policy tokens = .ok parsed) :
    (Parse.ofTokens policy tokens).result = .ok parsed.program := by
  unfold ofTokens at h
  dsimp only at h
  cases hresult : (Parse.ofTokens policy tokens).result with
  | error d =>
      rw [hresult] at h
      cases h
  | ok program =>
      rw [hresult] at h
      cases h
      rfl

theorem ofTokens_recover (tokens : List Token) :
    ofTokens .recover tokens = .ok (recovered tokens) := by
  obtain ⟨program, hprogram⟩ := Parse.run_recover (endToken_kind tokens) [] [] tokens
  rw [recovered_of_result hprogram, ofTokens]
  exact congrArg (Except.map _) hprogram

/-- If there is an answer, it is the one with the mistakes skipped. -/
theorem eq_recovered_of_ofTokens {policy : ErrorPolicy} {tokens : List Token} {parsed : Parsed}
    (h : ofTokens policy tokens = .ok parsed) : parsed = recovered tokens := by
  have hrecover := ofTokens_recover tokens
  cases policy with
  | recover => exact Except.ok.inj (h.symm.trans hrecover)
  | abort =>
      have hnone := Parse.no_error_of_ok (result_of_ofTokens h)
      rw [ofTokens, Parse.ofTokens_eq_recover .abort hnone] at h
      exact Except.ok.inj (h.symm.trans hrecover)

/-- What the strict parser accepts, both policies accept without an error. -/
theorem exists_of_accepted {tokens : List Token} {program : Program}
    (h : Program.ofTokens tokens = .ok program) (policy : ErrorPolicy) :
    ∃ parsed, ofTokens policy tokens = .ok parsed ∧ parsed.program = program ∧
      ∀ d ∈ parsed.diagnostics, d.severity ≠ .error := by
  rw [Program.ofTokens_eq_result] at h
  have hnone := Parse.no_error_of_ok h
  rw [Parse.ofTokens_eq_recover .abort hnone] at h
  refine ⟨⟨program, (Parse.ofTokens .recover tokens).noted⟩, ?_, rfl, hnone⟩
  unfold ofTokens
  rw [Parse.ofTokens_eq_recover policy hnone]
  exact congrArg (Except.map _) h

/-- The two policies agree. Going on after errors, there is a program always; stopping at the first
error gives the same program and diagnostics if there is no error among them, and otherwise the
first error there is. -/
theorem ofTokens_policies (tokens : List Token) :
    ofTokens .recover tokens = .ok (recovered tokens) ∧
      ofTokens .abort tokens =
        match (recovered tokens).diagnostics.find? (·.severity = .error) with
        | none => .ok (recovered tokens)
        | some d => .error d := by
  obtain ⟨program, hprogram⟩ := Parse.run_recover (endToken_kind tokens) [] [] tokens
  unfold recovered ofTokens Parse.ofTokens
  rw [Parse.run_abort (endToken_kind tokens)]
  generalize Parse.run .recover (endToken tokens) [] [] tokens = run at hprogram ⊢
  obtain ⟨noted, result⟩ := run
  obtain rfl : result = .ok program := hprogram
  refine ⟨rfl, ?_⟩
  dsimp only
  cases hfind : noted.find? (·.severity = .error) with
  | none =>
      have hno : ∀ d ∈ noted, d.severity ≠ .error := by simpa using hfind
      rw [Parse.stopped_of_no_error hno]
      rfl
  | some d =>
      have hstopped : (Parse.stopped ⟨noted, .ok program⟩).result = .error d :=
        Parse.stoppedAt_of_error hfind
      rw [hstopped]
      rfl

end Parsed

end TickMachine
