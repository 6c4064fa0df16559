import TickMachine.Proofs.Source.Classes
import TickMachine.Proofs.Text.Boundary

/-! # Spoiled text

After a fault the lexer goes on at the next blank, or behind the lexeme at fault if that ends later.
It counts in bytes, but never stops within a character: what it skips is one character or more, and
the error token shows as much of it as a token has room for.
-/

namespace TickMachine

open String (utf8Len utf8Len_append utf8Len_le_of_prefix utf8ByteSize_ofList)
open Text (isBoundary isBoundary_iff cutSize LongestFront longestFront_takeBytes longestFront_iff)

/-! ## What a fault spoils -/

namespace Segment

/-- The number of bytes of the segments one after the other. -/
def offset : List Segment → Nat
  | [] => 0
  | s :: ss => utf8Len s.text + offset ss

/-- The segment `s` at fault, with `before` in front of it and `rest` left of the source behind it,
takes the text it spoils, and going on behind it is going on at a boundary. -/
structure Skips (source : List Char) (before : List Segment) (s : Segment) (rest : List Char) :
    Prop where
  source_eq : source = before.flatMap text ++ (s.text ++ rest)
  /-- It has the bytes of the lexeme at fault or those up to the next blank, whichever are more. -/
  spoils : ∃ length, Lexeme.scan (s.text ++ rest) = (s.lexeme, length) ∧
    utf8Len s.text = max (utf8Len ((s.text ++ rest).take length))
      (utf8Len ((s.text ++ rest).takeWhile (!Text.isBlank ·)))
  advances : ∃ c ∈ s.text.head?, offset before + c.utf8Size ≤ offset (before ++ [s])
  inside : offset (before ++ [s]) ≤ utf8Len source
  boundary : isBoundary (String.ofList source) (offset (before ++ [s]))

end Segment

/-- The token is an error token for the skipped text: it shows its longest front, which is neither
too long for a token nor empty. -/
structure Token.Marks (t : Token) (skipped : List Char) : Prop where
  kind : t.kind = .error
  accepted : BoundedText.ofString (String.ofList (Text.takeBytes maxTokenSize skipped)) = .ok t.text
  longest : LongestFront 128 (String.ofList skipped) t.text.text
  ne_empty : t.text.text ≠ ""

/-! ## Going on after a fault -/

/-- The longer one of two fronts of a text has more bytes. -/
theorem utf8Len_take_max (cs : List Char) (m n : Nat) :
    utf8Len (cs.take (max m n)) = max (utf8Len (cs.take m)) (utf8Len (cs.take n)) := by
  have hmono : Monotone fun k => utf8Len (cs.take k) :=
    fun _ _ h => utf8Len_le_of_prefix (List.take_prefix_take_left h)
  exact hmono.map_max

namespace Segment

theorem offset_eq (ss : List Segment) : offset ss = utf8Len (ss.flatMap text) := by
  induction ss with
  | nil => rfl
  | cons s ss ih => rw [offset, ih, List.flatMap_cons, utf8Len_append]

theorem offset_concat (ss : List Segment) (s : Segment) :
    offset (ss ++ [s]) = offset ss + utf8Len s.text := by
  rw [offset_eq, offset_eq, List.flatMap_append, List.flatMap_singleton, utf8Len_append]

theorem Leads.text_eq {s : Segment} {p : Position} {cs rest : List Char} (h : Leads s p cs rest)
    {lexeme : Lexeme} {n : Nat} (htake : Lexeme.take cs = (lexeme, n)) : s.text = cs.take n := by
  obtain rfl : s.text.length = n := congrArg Prod.snd (h.take.symm.trans htake)
  rw [h.text, List.take_left]

/-- A first segment at fault has the bytes of its lexeme or those up to the next blank. -/
theorem Leads.spoils {s : Segment} {p : Position} {cs rest : List Char} (h : Leads s p cs rest)
    (hfault : s.lexeme.isFault = true) :
    ∃ length, Lexeme.scan cs = (s.lexeme, length) ∧
      utf8Len s.text = max (utf8Len (cs.take length))
        (utf8Len (cs.takeWhile (!Text.isBlank ·))) := by
  obtain ⟨taken, behind, hcs, hfront, -⟩ := h.lexeme
  have htake := hfront.take_eq
  rw [if_pos hfault, ← hcs] at htake
  have hspan : cs.takeWhile (!Text.isBlank ·) =
      cs.take (cs.takeWhile (!Text.isBlank ·)).length :=
    List.prefix_iff_eq_take.mp (List.takeWhile_prefix _)
  have hne : cs ≠ [] := by
    rw [h.text]
    exact List.append_ne_nil_of_left_ne_nil h.ne_nil rest
  refine ⟨taken.length, (Lexeme.scan_eq_iff hne).mpr ⟨taken, behind, hcs, rfl, hfront⟩, ?_⟩
  rw [h.text_eq htake, utf8Len_take_max, ← hspan]

/-- A segment of a source at fault skips what it spoils. -/
theorem skips_of_cut {cs : List Char} {before after : List Segment} {s : Segment}
    (h : cut .recover .start cs = before ++ s :: after) (hfault : s.lexeme.isFault = true) :
    Skips cs before s (after.flatMap text) := by
  obtain ⟨q, hleads⟩ := leads_of_cut h
  have hsource : cs = before.flatMap text ++ (s.text ++ after.flatMap text) := by
    rw [← flatMap_text_cut .start cs, h, List.flatMap_append, List.flatMap_cons]
  -- the offset is the size of a front of the source, so a character ends there
  have hoffset : offset (before ++ [s]) = utf8Len (before.flatMap text ++ s.text) := by
    rw [offset_eq, List.flatMap_append, List.flatMap_singleton]
  rw [← List.append_assoc] at hsource
  obtain ⟨c, others, htext⟩ := List.exists_cons_of_ne_nil hleads.ne_nil
  refine ⟨by rw [hsource, List.append_assoc], hleads.spoils hfault, ⟨c, by rw [htext]; rfl, ?_⟩,
    ?_, ?_⟩
  · rw [offset_concat, htext, String.utf8Len_cons]
    omega
  · rw [hoffset, hsource, utf8Len_append _ (after.flatMap text)]
    exact Nat.le_add_right _ _
  · refine isBoundary_iff.mpr ⟨String.ofList (before.flatMap text ++ s.text),
      String.ofList (after.flatMap text), ?_, ?_⟩
    · rw [← String.ofList_append, ← hsource]
    · rw [hoffset, utf8ByteSize_ofList]

/-! ## Error tokens -/

/-- A segment at fault makes an error token for its text. -/
theorem exists_marks {file : String} {s : Segment} (hfault : s.lexeme.isFault = true)
    (hne : s.text ≠ []) : ∃ t, s.token? file = some t ∧ t.Marks s.text := by
  obtain ⟨lexeme, text, position⟩ := s
  cases lexeme with
  | gap => cases hfault
  | stray c => cases hfault
  | token kind text => cases hfault
  | fault cause =>
      have hlongest : LongestFront 128 (String.ofList text)
          (String.ofList (Text.takeBytes maxTokenSize text)) := by
        rw [longestFront_iff, String.toList_ofList]
        rfl
      have htext : String.ofList text ≠ "" := by
        intro hempty
        exact hne (String.ofList_eq_empty_iff.mp hempty)
      exact ⟨⟨.error, .ofPrefix text, file, position⟩, rfl, rfl,
        BoundedText.ofString_eq_ok_iff.mpr rfl, hlongest, hlongest.ne_empty (by decide) htext⟩

/-- An error token is made of a segment at fault. -/
theorem isFault_of_error {file : String} {s : Segment} {p : Position} {cs : List Char} {t : Token}
    (hmem : s ∈ cut .recover p cs) (htoken : s.token? file = some t) (hkind : t.kind = .error) :
    s.lexeme.isFault = true := by
  cases hlexeme : s.lexeme with
  | gap => simp [token?, hlexeme] at htoken
  | stray c => simp [token?, hlexeme] at htoken
  | token kind text =>
      simp only [token?, hlexeme, Option.some.injEq] at htoken
      subst htoken
      exact absurd hkind (isWritten_of_mem hmem hlexeme).2
  | fault cause => rfl

end Segment

/-- A text that is cut to a bound keeps its longest front and no other one, which going back from the
bound finds in at most three steps. Going on after faults, every error token of a source is made of
a segment at fault, and every such segment skips the text it spoils, one character or more up to a
boundary inside of the source, and makes an error token that shows the longest front of what was
skipped. -/
theorem Lexed.ofSource_spoiled (source file : String) :
    (∀ max text front, LongestFront max text front ↔
      front = String.ofList (Text.takeBytes max text.toList)) ∧
    (∀ max text, (String.ofList (Text.takeBytes max text.toList)).utf8ByteSize = cutSize max text ∧
      (max < text.utf8ByteSize → max < cutSize max text + 4)) ∧
    ∃ lexed, ofSource .recover source file = .ok lexed ∧
      (∀ front t back, lexed.tokens = front ++ t :: back → t.kind = .error →
        ∃ before s after, segments .recover source = before ++ s :: after ∧
          before.filterMap (Segment.token? file) = front ∧ s.lexeme.isFault = true ∧
          s.token? file = some t) ∧
      ∀ before s after, segments .recover source = before ++ s :: after →
        s.lexeme.isFault = true →
        Segment.Skips (readable source) before s (after.flatMap Segment.text) ∧
        ∃ t, s.token? file = some t ∧ t.Marks s.text := by
  obtain ⟨lexed, hlexed⟩ : ∃ lexed, ofSource .recover source file = .ok lexed := ⟨_, rfl⟩
  refine ⟨fun max text front => longestFront_iff, fun max text => ?_, lexed, hlexed,
    fun front t back htokens hkind => ?_, fun before s after hsplit hfault => ?_⟩
  · have hlongest := longestFront_takeBytes max text
    refine ⟨hlongest.size_eq, fun hover => ?_⟩
    rw [← hlongest.size_eq]
    exact hlongest.lt_size_add_four hover
  · have hend : t.kind ≠ .eof := by
      rw [hkind]
      exact nofun
    obtain ⟨before, s, after, hsplit, hbefore, htoken⟩ := exists_segment hlexed htokens hend
    have hmem : s ∈ segments .recover source := by
      rw [hsplit]
      exact List.mem_append_right _ List.mem_cons_self
    exact ⟨before, s, after, hsplit, hbefore, Segment.isFault_of_error hmem htoken hkind, htoken⟩
  · obtain ⟨q, hleads⟩ := Segment.leads_of_cut hsplit
    exact ⟨Segment.skips_of_cut hsplit hfault, Segment.exists_marks hfault hleads.ne_nil⟩

/-- A number at fault with a tail of two bytes a character, up to a blank of three bytes: the bound
is within a character and the text is a byte shorter. The open comment goes beyond its blanks. A
character of four bytes takes all three steps back. -/
theorem Lexed.ofSource_spoiled_accented :
    let source := "1.2.3" ++ String.ofList (List.replicate 62 'é') ++ "\u3000/* a b"
    3 < "𝄞".utf8ByteSize ∧ 3 < cutSize 3 "𝄞" + 4 ∧ cutSize 3 "𝄞" = 0 ∧
    ∃ lexed t back, ofSource .recover source "f" = .ok lexed ∧
      lexed.tokens.map (fun t => (t.kind, t.text.text.utf8ByteSize)) =
        [(.error, 127), (.error, 6), (.eof, 0)] ∧
      lexed.tokens = [] ++ t :: back ∧ t.kind = .error ∧
      ∃ before s after, segments .recover source = before ++ s :: after ∧
        s.lexeme.isFault = true ∧ s.token? "f" = some t ∧ t.Marks s.text ∧
        Segment.Skips (readable source) before s (after.flatMap Segment.text) ∧
        cutSize 128 (String.ofList s.text) = 127 := by
  intro source
  obtain ⟨-, hcut, lexed, hlexed, htokens, hsegments⟩ := ofSource_spoiled source "f"
  have hwide : 3 < "𝄞".utf8ByteSize := by decide
  refine ⟨hwide, (hcut 3 "𝄞").2 hwide, by decide +kernel, lexed, ?_⟩
  have hsizes : lexed.tokens.map (fun t => (t.kind, t.text.text.utf8ByteSize)) =
      [(.error, 127), (.error, 6), (.eof, 0)] := by
    rw [eq_of_ofSource hlexed]
    decide +kernel
  obtain ⟨t, back, hsplit, ht, -⟩ := List.map_eq_cons_iff.mp hsizes
  obtain ⟨hkind, hsize⟩ := Prod.mk.inj ht
  obtain ⟨before, s, after, hcuts, -, hfault, htoken⟩ := htokens [] t back hsplit hkind
  obtain ⟨hskips, t', htoken', hmarks⟩ := hsegments before s after hcuts hfault
  obtain rfl : t' = t := Option.some.inj (htoken'.symm.trans htoken)
  refine ⟨t', back, hlexed, hsizes, hsplit, hkind, before, s, after, hcuts, hfault, htoken, hmarks,
    hskips, ?_⟩
  rw [← hmarks.longest.size_eq, hsize]

end TickMachine
