import Mathlib.Data.List.Forall2
import TickMachine.Text.Blank
import TickMachine.Text.Lines

/-! # Spans, trimmed texts and lines

Taking the longest front of which all elements have a property, and trimming, told from the other
side: which texts give a certain result. Lines are compared with the segments between the feeds,
which can be put together again.
-/

namespace TickMachine.Text

/-! ## Spans -/

section Spans

variable {α : Type} {p : α → Bool} {front rest : List α}

theorem takeWhile_append_stop (hfront : ∀ x ∈ front, p x) (hrest : ∀ x ∈ rest.head?, p x = false) :
    (front ++ rest).takeWhile p = front := by
  rw [List.takeWhile_append_of_pos hfront]
  cases rest with
  | nil => simp
  | cons x rest =>
      have hx : p x = false := hrest x rfl
      simp [hx]

theorem dropWhile_append_stop (hfront : ∀ x ∈ front, p x) (hrest : ∀ x ∈ rest.head?, p x = false) :
    (front ++ rest).dropWhile p = rest := by
  rw [List.dropWhile_append_of_pos hfront]
  cases rest with
  | nil => rfl
  | cons x rest =>
      have hx : p x = false := hrest x rfl
      simp [hx]

/-- The element at which a span stops does not have the property. -/
theorem head?_dropWhile_stop (p : α → Bool) (xs : List α) :
    ∀ x ∈ (xs.dropWhile p).head?, p x = false := by
  intro x hx
  have hstop := List.head?_dropWhile_not p xs
  rw [Option.mem_def.mp hx] at hstop
  exact hstop

/-- Every sequence has a longest front of which all elements have the property. -/
theorem exists_span (p : α → Bool) (xs : List α) :
    ∃ front rest, xs = front ++ rest ∧ (∀ x ∈ front, p x) ∧ ∀ x ∈ rest.head?, p x = false :=
  ⟨xs.takeWhile p, xs.dropWhile p, List.takeWhile_append_dropWhile.symm,
    fun x hx => List.all_eq_true.mp List.all_takeWhile x hx, head?_dropWhile_stop p xs⟩

/-- If the first element has the property, the longest front is not empty. -/
theorem exists_span_cons {x : α} (hx : p x) (xs : List α) :
    ∃ front rest, xs = front ++ rest ∧ (∀ y ∈ x :: front, p y) ∧
      ∀ y ∈ rest.head?, p y = false := by
  obtain ⟨front, rest, rfl, hfront, hrest⟩ := exists_span p xs
  exact ⟨front, rest, rfl, List.forall_mem_cons.mpr ⟨hx, hfront⟩, hrest⟩

end Spans

/-! ## Letters -/

theorem isAlpha_iff {c : Char} : c.isAlpha = true ↔
    (65 ≤ c.toNat ∧ c.toNat ≤ 90) ∨ (97 ≤ c.toNat ∧ c.toNat ≤ 122) := by
  change (decide (65 ≤ c.val ∧ c.val ≤ 90) || (97 ≤ c.val && c.val ≤ 122)) = true ↔ _
  simp only [Bool.or_eq_true, Bool.and_eq_true, decide_eq_true_eq, UInt32.le_iff_toNat_le,
    UInt32.reduceToNat, Char.toNat_val]

/-! ## Trimming -/

/-- All characters are blank. -/
def AllBlank (cs : List Char) : Prop :=
  ∀ c ∈ cs, isBlank c = true

/-- No blank character stands at an end. -/
structure Trimmed (cs : List Char) : Prop where
  head : ∀ c ∈ cs.head?, isBlank c = false
  last : ∀ c ∈ cs.getLast?, isBlank c = false

theorem allBlank_nil : AllBlank [] :=
  fun _ h => nomatch h

theorem AllBlank.append {front back : List Char} (hfront : AllBlank front)
    (hback : AllBlank back) : AllBlank (front ++ back) := by
  intro c hc
  rcases List.mem_append.mp hc with hc | hc
  · exact hfront c hc
  · exact hback c hc

theorem AllBlank.reverse {cs : List Char} (h : AllBlank cs) : AllBlank cs.reverse :=
  fun c hc => h c (List.mem_reverse.mp hc)

theorem trimLeft_append {front text : List Char} (hfront : AllBlank front)
    (htext : ∀ c ∈ text.head?, isBlank c = false) : trimLeft (front ++ text) = text :=
  dropWhile_append_stop hfront htext

/-- Trimming at the end is trimming the reversed text at its front. -/
theorem trimRight_append {text back : List Char} (hback : AllBlank back)
    (htext : ∀ c ∈ text.getLast?, isBlank c = false) : trimRight (text ++ back) = text := by
  have hreversed : trimLeft (back.reverse ++ text.reverse) = text.reverse :=
    trimLeft_append hback.reverse (by rwa [List.head?_reverse])
  rw [trimRight, List.reverse_append]
  exact (congrArg List.reverse hreversed).trans (List.reverse_reverse text)

theorem exists_trimLeft (cs : List Char) :
    ∃ front, cs = front ++ trimLeft cs ∧ AllBlank front :=
  ⟨cs.takeWhile isBlank, List.takeWhile_append_dropWhile.symm,
    fun c hc => List.all_eq_true.mp List.all_takeWhile c hc⟩

theorem exists_trimRight (cs : List Char) :
    ∃ back, cs = trimRight cs ++ back ∧ AllBlank back := by
  obtain ⟨front, hcs, hfront⟩ := exists_trimLeft cs.reverse
  refine ⟨front.reverse, ?_, hfront.reverse⟩
  have hcs' : cs.reverse.reverse = (front ++ trimLeft cs.reverse).reverse := congrArg _ hcs
  rw [List.reverse_reverse, List.reverse_append] at hcs'
  exact hcs'

theorem trimLeft_head (cs : List Char) : ∀ c ∈ (trimLeft cs).head?, isBlank c = false :=
  head?_dropWhile_stop isBlank cs

theorem trimRight_last (cs : List Char) : ∀ c ∈ (trimRight cs).getLast?, isBlank c = false := by
  rw [trimRight, List.getLast?_reverse]
  exact trimLeft_head cs.reverse

/-- A text is trimmed to what stands between the blank characters at its ends. -/
theorem trim_eq_iff {cs text : List Char} :
    trim cs = text ↔
      ∃ front back, cs = front ++ (text ++ back) ∧ AllBlank front ∧ AllBlank back ∧
        Trimmed text := by
  constructor
  · rintro rfl
    obtain ⟨front, hcs, hfront⟩ := exists_trimLeft cs
    obtain ⟨back, hrest, hback⟩ := exists_trimRight (trimLeft cs)
    refine ⟨front, back, ?_, hfront, hback, ?_, trimRight_last _⟩
    · rw [trim, ← hrest, ← hcs]
    · -- what begins a text that was trimmed at the end began it before
      intro c hc
      apply trimLeft_head cs
      rw [hrest]
      exact List.mem_head?_append_of_mem_head? hc
  · rintro ⟨front, back, rfl, hfront, hback, htext⟩
    cases text with
    | nil =>
        have hnone : trimLeft (front ++ back ++ []) = [] :=
          trimLeft_append (hfront.append hback) (by simp)
        rw [List.nil_append, trim, ← List.append_nil (front ++ back), hnone]
        rfl
    | cons c text =>
        have hhead : ∀ d ∈ (c :: text ++ back).head?, isBlank d = false := htext.head
        rw [trim, trimLeft_append hfront hhead, trimRight_append hback htext.last]

/-- A text that does not end in blank characters is trimmed at its front only. -/
theorem trim_eq_trimLeft {cs : List Char} (hlast : ∀ c ∈ cs.getLast?, isBlank c = false) :
    trim cs = trimLeft cs := by
  obtain ⟨front, hcs, _⟩ := exists_trimLeft cs
  have hrest : ∀ c ∈ (trimLeft cs).getLast?, isBlank c = false := by
    intro c hc
    apply hlast
    rw [hcs]
    exact List.mem_getLast?_append_of_mem_getLast? hc
  calc trim cs = trimRight (trimLeft cs ++ []) := by rw [List.append_nil, trim]
    _ = trimLeft cs := trimRight_append allBlank_nil hrest

/-! ## Lines -/

section Lines

variable {α : Type} {feed ret : α} {xs : List α}

/-- The line is the segment, or the segment without a return at its end. -/
def IsLineOf (ret : α) (line piece : List α) : Prop :=
  piece = line ∨ piece = line ++ [ret]

theorem IsLineOf.cons {line piece : List α} (h : IsLineOf ret line piece) (x : α) :
    IsLineOf ret (x :: line) (x :: piece) := by
  rcases h with rfl | rfl
  · exact .inl rfl
  · exact .inr rfl

variable [DecidableEq α]

theorem lines_eq_nil_iff : lines feed ret xs = [] ↔ xs = [] := by
  constructor
  · intro h
    induction xs with
    | nil => rfl
    | cons x xs ih =>
        simp only [lines] at h
        split at h
        next => cases h
        next =>
          split at h
          next hreturn =>
            obtain ⟨_, hfeed⟩ := hreturn
            rw [ih h] at hfeed
            cases hfeed
          next => cases hlines : lines feed ret xs <;> simp [hlines, consLine] at h
  · rintro rfl
    rfl

/-- Lines are the segments between the feeds, up to returns at their ends and an empty last one. -/
theorem lines_splitOn (feed ret : α) (xs : List α) :
    ∃ pad, (pad = [] ∨ pad = [[]]) ∧
      List.Forall₂ (IsLineOf ret) (lines feed ret xs ++ pad) (xs.splitOn feed) := by
  induction xs with
  | nil => exact ⟨[[]], .inr rfl, .cons (.inl rfl) .nil⟩
  | cons x xs ih =>
      obtain ⟨pad, hpad, ih⟩ := ih
      rw [List.splitOn_cons_eq_if_modifyHead]
      by_cases hfeed : x = feed
      · subst hfeed
        rw [lines_feed, if_pos (beq_self_eq_true x)]
        exact ⟨pad, hpad, .cons (.inl rfl) ih⟩
      · have hbeq : (x == feed) = false := beq_false_of_ne hfeed
        rw [lines, if_neg hfeed, hbeq, if_neg Bool.false_ne_true]
        obtain ⟨piece, pieces, hpieces⟩ := List.exists_cons_of_ne_nil (List.splitOn_ne_nil feed xs)
        rw [hpieces] at ih ⊢
        rw [List.modifyHead_cons]
        split
        next hreturn =>
          -- the segment that begins with the feed is empty
          obtain ⟨rfl, hhead⟩ := hreturn
          obtain ⟨rest, rfl⟩ := List.head?_eq_some_iff.mp hhead
          rw [List.splitOn_cons_eq_if_modifyHead, if_pos (beq_self_eq_true feed)] at hpieces
          obtain ⟨rfl, rfl⟩ := List.cons.inj hpieces
          rw [lines_feed] at ih ⊢
          cases ih with
          | cons _ hothers => exact ⟨pad, hpad, .cons (.inr rfl) hothers⟩
        next =>
          by_cases hxs : xs = []
          · subst hxs
            cases hpieces
            exact ⟨[], .inl rfl, .cons (.inl rfl) .nil⟩
          · have hne : lines feed ret xs ≠ [] := mt lines_eq_nil_iff.mp hxs
            obtain ⟨line, others, hlines⟩ := List.exists_cons_of_ne_nil hne
            rw [hlines] at ih ⊢
            cases ih with
            | cons hfirst hothers => exact ⟨pad, hpad, .cons (hfirst.cons x) hothers⟩

/-- What stands in front of the first feed is the first line. -/
theorem exists_lines_feed {front : List α} (h : feed ∉ front) (rest : List α) :
    ∃ line, IsLineOf ret line front ∧
      lines feed ret (front ++ feed :: rest) = line :: lines feed ret rest := by
  induction front with
  | nil => exact ⟨[], .inl rfl, lines_feed feed ret rest⟩
  | cons x front ih =>
      have hx : x ≠ feed := fun hx => h (hx ▸ List.mem_cons_self)
      have hfront : feed ∉ front := fun hmem => h (List.mem_cons_of_mem x hmem)
      obtain ⟨line, hline, hlines⟩ := ih hfront
      rw [List.cons_append, lines, if_neg hx, hlines]
      split
      next hreturn =>
        -- the feed is right behind the return, so nothing is between them
        obtain ⟨rfl, hhead⟩ := hreturn
        cases front with
        | nil =>
            obtain rfl : line = [] := by
              rcases hline with h | h
              · exact h.symm
              · simp at h
            exact ⟨[], .inr rfl, rfl⟩
        | cons y front =>
            obtain rfl : y = feed := Option.some.inj hhead
            exact absurd List.mem_cons_self hfront
      next => exact ⟨x :: line, hline.cons x, rfl⟩

/-- Segments with a feed behind each of them are the lines, up to returns at their ends. -/
theorem lines_flatMap {pieces : List (List α)} (h : ∀ piece ∈ pieces, feed ∉ piece) :
    List.Forall₂ (IsLineOf ret) (lines feed ret (pieces.flatMap (· ++ [feed]))) pieces := by
  induction pieces with
  | nil => exact .nil
  | cons first others ih =>
      obtain ⟨hfirst, hothers⟩ := List.forall_mem_cons.mp h
      rw [List.flatMap_cons, List.append_assoc, List.singleton_append]
      have hcut : ∃ line, IsLineOf ret line first ∧
          lines feed ret (first ++ feed :: others.flatMap (· ++ [feed])) =
            line :: lines feed ret (others.flatMap (· ++ [feed])) :=
        exists_lines_feed hfirst _
      obtain ⟨line, hline, hlines⟩ := hcut
      rw [hlines]
      exact .cons hline (ih hothers)

theorem lines_of_not_mem (h : feed ∉ xs) (hne : xs ≠ []) : lines feed ret xs = [xs] := by
  induction xs with
  | nil => exact absurd rfl hne
  | cons x xs ih =>
      have hx : x ≠ feed := fun hx => h (hx ▸ List.mem_cons_self)
      have hxs : feed ∉ xs := fun hmem => h (List.mem_cons_of_mem x hmem)
      have hhead : xs.head? ≠ some feed := fun hhead => hxs (List.mem_of_head? hhead)
      rw [lines, if_neg hx, if_neg fun hreturn => hhead hreturn.2]
      by_cases hnil : xs = []
      · rw [hnil]
        rfl
      · rw [ih hxs hnil]
        rfl

/-- No segment contains a feed. -/
theorem not_mem_of_mem_splitOn {piece : List α} (h : piece ∈ xs.splitOn feed) : feed ∉ piece := by
  induction xs generalizing piece with
  | nil =>
      rw [List.mem_singleton.mp h]
      exact List.not_mem_nil
  | cons x xs ih =>
      obtain ⟨first, others, hpieces⟩ := List.exists_cons_of_ne_nil (List.splitOn_ne_nil feed xs)
      rw [List.splitOn_cons_eq_if_modifyHead] at h
      rw [hpieces] at h ih
      split at h
      next =>
        rcases List.mem_cons.mp h with rfl | h
        · exact List.not_mem_nil
        · exact ih h
      next hx =>
        rcases List.mem_cons.mp h with rfl | h
        · intro hmem
          rcases List.mem_cons.mp hmem with rfl | hmem
          · exact hx (beq_self_eq_true feed)
          · exact ih List.mem_cons_self hmem
        · exact ih (List.mem_cons_of_mem _ h)

/-- Segments with a feed behind each of them are found again. -/
theorem splitOn_flatMap {pieces : List (List α)} (h : ∀ piece ∈ pieces, feed ∉ piece) :
    (pieces.flatMap (· ++ [feed])).splitOn feed = pieces ++ [[]] := by
  induction pieces with
  | nil => rfl
  | cons first others ih =>
      obtain ⟨hfirst, hothers⟩ := List.forall_mem_cons.mp h
      rw [List.flatMap_cons, List.append_assoc, List.singleton_append,
        List.splitOn_append_cons_self_of_not_mem hfirst, ih hothers, List.cons_append]

end Lines

end TickMachine.Text
