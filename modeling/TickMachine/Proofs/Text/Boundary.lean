import Mathlib.Data.Nat.Find
import Mathlib.Data.String.Basic
import TickMachine.Text.Bounded

/-! # Boundaries

A text is cut only where a character begins, and its bytes show where that is. To cut a text to a
number of bytes, one goes back from the bound, byte by byte, to the first boundary there is. What
is in front of it is the longest front of the text within the bound.
-/

namespace TickMachine.Text

open String (utf8Len utf8Len_append utf8Len_eq_zero utf8Len_le_of_prefix utf8Len_toList
  utf8ByteSize_ofList)

/-- The text can be cut behind its first `n` bytes: the next byte begins a character, or there is
none. -/
def isBoundary (text : String) (n : Nat) : Bool :=
  (⟨n⟩ : String.Pos.Raw).isValid text

/-- How many bytes are left of a text that is cut to at most `max`: all if there are no more, else
those in front of the first boundary on the way back from the bound, byte by byte. -/
def cutSize (max : Nat) (text : String) : Nat :=
  if text.utf8ByteSize ≤ max then text.utf8ByteSize
  else Nat.findGreatest (fun n => isBoundary text n) max

/-- A front of the text that ends at its last boundary within the first `max` bytes. -/
structure LongestFront (max : Nat) (text front : String) : Prop where
  isFront : ∃ back, text = front ++ back
  fits : front.utf8ByteSize ≤ max
  longest : ∀ n ≤ max, isBoundary text n → n ≤ front.utf8ByteSize

variable {max n : Nat} {text front : String}

/-! ## Fronts -/

/-- A text can be cut at its boundaries and nowhere else. -/
theorem isBoundary_iff :
    isBoundary text n ↔ ∃ front back, text = front ++ back ∧ front.utf8ByteSize = n := by
  rw [isBoundary, String.Pos.Raw.isValid_eq_true_iff, String.Pos.Raw.isValid_iff_exists_append]
  constructor
  · rintro ⟨front, back, htext, hsize⟩
    exact ⟨front, back, htext, (congrArg String.Pos.Raw.byteIdx hsize).symm⟩
  · rintro ⟨front, back, htext, rfl⟩
    exact ⟨front, back, htext, rfl⟩

/-- Behind every front but the whole text there is a character, and another boundary behind it. -/
theorem exists_isBoundary_behind (front : String) {back : String} (h : back ≠ "") :
    ∃ c : Char, isBoundary (front ++ back) (front.utf8ByteSize + c.utf8Size) := by
  obtain ⟨c, rest, hback⟩ := List.exists_cons_of_ne_nil (mt String.toList_eq_nil_iff.mp h)
  refine ⟨c, isBoundary_iff.mpr ⟨front ++ String.singleton c, String.ofList rest, ?_, ?_⟩⟩
  · apply String.toList_inj.mp
    simp [hback]
  · rw [String.utf8ByteSize_append, String.utf8ByteSize_singleton]

/-- Of two fronts of a text, the one with fewer bytes is a front of the other. -/
theorem prefix_of_utf8Len_le {a b c d : List Char} (h : a ++ b = c ++ d)
    (hle : utf8Len a ≤ utf8Len c) : a <+: c := by
  rcases List.append_eq_append_iff.mp h with ⟨e, rfl, -⟩ | ⟨e, rfl, -⟩
  · exact List.prefix_append a e
  · rw [utf8Len_append] at hle
    obtain rfl : e = [] := utf8Len_eq_zero.mp (by omega)
    exact ⟨[], by rw [List.append_nil, List.append_nil]⟩

namespace LongestFront

theorem boundary (h : LongestFront max text front) : isBoundary text front.utf8ByteSize := by
  obtain ⟨back, htext⟩ := h.isFront
  exact isBoundary_iff.mpr ⟨front, back, htext, rfl⟩

/-- A text has one longest front. -/
theorem unique {other : String} (h : LongestFront max text front)
    (hother : LongestFront max text other) : front = other := by
  obtain ⟨back, htext⟩ := h.isFront
  obtain ⟨behind, hbehind⟩ := hother.isFront
  have hle : front.utf8ByteSize ≤ other.utf8ByteSize :=
    hother.longest _ h.fits h.boundary
  have hge : other.utf8ByteSize ≤ front.utf8ByteSize :=
    h.longest _ hother.fits hother.boundary
  rw [← utf8Len_toList, ← utf8Len_toList] at hle hge
  have hchars : front.toList ++ back.toList = other.toList ++ behind.toList := by
    rw [← String.toList_append, ← String.toList_append, ← htext, hbehind]
  have hfront : front.toList <+: other.toList := prefix_of_utf8Len_le hchars hle
  have hlast : other.toList <+: front.toList := prefix_of_utf8Len_le hchars.symm hge
  exact String.toList_inj.mp (hfront.eq_of_length_le hlast.length_le)

/-- The size of the longest front is the one found on the way back from the bound. -/
theorem size_eq (h : LongestFront max text front) : front.utf8ByteSize = cutSize max text := by
  obtain ⟨back, htext⟩ := h.isFront
  unfold cutSize
  split
  next hshort =>
    have hwhole : isBoundary text text.utf8ByteSize :=
      isBoundary_iff.mpr ⟨text, "", String.append_empty.symm, rfl⟩
    have hle : front.utf8ByteSize ≤ text.utf8ByteSize := by
      rw [htext, String.utf8ByteSize_append]
      exact Nat.le_add_right _ _
    exact Nat.le_antisymm hle (h.longest _ hshort hwhole)
  next =>
    refine (Nat.findGreatest_eq_iff.mpr ⟨h.fits, fun _ => h.boundary, ?_⟩).symm
    intro n hlt hle hn
    exact absurd (h.longest n hle hn) (Nat.not_le.mpr hlt)

/-- Where a text is cut there are at most three steps back from the bound. -/
theorem lt_size_add_four (h : LongestFront max text front) (hover : max < text.utf8ByteSize) :
    max < front.utf8ByteSize + 4 := by
  obtain ⟨back, rfl⟩ := h.isFront
  have hcut : back ≠ "" := by
    rintro rfl
    rw [String.append_empty] at hover
    exact absurd h.fits (Nat.not_le.mpr hover)
  obtain ⟨c, hnext⟩ := exists_isBoundary_behind front hcut
  by_contra hfar
  have hsize := c.utf8Size_le_four
  have hpos := c.utf8Size_pos
  have hle := h.longest _ (by omega) hnext
  omega

/-- Four bytes are room enough for the first character. -/
theorem ne_empty (h : LongestFront max text front) (hmax : 4 ≤ max) (htext : text ≠ "") :
    front ≠ "" := by
  rintro rfl
  obtain ⟨c, hfirst⟩ := exists_isBoundary_behind "" htext
  rw [String.empty_append, String.utf8ByteSize_empty, Nat.zero_add] at hfirst
  have hle := h.longest _ (Nat.le_trans c.utf8Size_le_four hmax) hfirst
  exact absurd hle (Nat.not_le.mpr c.utf8Size_pos)

end LongestFront

/-! ## Taking bytes -/

/-- Taking characters as long as there is room gives the longest front. -/
theorem longestFront_takeBytes (max : Nat) (text : String) :
    LongestFront max text (String.ofList (takeBytes max text.toList)) where
  isFront := by
    obtain ⟨rest, hrest⟩ := takeBytes_prefix max text.toList
    refine ⟨String.ofList rest, ?_⟩
    rw [← String.ofList_append, hrest, String.ofList_toList]
  fits := utf8ByteSize_takeBytes max text.toList
  longest := by
    intro n hn hboundary
    obtain ⟨front, back, rfl, rfl⟩ := isBoundary_iff.mp hboundary
    by_contra hlonger
    generalize hchars : (front ++ back).toList = cs at hlonger
    obtain ⟨rest, hrest⟩ := takeBytes_prefix max cs
    have hsplit : takeBytes max cs ++ rest = front.toList ++ back.toList := by
      rw [hrest, ← hchars, String.toList_append]
    have hless : utf8Len (takeBytes max cs) < utf8Len front.toList := by
      rw [utf8Len_toList, ← utf8ByteSize_ofList]
      exact Nat.lt_of_not_le hlonger
    obtain ⟨more, hmore⟩ := prefix_of_utf8Len_le hsplit (Nat.le_of_lt hless)
    cases more with
    | nil =>
        rw [List.append_nil] at hmore
        exact Nat.ne_of_lt hless (congrArg utf8Len hmore)
    | cons c more =>
        -- the front has a character more than there is room for
        have hnext : cs = takeBytes max cs ++ c :: (more ++ back.toList) := by
          rw [← List.cons_append, ← List.append_assoc, hmore, ← String.toList_append, hchars]
        have hover : max < (String.ofList (takeBytes max cs ++ [c])).utf8ByteSize :=
          lt_utf8ByteSize_takeBytes hnext
        have hle : utf8Len (takeBytes max cs ++ [c]) ≤ utf8Len front.toList :=
          utf8Len_le_of_prefix ⟨more, by rw [List.append_assoc, List.singleton_append, hmore]⟩
        rw [utf8Len_toList, ← utf8ByteSize_ofList] at hle
        omega

/-- There is no other longest front. -/
theorem longestFront_iff :
    LongestFront max text front ↔ front = String.ofList (takeBytes max text.toList) := by
  constructor
  · intro h
    exact h.unique (longestFront_takeBytes max text)
  · rintro rfl
    exact longestFront_takeBytes max text

end TickMachine.Text
