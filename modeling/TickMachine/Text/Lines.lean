/-! # Lines

Cutting a sequence into lines. A line ends with a feed; one return right before the feed belongs
to the line end, a return elsewhere belongs to the line. What follows the last feed is a line of
its own unless it is empty.
-/

namespace TickMachine.Text

variable {α : Type}

/-- Puts an element in front of the first line. -/
def consLine (x : α) : List (List α) → List (List α)
  | [] => [[x]]
  | line :: rest => (x :: line) :: rest

variable [DecidableEq α]

/-- The lines of a sequence of characters or bytes. -/
def lines (feed ret : α) : List α → List (List α)
  | [] => []
  | x :: xs =>
    if x = feed then [] :: lines feed ret xs
    else if x = ret ∧ xs.head? = some feed then lines feed ret xs
    else consLine x (lines feed ret xs)

@[simp] theorem lines_nil (feed ret : α) : lines feed ret [] = [] := rfl

@[simp] theorem lines_feed (feed ret : α) (xs : List α) :
    lines feed ret (feed :: xs) = [] :: lines feed ret xs := by
  simp [lines]

/-- The lines of a text. -/
def textLines (cs : List Char) : List (List Char) :=
  lines '\n' '\r' cs

end TickMachine.Text
