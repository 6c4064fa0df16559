/-! # Symbols

The operators and delimiters of the declaration language.
-/

namespace TickMachine

/-- An operator or delimiter. -/
inductive Symbol
  | assign | notEqual | lessEqual | greaterEqual | arrow
  | plus | minus | star | slash | percent | equal | less | greater
  | leftParen | rightParen | leftBracket | rightBracket
  | comma | semicolon | colon | dot | ampersand | pipe | caret | bang | atSign
deriving DecidableEq, Repr

namespace Symbol

/-- All symbols, those of two characters first. -/
def all : List Symbol :=
  [.assign, .notEqual, .lessEqual, .greaterEqual, .arrow, .plus, .minus, .star, .slash, .percent,
   .equal, .less, .greater, .leftParen, .rightParen, .leftBracket, .rightBracket, .comma,
   .semicolon, .colon, .dot, .ampersand, .pipe, .caret, .bang, .atSign]

def spelling : Symbol → List Char
  | assign => [':', '=']
  | notEqual => ['<', '>']
  | lessEqual => ['<', '=']
  | greaterEqual => ['>', '=']
  | arrow => ['-', '>']
  | plus => ['+']
  | minus => ['-']
  | star => ['*']
  | slash => ['/']
  | percent => ['%']
  | equal => ['=']
  | less => ['<']
  | greater => ['>']
  | leftParen => ['(']
  | rightParen => [')']
  | leftBracket => ['[']
  | rightBracket => [']']
  | comma => [',']
  | semicolon => [';']
  | colon => [':']
  | dot => ['.']
  | ampersand => ['&']
  | pipe => ['|']
  | caret => ['^']
  | bang => ['!']
  | atSign => ['@']

/-- The longest symbol at the front of a text. -/
def atFront? (cs : List Char) : Option Symbol :=
  all.find? fun s => s.spelling.isPrefixOf cs

theorem mem_all (s : Symbol) : s ∈ all := by
  cases s <;> decide

theorem spelling_ne_nil (s : Symbol) : s.spelling ≠ [] := by
  cases s <;> simp [spelling]

end Symbol

end TickMachine
