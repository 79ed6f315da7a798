/-
  Capacity.

  What is held in memory is bounded: a position is a number of 63 bits, an integer
  has at most so many words, and a text, a list or an integer that would take more
  than the memory there is cannot be made. The bounds are far beyond what a program
  of the language produces on its own; they are met when a repetition, a width or a
  padding asks for too much.
-/
namespace Symantics.Capacity

/-- The greatest position in a text or list, a number of 63 bits. -/
def greatestIndex : Nat := 0x7fffffffffffffff

/-- The greatest count, a number of 64 bits without a sign. -/
def greatestCount : Nat := 0xffffffffffffffff

/-- The most items, of 64 bits each, that there is memory for. -/
def memory : Nat := 0x10000000

/-- Whether `n` is a position, or the negative of one or its successor. -/
def isIndex (n : Int) : Bool := -greatestIndex - 1 ≤ n && n ≤ greatestIndex

/-- The most words that an integer may have. -/
def integerWords : Nat := 2305843009213693945

/-- The number of words, of 30 bits each, of the integer `2^exponent`. -/
def wordsOfPower (exponent : Nat) : Nat := exponent / 30 + (if exponent % 30 = 0 then 1 else 2)

end Symantics.Capacity
