/-! The order of texts: character by character, by code point. -/

namespace ComputedFields.Text

/-- The order of two character lists; a text comes before its continuations. -/
def compareChars : List Char → List Char → Ordering
  | [], [] => .eq
  | [], _ :: _ => .lt
  | _ :: _, [] => .gt
  | a :: as, b :: bs => (Ord.compare a.toNat b.toNat).then (compareChars as bs)

/-- The order of two texts. -/
def compare (a b : String) : Ordering := compareChars a.toList b.toList

end ComputedFields.Text
