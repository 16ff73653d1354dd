/-! Occurrences of one text in another, from left to right and without overlap. Positions count
characters from zero. -/

namespace ComputedFields.Text

/-- Whether `cs` begins with `needle`. -/
def startsWith (needle cs : List Char) : Bool := needle.isPrefixOf cs

/-- The first position at which `needle` occurs. -/
def position? (needle : List Char) : List Char → Option Nat
  | [] => if needle.isEmpty then some 0 else none
  | c :: cs => if startsWith needle (c :: cs) then some 0 else (position? needle cs).map (· + 1)

/-- Every occurrence of `old`, which is not empty, becomes `new`. The first `skip` characters
belong to the occurrence just replaced. -/
def replaceAll (old new : List Char) (skip : Nat) : List Char → List Char
  | [] => []
  | c :: cs =>
    match skip with
    | skip + 1 => replaceAll old new skip cs
    | 0 =>
      if startsWith old (c :: cs) then new ++ replaceAll old new (old.length - 1) cs
      else c :: replaceAll old new 0 cs

/-- Only the occurrence of `old` with `earlier` occurrences before it becomes `new`. The first
`skip` characters belong to the occurrence just passed. -/
def replaceNth (old new : List Char) (earlier skip : Nat) : List Char → List Char
  | [] => []
  | c :: cs =>
    match skip with
    | skip + 1 => c :: replaceNth old new earlier skip cs
    | 0 =>
      if startsWith old (c :: cs) then
        match earlier with
        | 0 => new ++ (c :: cs).drop old.length
        | earlier + 1 => c :: replaceNth old new earlier (old.length - 1) cs
      else c :: replaceNth old new earlier 0 cs

end ComputedFields.Text
