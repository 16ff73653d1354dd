import ComputedFields.Text.CodeRange

/-! White space: the Unicode property White_Space, and the two ways a text is rid of it, at its
ends (`trim`) and between its words (`collapse`). -/

namespace ComputedFields.Text

/-- The code points with the property White_Space. -/
def blankRanges : List CodeRange :=
  [(9, 13), (32, 32), (133, 133), (160, 160), (5760, 5760), (8192, 8202), (8232, 8233),
   (8239, 8239), (8287, 8287), (12288, 12288)]

/-- Whether the character is white space. -/
def isBlank (c : Char) : Bool := inRanges blankRanges c.toNat

/-- The characters without white space at the start. -/
def trimStart (cs : List Char) : List Char := cs.dropWhile isBlank

/-- The characters without white space at the end. -/
def trimEnd (cs : List Char) : List Char := (cs.reverse.dropWhile isBlank).reverse

/-- The characters without white space at either end. -/
def trimChars (cs : List Char) : List Char := trimEnd (trimStart cs)

/-- The text without white space at either end. -/
def trim (text : String) : String := String.ofList (trimChars text.toList)

/-- Each run of white space becomes one space; `inRun` tells whether a run has begun. -/
def collapse (inRun : Bool) : List Char → List Char
  | [] => []
  | c :: cs =>
    if isBlank c then
      if inRun then collapse true cs else ' ' :: collapse true cs
    else c :: collapse false cs

end ComputedFields.Text
