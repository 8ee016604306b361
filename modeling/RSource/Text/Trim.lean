import RSource.Unicode.Range

/-! Texts without given characters at their ends. -/

namespace RSource.Text

/-- The characters from the first that does not satisfy `drop` on. -/
def trimStartChars (drop : Char → Bool) (cs : List Char) : List Char := cs.dropWhile drop

/-- The characters up to the last that does not satisfy `drop`. -/
def trimEndChars (drop : Char → Bool) (cs : List Char) : List Char :=
  (cs.reverse.dropWhile drop).reverse

def trimStart (drop : Char → Bool) (s : String) : String :=
  String.ofList (trimStartChars drop s.toList)

def trimEnd (drop : Char → Bool) (s : String) : String :=
  String.ofList (trimEndChars drop s.toList)

/-- The text without the characters that satisfy `drop` at both ends. -/
def trim (drop : Char → Bool) (s : String) : String :=
  String.ofList (trimEndChars drop (trimStartChars drop s.toList))

/-- The text without white space at both ends. -/
def trimBlank (s : String) : String := trim Unicode.isBlank s

/-- What follows `start` in the characters, if they begin with it. -/
def after? (start : List Char) (cs : List Char) : Option (List Char) :=
  if start.isPrefixOf cs then some (cs.drop start.length) else none

end RSource.Text
