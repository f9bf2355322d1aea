import ReplyCapture.Number.Digits

namespace ReplyCapture

/-- A place in a text. -/
structure Place where
  line : Nat
  column : Nat
deriving DecidableEq, Repr

/-- A text about another one, and the place of that one it is about. -/
structure Remark where
  text : String
  place : Option Place := none
deriving DecidableEq, Repr

/-- Looks from the end of a text, whose characters come in reverse, for a mark in reverse. What
    stands behind it comes out in front of `behind`. -/
def lastMark? (mark behind : List Char) : List Char → Option (List Char × List Char)
  | [] => none
  | char :: rest =>
    match mark.isPrefixOf? (char :: rest) with
    | some front => some (front.reverse, behind)
    | none => lastMark? mark (char :: behind) rest

/-- What stands in front of the last `mark` in a text, and what stands behind it. -/
def splitLast? (mark text : List Char) : Option (List Char × List Char) :=
  lastMark? mark.reverse [] text.reverse

namespace Place

/-- What stands in front of the line. -/
def lineMark : String := " at line "

/-- What stands between line and column. -/
def columnMark : String := " column "

/-- The place as it ends a remark. -/
def text (place : Place) : String :=
  lineMark ++ toString place.line ++ columnMark ++ toString place.column

/-- The place a text spells behind the first mark, with nothing behind its column. -/
def ofChars? (chars : List Char) : Option Place := do
  let line ← Digits.toWord? (chars.takeWhile Char.isDigit)
  let column ← columnMark.toList.isPrefixOf? (chars.dropWhile Char.isDigit)
  return ⟨line, ← Digits.toWord? column⟩

end Place

namespace Remark

/-- Takes the place off the end of a text that ends with one. Lines count from one, so that a place
    in line 0 is none. -/
def ofString (text : String) : Remark :=
  match splitLast? Place.lineMark.toList text.toList with
  | none => { text }
  | some (front, behind) =>
    match Place.ofChars? behind with
    | none => { text }
    | some place =>
      { text := String.ofList front, place := if place.line = 0 then none else some place }

/-- The remark with its place. -/
def message (remark : Remark) : String :=
  match remark.place with
  | some place => remark.text ++ place.text
  | none => remark.text

end Remark

end ReplyCapture
