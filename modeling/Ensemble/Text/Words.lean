/-!
# Words of a line

A line is cut into words at white space, which is the property `White_Space` of the Unicode
standard.
-/

namespace Ensemble.Text

/-- The characters with the property `White_Space`. -/
def whiteSpace : List Char :=
  ['\x09', '\x0a', '\x0b', '\x0c', '\x0d', ' ', '\u0085', '\u00a0', '\u1680', '\u2000', '\u2001',
   '\u2002', '\u2003', '\u2004', '\u2005', '\u2006', '\u2007', '\u2008', '\u2009', '\u200a',
   '\u2028', '\u2029', '\u202f', '\u205f', '\u3000']

/-- Whether a character is white space. -/
def isWhiteSpace (c : Char) : Bool := whiteSpace.contains c

/-- Cut off the front of a text up to the next white space. -/
def takeWord : List Char → List Char × List Char
  | [] => ([], [])
  | c :: rest =>
    if isWhiteSpace c then ([], rest)
    else ((c :: (takeWord rest).1), (takeWord rest).2)

theorem length_takeWord_le (text : List Char) : (takeWord text).2.length ≤ text.length := by
  induction text with
  | nil => simp [takeWord]
  | cons c rest ih =>
    simp only [takeWord]
    split
    · simp
    · simp only [List.length_cons]
      omega

/-- The words of a text, none of them empty. -/
def words : List Char → List (List Char)
  | [] => []
  | c :: rest =>
    if isWhiteSpace c then words rest
    else (c :: (takeWord rest).1) :: words (takeWord rest).2
termination_by text => text.length
decreasing_by
  · simp
  · have := length_takeWord_le rest
    simp
    omega

/-- Lower case for the letters of ASCII; all other characters stay. -/
def asciiLower (text : List Char) : List Char := text.map Char.toLower

end Ensemble.Text
