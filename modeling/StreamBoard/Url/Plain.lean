import StreamBoard.Text.Percent

/-!
# Plain — which bytes stand for themselves, by the part of an address

In each part the printable ASCII characters stand for themselves but for a few marks; the marks, the
controls and all bytes beyond ASCII stand behind a percent sign.  A percent sign is plain
everywhere, so what is encoded once is not encoded again.
-/

namespace StreamBoard.Url

/-- Printable ASCII without these marks. -/
def isPrintableBut (marks : List Char) (b : UInt8) : Bool :=
  0x20 ≤ b && b ≤ 0x7e && !marks.contains (Char.ofNat b.toNat)

def fragmentMarks : List Char := [' ', '"', '<', '>', '\x60']
def pathMarks : List Char := fragmentMarks ++ ['#', '?', '\x7b', '\x7d']
def userInfoMarks : List Char := pathMarks ++ ['/', ':', ';', '=', '@', '[', '\\', ']', '^', '|']
def queryMarks : List Char := [' ', '"', '#', '<', '>']

/-- The marks of a query; a known scheme takes the apostrophe as well. -/
def queryMarksOf (known : Bool) : List Char := if known then '\'' :: queryMarks else queryMarks

/-- Writes a part of an address. -/
def encode (marks : List Char) (s : List Char) : List Char :=
  Text.percentEncode (isPrintableBut marks) s

end StreamBoard.Url
