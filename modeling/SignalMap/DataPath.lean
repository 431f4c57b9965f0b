import SignalMap.Text.Blank
import SignalMap.Text.Cut

/-!
Data paths. A path is a sequence of segments with slashes between them; blank
segments and the blanks around a segment carry no meaning. A segment of digits
is an index, and the placeholder stands for an index that is given elsewhere.
-/

namespace SignalMap.DataPath

def placeholder : String := "#"

def split (path : String) : List String :=
  (((Text.splitOn '/' path.toList).map Text.trimChars).filter fun cs => !cs.isEmpty).map
    String.ofList

def join (segments : List String) : String :=
  String.ofList (List.intercalate ['/'] (segments.map String.toList))

def isPlaceholder (segment : String) : Bool :=
  segment == placeholder

def isIndex (segment : String) : Bool :=
  !segment.toList.isEmpty && segment.toList.all Char.isDigit

def keySegment (segment : String) : String :=
  if isIndex segment then placeholder else segment

/-- The segments of a path without the name of its schema, which may stand in
front of others. -/
def dropSchema (schema : String) : List String → List String
  | first :: next :: rest => if first = schema then next :: rest else first :: next :: rest
  | segments => segments

def normalizeKey (schema path : String) : String :=
  join ((dropSchema schema (split path)).map keySegment)

end SignalMap.DataPath
