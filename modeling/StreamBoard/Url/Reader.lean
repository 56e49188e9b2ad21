import StreamBoard.Url.Basic
import StreamBoard.Text.Blank

/-!
# Reader — addresses from text

Reading is lenient: controls and blanks at the ends and line ends anywhere are dropped, a known
scheme may have any number of slashes of either kind before its host, and what may not stand in a
part is percent-encoded.  Only the host and the port can be wrong.
-/

namespace StreamBoard.Url

/-! ## 1. Text and scheme -/

/-- The text without controls and spaces at its ends, and without tabs and line ends. -/
def clean (s : List Char) : List Char :=
  let isEdge (c : Char) : Bool := c ≤ ' '
  (Text.dropEndWhile isEdge (s.dropWhile isEdge)).filter fun c =>
    !(c == '\t' || c == '\n' || c == '\r')

def isSchemeChar (c : Char) : Bool := c.isAlphanum || c == '+' || c == '-' || c == '.'

/-- The scheme in lower case, and what stands behind its colon. -/
def splitScheme? (s : List Char) : Option (String × List Char) :=
  match s with
  | [] => none
  | c :: _ =>
    if c.isAlpha then
      match s.dropWhile isSchemeChar with
      | ':' :: rest => some (.ofList ((s.takeWhile isSchemeChar).map Char.toLower), rest)
      | _ => none
    else none

/-! ## 2. Path, query and fragment -/

/-- A slash; for a known scheme a backslash is one too. -/
def isSlash (known : Bool) (c : Char) : Bool := c == '/' || (known && c == '\\')

def startsTail (c : Char) : Bool := c == '?' || c == '#'

/-- Dots in a segment may be percent-encoded. -/
def plainDots : List Char → List Char
  | '%' :: '2' :: e :: rest =>
    if e = 'e' ∨ e = 'E' then '.' :: plainDots rest else '%' :: '2' :: e :: plainDots rest
  | c :: rest => c :: plainDots rest
  | [] => []

/-- The segment for the place itself. -/
def isDot (s : List Char) : Bool := plainDots s == ['.']

/-- The segment for the place above. -/
def isDoubleDot (s : List Char) : Bool := plainDots s == ['.', '.']

/-- A letter and a colon, or a bar in its place: the drive that a file path starts with. -/
def drive? : List Char → Option (List Char)
  | [c, mark] => if c.isAlpha ∧ (mark = ':' ∨ mark = '|') then some [c, ':'] else none
  | _ => none

/-- What is left after going one place up; a drive of a file path stays. -/
def above (kind : Kind) (done : List (List Char)) : List (List Char) :=
  match kind, done with
  | .file, [s] => if drive? s = some s then done else []
  | _, _ => done.tail

/-- A segment as it is kept behind those that are `done`, which stand in reverse. -/
def kept (kind : Kind) (done : List (List Char)) (s : List Char) : List Char :=
  match kind, done with
  | .file, [] => (drive? s).getD (encode pathMarks s)
  | _, _ => encode pathMarks s

/-- Resolves dots: one dot stays, two go up, and at the end of the path either leaves an empty
segment. -/
def resolve (kind : Kind) (done : List (List Char)) : List (List Char) → List (List Char)
  | [] => done.reverse
  | s :: rest =>
    let next :=
      if isDoubleDot s then
        if rest.isEmpty then [] :: above kind done else above kind done
      else if isDot s then
        if rest.isEmpty then [] :: done else done
      else kept kind done s :: done
    resolve kind next rest

/-- The segments of a path behind its first slash. -/
def readSegments (kind : Kind) (s : List Char) : List (List Char) :=
  let list := resolve kind [] (Text.pieces (isSlash kind.isKnown) s)
  if kind = .file then
    match list.dropWhile List.isEmpty with
    | [] => [[]]
    | l => l
  else list

def readPath (kind : Kind) (s : List Char) : Path :=
  match s with
  | [] => .segments (if kind.isKnown then [""] else [])
  | c :: rest =>
    let behind := if isSlash kind.isKnown c then rest else s
    .segments ((readSegments kind behind).map .ofList)

def readBarePath (kind : Kind) : List Char → Path
  | '/' :: s => .segments ((readSegments kind s).map .ofList)
  | s => .opaqueText (.ofList (encode [] s))

def readQuery? (kind : Kind) : List Char → Option String
  | '?' :: s => some (.ofList (encode (queryMarksOf kind.isKnown) (s.takeWhile (· != '#'))))
  | _ => none

def readFragment? : List Char → Option String
  | '#' :: s => some (.ofList (encode fragmentMarks s))
  | _ => none

/-- The address whose path, query and fragment are `s`. -/
def assemble (scheme : String) (kind : Kind) (authority : Option Authority)
    (path : List Char → Path) (s : List Char) : Url :=
  let tail := s.dropWhile (!startsTail ·)
  { scheme, authority, path := path (s.takeWhile (!startsTail ·)), query := readQuery? kind tail,
    fragment := readFragment? (tail.dropWhile (· != '#')) }

/-! ## 3. Authority -/

/-- What stands before and behind the last sign that ends user information. -/
def splitUser? : List Char → Option (List Char × List Char)
  | [] => none
  | c :: rest =>
    match splitUser? rest with
    | some (user, host) => some (c :: user, host)
    | none => if c = '@' then some ([], rest) else none

/-- What stands before the first colon outside brackets, and the rest from there on. -/
def splitPort (inside : Bool) : List Char → List Char × List Char
  | [] => ([], [])
  | c :: rest =>
    if c = ':' ∧ !inside then ([], c :: rest)
    else
      let inside := if c = '[' then true else if c = ']' then false else inside
      let (host, port) := splitPort inside rest
      (c :: host, port)

/-- The user name and the password of the text before the sign that ends them. -/
def readUser (s : List Char) : String × Option String :=
  let username := String.ofList (encode userInfoMarks (s.takeWhile (· != ':')))
  match s.dropWhile (· != ':') with
  | _ :: c :: password => (username, some (.ofList (encode userInfoMarks (c :: password))))
  | _ => (username, none)

/-- The port behind a host, and what stands behind it: nothing, or a backslash where that is no
slash.  A port that the scheme implies is none. -/
def readPort (scheme : String) : List Char → Except Fault (Option UInt16 × List Char)
  | ':' :: s =>
    let digits := s.takeWhile Char.isDigit
    let rest := s.dropWhile Char.isDigit
    let number := (numberIn? 10 digits).getD 0
    if 65535 < number then .error .invalidPort
    else if rest.head?.any (· != '\\') then .error .invalidPort
    else
      let port := UInt16.ofNat number
      .ok (if digits.isEmpty ∨ defaultPort? scheme = some port then none else some port, rest)
  | _ => .ok (none, [])

/-- The host and the port of an authority. -/
def readHost (kind : Kind) (scheme : String) (s : List Char) :
    Except Fault (Host × Option UInt16 × List Char) := do
  let (hostText, portText) := splitPort false s
  if hostText.isEmpty && (kind.isKnown || !portText.isEmpty) then throw .emptyHost
  let host ← if kind.isKnown then Host.read hostText else Host.readOpaque hostText
  let (port, rest) ← readPort scheme portText
  return (host, port, rest)

/-- An address with an authority; `s` starts behind its two slashes. -/
def readWithAuthority (kind : Kind) (scheme : String) (s : List Char) : Except Fault Url := do
  let isEnd (c : Char) : Bool := isSlash kind.isKnown c || startsTail c
  let whole := s.takeWhile (!isEnd ·)
  let tail := s.dropWhile (!isEnd ·)
  let (user, place) := (splitUser? whole).getD ([], whole)
  if (splitUser? whole).isSome && user.isEmpty && place.isEmpty && !tail.isEmpty then
    throw .emptyHost
  let (username, password) := readUser user
  let (host, port, rest) ← readHost kind scheme place
  if host.isEmpty && (!username.isEmpty || password.isSome) then throw .emptyHost
  let authority : Authority := { username, password, host, port }
  return assemble scheme kind (some authority) (readPath kind) (rest ++ tail)

/-! ## 4. Files -/

/-- The host of a file; the local one is none. -/
def readFileHost (s : List Char) : Except Fault Host :=
  if s.isEmpty then .ok (.name "")
  else do
    let host ← Host.read s
    return if host = .name "localhost" then .name "" else host

/-- The address of a file.  A path that starts with a drive has no host. -/
def readFile (scheme : String) (s : List Char) : Except Fault Url := do
  let build (host : Host) (rest : List Char) : Url :=
    let url := assemble scheme .file (some { host }) (readPath .file) rest
    match url.path with
    | .segments (first :: _) =>
      if (drive? first.toList).isSome then
        { url with authority := some { host := .name "" } }
      else url
    | _ => url
  match s with
  | a :: b :: behind =>
    if isSlash true a && isSlash true b then
      let isEnd (c : Char) : Bool := isSlash true c || startsTail c
      let hostText := behind.takeWhile (!isEnd ·)
      if (drive? hostText).isSome then return build (.name "") behind
      else return build (← readFileHost hostText) (behind.dropWhile (!isEnd ·))
    else return build (.name "") s
  | _ => return build (.name "") s

/-! ## 5. Addresses -/

def ofList (s : List Char) : Except Fault Url :=
  match splitScheme? (clean s) with
  | none => .error .relativeWithoutBase
  | some (scheme, rest) =>
    match Kind.ofScheme scheme with
    | .web => readWithAuthority .web scheme (rest.dropWhile (isSlash true))
    | .file => readFile scheme rest
    | .other =>
      match rest with
      | '/' :: '/' :: s => readWithAuthority .other scheme s
      | _ => .ok (assemble scheme .other none (readBarePath .other) rest)

def parse (s : String) : Except Fault Url := ofList s.toList

end StreamBoard.Url
