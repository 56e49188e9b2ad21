import StreamBoard.Url.Host

/-!
# Url — addresses, and their one written form

An address is a scheme, an authority, a path, a query and a fragment.  All parts are kept as they
are written, with their percent signs, so that writing (`Url.text`) only puts them together.
-/

namespace StreamBoard

namespace Url

/-! ## 1. Schemes -/

/-- What a scheme says about the form of the rest. -/
inductive Kind
  /-- A known scheme with a host. -/
  | web
  | file
  | other
deriving DecidableEq

namespace Kind

def isKnown : Kind → Bool
  | .other => false
  | _ => true

def ofScheme (scheme : String) : Kind :=
  if ["http", "https", "ws", "wss", "ftp"].contains scheme then .web
  else if scheme = "file" then .file
  else .other

end Kind

/-- The port that a scheme implies. -/
def defaultPort? (scheme : String) : Option UInt16 :=
  if scheme = "http" ∨ scheme = "ws" then some 80
  else if scheme = "https" ∨ scheme = "wss" then some 443
  else if scheme = "ftp" then some 21
  else none

/-! ## 2. Parts -/

structure Authority where
  username : String := ""
  /-- A password is not empty. -/
  password : Option String := none
  host : Host
  /-- A port that the scheme does not imply. -/
  port : Option UInt16 := none
deriving DecidableEq

namespace Authority

def withoutUser (a : Authority) : Authority := { a with username := "", password := none }

/-- The name and the password before the host, with the sign that ends them. -/
def userText (a : Authority) : List Char :=
  match a.password with
  | some password => a.username.toList ++ ':' :: password.toList ++ ['@']
  | none => if a.username.isEmpty then [] else a.username.toList ++ ['@']

/-- The host, and the port where there is one. -/
def hostText (a : Authority) : List Char :=
  a.host.text ++
    match a.port with
    | some port => ':' :: Nat.toDigits 10 port.toNat
    | none => []

def text (a : Authority) : List Char := a.userText ++ a.hostText

end Authority

inductive Path
  /-- Text without parts. -/
  | opaqueText (text : String)
  /-- Each segment stands behind a slash. -/
  | segments (list : List String)
deriving DecidableEq

def Path.text : Path → List Char
  | .opaqueText s => s.toList
  | .segments l => l.flatMap fun s => '/' :: s.toList

end Url

/-! ## 3. Addresses -/

structure Url where
  scheme : String
  authority : Option Url.Authority
  path : Url.Path
  query : Option String := none
  fragment : Option String := none
deriving DecidableEq

namespace Url

/-- Whether somebody is addressed. -/
def hasHost (u : Url) : Bool :=
  match u.authority with
  | some a => !a.host.isEmpty
  | none => false

/-- The authority behind two slashes.  Where there is none, a path that starts with two slashes gets
a dot in front, for else it would read as an authority. -/
def authorityText (u : Url) : List Char :=
  match u.authority with
  | some a => '/' :: '/' :: a.text
  | none =>
    match u.path with
    | .segments ("" :: _ :: _) => ['/', '.']
    | _ => []

/-- A part behind its mark. -/
def markedText (mark : Char) : Option String → List Char
  | some s => mark :: s.toList
  | none => []

def chars (u : Url) : List Char :=
  u.scheme.toList ++ ':' :: u.authorityText ++ u.path.text ++ markedText '?' u.query ++
    markedText '#' u.fragment

def text (u : Url) : String := .ofList u.chars

def effectivePort? (u : Url) : Option UInt16 :=
  match u.authority with
  | some a => a.port <|> defaultPort? u.scheme
  | none => defaultPort? u.scheme

/-- Scheme, host and port, without a slash at the end. -/
def origin (u : Url) : String :=
  .ofList (u.scheme.toList ++ ':' :: '/' :: '/' ::
    match u.authority with
    | some a => a.hostText
    | none => [])

/-- The address with another scheme.  A scheme that is known cannot take the place of one that is
not, nor the other way round; a known one wants a host, and `file` is not changed to.  A port that
the new scheme implies is dropped. -/
def withScheme? (u : Url) (scheme : String) : Option Url :=
  let kind := Kind.ofScheme scheme
  let now := Kind.ofScheme u.scheme
  if kind.isKnown ≠ now.isKnown ∨ kind = .file ∨ (kind.isKnown ∧ !u.hasHost) then none
  else
    some { u with
      scheme
      authority := u.authority.map fun a =>
        if a.port = defaultPort? scheme then { a with port := none } else a }

def withoutUser (u : Url) : Url := { u with authority := u.authority.map Authority.withoutUser }

end Url

end StreamBoard
