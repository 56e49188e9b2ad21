import StreamBoard.Url.Address
import StreamBoard.Url.Fault
import StreamBoard.Url.Plain

/-!
# Host — who is addressed

The host of a known scheme is a name in lower case or a numeric address, whatever it is written as:
percent signs are resolved first, and a name whose last part is a number has to be an IPv4 address.
The host of any other scheme is kept as it is.  Of a known scheme, names beyond ASCII are not
accepted.  That is a limit of this library and no rule of addresses, where such a name, also one
written with percent signs, stands for its ASCII form.
-/

namespace StreamBoard.Url

inductive Host
  | name (text : String)
  | ipv4 (address : Ipv4)
  | ipv6 (address : Ipv6)
deriving DecidableEq

namespace Host

def text : Host → List Char
  | .name s => s.toList
  | .ipv4 a => a.text
  | .ipv6 a => '[' :: a.text ++ [']']

def isEmpty : Host → Bool
  | .name s => s.isEmpty
  | _ => false

/-- What no host may have. -/
def forbiddenMarks : List Char :=
  ['\x00', '\t', '\n', '\r', ' ', '#', '/', ':', '<', '>', '?', '@', '[', '\\', ']', '^', '|']

/-- What a name may not have here: beside these all controls and the percent sign, and the bytes
beyond ASCII, which addresses allow. -/
def isForbiddenInName (b : UInt8) : Bool :=
  b ≤ 0x20 || 0x7f ≤ b || b == 0x25 || forbiddenMarks.contains (Char.ofNat b.toNat)

/-- An IPv6 address between brackets; `s` starts behind the opening one. -/
def readBracketed (s : List Char) : Except Fault Host :=
  if s.getLast? = some ']' then
    match Ipv6.read? s.dropLast with
    | some a => .ok (.ipv6 a)
    | none => .error .invalidIpv6
  else .error .invalidIpv6

/-- A name or an IPv4 address of a known scheme.  A name beyond ASCII is refused, whether it stands
there as it is or behind percent signs: its ASCII form is not computed, which is a limit of this
library and no rule of addresses. -/
def readName (s : List Char) : Except Fault Host :=
  let bytes := Text.percentDecode s
  if bytes.any isForbiddenInName then .error .invalidDomainName
  else
    let name := bytes.map fun b => (Char.ofNat b.toNat).toLower
    if Ipv4.endsInNumber name then
      match Ipv4.read? name with
      | some a => .ok (.ipv4 a)
      | none => .error .invalidIpv4
    else .ok (.name (.ofList name))

def read : List Char → Except Fault Host
  | '[' :: s => readBracketed s
  | s => readName s

def readOpaque : List Char → Except Fault Host
  | '[' :: s => readBracketed s
  | s =>
    if s.any forbiddenMarks.contains then .error .invalidHostCharacter
    else .ok (.name (.ofList (encode [] s)))

end Host

end StreamBoard.Url
