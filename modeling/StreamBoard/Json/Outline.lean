import StreamBoard.Json.Lexeme

/-!
# Outline — the shape of a JSON text, faults included

An outline is what a text looks like before anyone asks for a value: brackets matched as far as they
match, every scalar a lexeme, and at the end of every list of items or members a note of how the
list ends.  All readers walk an outline in the order of the text, so of several faults each reader
reports the first one that it meets, whether it is one of form or of type.

`Outline.ofText` builds the outline of a text, `Outline.ofValue` that of a value; a reader of
outlines reads from either.
-/

namespace StreamBoard.Json

/-- How the items of an array or the members of an object end. -/
inductive Finish
  /-- The closing bracket; this is unread behind it. -/
  | closed (next : List Char)
  /-- The outline belongs to a value, not to a text. -/
  | whole
  /-- The text ends where a separator or the closing bracket has to stand. -/
  | cut
  /-- Something else stands there. -/
  | unseparated (rest : List Char)
  /-- A closing bracket stands behind a comma. -/
  | trailingComma (rest : List Char)
  /-- The text ends behind a comma. -/
  | cutAfterComma
  /-- A key does not start with a quote. -/
  | noKey (rest : List Char)
  /-- An item or member in front cannot be skipped. -/
  | broken

mutual

inductive Outline
  | scalar (lexeme : Lexeme Scalar)
  /-- An array; `start` is unread in front of its bracket. -/
  | array (start : List Char) (items : Items)
  | object (start : List Char) (members : Members)

inductive Items
  | finish (how : Finish)
  | item (head : Outline) (rest : Items)

inductive Members
  | finish (how : Finish)
  | member (key : Lexeme String) (value : Outline) (rest : Members)

end

/-! ## 1. Ends -/

/-- What is unread behind a closing bracket. -/
def Finish.rest? : Finish → Option (List Char)
  | .closed next => some next
  | .whole => some []
  | _ => none

def Items.ending : Items → Finish
  | .finish how => how
  | .item _ rest => rest.ending

def Members.ending : Members → Finish
  | .finish how => how
  | .member _ _ rest => rest.ending

namespace Outline

/-- What is unread behind an outline that can be skipped. -/
def rest? : Outline → Option (List Char)
  | .scalar l => l.rest?
  | .array _ items => items.ending.rest?
  | .object _ members => members.ending.rest?

/-- What is unread behind an outline; nothing, where it cannot be skipped. -/
def next (o : Outline) : List Char := o.rest?.getD []

/-- What is unread in front of an outline. -/
def start : Outline → List Char
  | .scalar l => l.start
  | .array start _ => start
  | .object start _ => start

end Outline

/-! ## 2. Skipping -/

mutual

/-- Why an outline cannot be skipped, if it cannot.  Behind a comma a skipped list reports what it
misses there, not the comma. -/
def Outline.skipFault : Outline → Option Fault
  | .scalar l => l.skipFault
  | .array _ items => items.skipFault
  | .object _ members => members.skipFault

def Items.skipFault : Items → Option Fault
  | .finish (.closed _) | .finish .whole => none
  | .finish .cut => some (.at .cutList [])
  | .finish (.unseparated rest) => some (.before .expectedCommaOrBracket rest)
  | .finish (.trailingComma rest) => some (.before .expectedValue rest)
  | .finish .cutAfterComma => some (.at .cutValue [])
  | .finish (.noKey rest) => some (.before .keyMustBeString rest)
  | .finish .broken => some (.at .cutValue [])
  | .item o rest => o.skipFault.or rest.skipFault

def Members.skipFault : Members → Option Fault
  | .finish (.closed _) | .finish .whole => none
  | .finish .cut => some (.at .cutObject [])
  | .finish (.unseparated rest) => some (.before .expectedCommaOrBrace rest)
  | .finish (.trailingComma rest) => some (.before .keyMustBeString rest)
  | .finish .cutAfterComma => some (.at .cutObject [])
  | .finish (.noKey rest) => some (.before .keyMustBeString rest)
  | .finish .broken => some (.at .cutValue [])
  | .member key value rest => key.skipFault.or (value.skipFault.or rest.skipFault)

end

/-! ## 3. The outline of a text -/

/-- Brackets that may be open at once; the next one is a fault for every reader but skipping. -/
def depthLimit : Nat := 127

/-- An array or object one bracket too deep: it can be skipped, but it has no value. -/
def tooDeep (start : List Char) (skipFault : Option Fault) (next : Option (List Char)) : Outline :=
  .scalar ⟨start, .error (.before .recursionLimit start), skipFault, next.getD []⟩

/-- Puts an item in front of those that `more` finds behind it. -/
def itemThen (o : Outline) (more : List Char → Items) : Items :=
  match o.rest? with
  | none => .item o (.finish .broken)
  | some rest => .item o (more rest)

/-- The value behind a key: what `value` finds behind the colon, if there is one. -/
def valueBehind (key : Lexeme String) (value : List Char → Outline) : Outline :=
  match skipBlanks key.next with
  | ':' :: rest => value rest
  | [] => .scalar (.broken [] (.at .cutObject []))
  | s => .scalar (.broken s (.before .expectedColon s))

/-- Puts a member in front of those that `more` finds behind it. -/
def memberThen (key : Lexeme String) (value : List Char → Outline) (more : List Char → Members) :
    Members :=
  match key.rest? with
  | none => .member key (.scalar (.broken [] (.at .cutObject []))) (.finish .broken)
  | some _ =>
    let o := valueBehind key value
    match o.rest? with
    | none => .member key o (.finish .broken)
    | some rest => .member key o (more rest)

mutual

/-- The outline of the value at the head of a text.  The first argument bounds the length of the
text, the second is the number of brackets that may still be opened. -/
def outline : Nat → Nat → List Char → Outline
  | 0, _, _ => .scalar (.broken [] (.at .cutValue []))
  | bound + 1, depth, s =>
    match skipBlanks s with
    | '[' :: r =>
      let start := '[' :: r
      let items :=
        match skipBlanks r with
        | ']' :: next => .finish (.closed next)
        | [] => .finish .cut
        | s => itemThen (outline bound (depth - 1) s) (moreItems bound (depth - 1))
      if depth = 0 then tooDeep start items.skipFault items.ending.rest? else .array start items
    | '\x7b' :: r =>
      let start := '\x7b' :: r
      let members :=
        match skipBlanks r with
        | '\x7d' :: next => .finish (.closed next)
        | [] => .finish .cut
        | '"' :: s =>
          memberThen (.ofString ('"' :: s) s) (outline bound (depth - 1))
            (moreMembers bound (depth - 1))
        | s => .finish (.noKey s)
      if depth = 0 then tooDeep start members.skipFault members.ending.rest?
      else .object start members
    | s => .scalar (.scalar s)

/-- The items of an array from behind one of them. -/
def moreItems : Nat → Nat → List Char → Items
  | 0, _, _ => .finish .cut
  | bound + 1, depth, s =>
    match skipBlanks s with
    | [] => .finish .cut
    | ']' :: next => .finish (.closed next)
    | ',' :: r =>
      match skipBlanks r with
      | [] => .finish .cutAfterComma
      | ']' :: next => .finish (.trailingComma (']' :: next))
      | s => itemThen (outline bound depth s) (moreItems bound depth)
    | s => .finish (.unseparated s)

/-- The members of an object from behind one of them. -/
def moreMembers : Nat → Nat → List Char → Members
  | 0, _, _ => .finish .cut
  | bound + 1, depth, s =>
    match skipBlanks s with
    | [] => .finish .cut
    | '\x7d' :: next => .finish (.closed next)
    | ',' :: r =>
      match skipBlanks r with
      | [] => .finish .cutAfterComma
      | '\x7d' :: next => .finish (.trailingComma ('\x7d' :: next))
      | '"' :: s =>
        memberThen (.ofString ('"' :: s) s) (outline bound depth) (moreMembers bound depth)
      | s => .finish (.noKey s)
    | s => .finish (.unseparated s)

end

/-- The outline of the value at the head of a text. -/
def Outline.ofText (s : List Char) : Outline := outline s.length depthLimit s

/-! ## 4. The outline of a value -/

/-- The outline of a scalar that stands in no text. -/
def Outline.ofScalar (s : Scalar) : Outline := .scalar ⟨[], .ok s, none, []⟩

mutual

/-- The outline of a value; nothing is unread anywhere in it. -/
def Outline.ofValue : Json → Outline
  | .null => .ofScalar .null
  | .bool b => .ofScalar (.bool b)
  | .number n => .ofScalar (.number n)
  | .string s => .ofScalar (.string s)
  | .array items => .array [] (Items.ofValues items)
  | .object members => .object [] (Members.ofValues members)

def Items.ofValues : List Json → Items
  | [] => .finish .whole
  | v :: vs => .item (Outline.ofValue v) (Items.ofValues vs)

def Members.ofValues : List (String × Json) → Members
  | [] => .finish .whole
  | (k, v) :: vs => .member ⟨[], .ok k, none, []⟩ (Outline.ofValue v) (Members.ofValues vs)

end

end StreamBoard.Json
