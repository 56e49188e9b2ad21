/-!
# Utf8 — text from bytes that may be broken

Each stretch of bytes that begins a character and breaks off, and each byte that begins none, is
read as one replacement character.  Bytes are always taken as UTF-8.  That is a limit of this
library and no rule of replies: a body may say by a byte order mark of UTF-16 that it is written in
that encoding, and such marks are not looked for here.
-/

namespace StreamBoard.Text

/-- The character for bytes that are none. -/
def replacement : Char := '\ufffd'

/-- A character of which some bytes were read. -/
structure Unfinished where
  value : Nat
  /-- How many bytes are missing, less one. -/
  missing : Nat
  /-- The least and the greatest byte that may come next. -/
  low : Nat
  high : Nat
deriving DecidableEq

namespace Unfinished

/-- The character that a first byte begins; nothing for a byte that begins none. -/
def ofLead? (b : Nat) : Option Unfinished :=
  if 0xc2 ≤ b ∧ b ≤ 0xdf then some ⟨b - 0xc0, 0, 0x80, 0xbf⟩
  else if b = 0xe0 then some ⟨0, 1, 0xa0, 0xbf⟩
  else if b = 0xed then some ⟨0xd, 1, 0x80, 0x9f⟩
  else if 0xe1 ≤ b ∧ b ≤ 0xef then some ⟨b - 0xe0, 1, 0x80, 0xbf⟩
  else if b = 0xf0 then some ⟨0, 2, 0x90, 0xbf⟩
  else if b = 0xf4 then some ⟨4, 2, 0x80, 0x8f⟩
  else if 0xf1 ≤ b ∧ b ≤ 0xf3 then some ⟨b - 0xf0, 2, 0x80, 0xbf⟩
  else none

end Unfinished

/-- What a byte at the start of a character gives, and what it begins. -/
def startChar (b : Nat) : List Char × Option Unfinished :=
  if b < 0x80 then ([Char.ofNat b], none)
  else match Unfinished.ofLead? b with
    | some p => ([], some p)
    | none => ([replacement], none)

/-- Reads bytes behind those of `pending`. -/
def utf8DecodeFrom (pending : Option Unfinished) : List UInt8 → List Char
  | [] => if pending.isSome then [replacement] else []
  | byte :: rest =>
    let b := byte.toNat
    match pending with
    | none =>
      let (chars, next) := startChar b
      chars ++ utf8DecodeFrom next rest
    | some p =>
      if p.low ≤ b ∧ b ≤ p.high then
        let value := p.value * 64 + (b - 0x80)
        match p.missing with
        | 0 => Char.ofNat value :: utf8DecodeFrom none rest
        | n + 1 => utf8DecodeFrom (some ⟨value, n, 0x80, 0xbf⟩) rest
      else
        let (chars, next) := startChar b
        replacement :: (chars ++ utf8DecodeFrom next rest)

/-- Reads bytes as text in UTF-8; its byte order mark in front does not count.  Those of UTF-16 are
not recognised, which is a limit of this library: their bytes begin no character. -/
def utf8Decode (bytes : List UInt8) : List Char :=
  match bytes with
  | 0xef :: 0xbb :: 0xbf :: rest => utf8DecodeFrom none rest
  | _ => utf8DecodeFrom none bytes

end StreamBoard.Text
