import StreamBoard.Board.State

/-!
# View — what the screens ask a board for
-/

namespace StreamBoard

namespace Board

/-- The connection, as it is named beside the title. -/
def connectionLabel (b : Board) : String := if b.connected then "connected" else "disconnected"

def settingsFor (b : Board) (slug : String) : Option StreamSettings := b.streamSettings.find? slug

/-- The transcoder that a stream is assigned to, if it is known. -/
def transcoderFor (b : Board) (slug : String) : Option Transcoder :=
  (b.streamTranscoders.find? slug).bind b.transcoders.find?

/-- A stream and the transcoder that works on it. -/
structure Row where
  stream : Stream
  transcoder : Option Transcoder
deriving DecidableEq

/-- All streams in the order of their keys, each with its transcoder. -/
def rows (b : Board) : List Row :=
  b.streams.entries.map fun e => ⟨e.2, b.transcoderFor e.1⟩

/-- How many streams a transcoder works on, and its capacity. -/
def transcoderLoad (b : Board) (name : String) : Option (Nat × Int64) :=
  (b.transcoders.find? name).map fun t => (t.streams.length, t.capacity)

/-! ## The runner's summary -/

/-- The figures that the runner reports after each change. -/
structure Summary where
  connection : String
  streams : Nat
  /-- Streams whose transcoder is known. -/
  assigned : Nat
  transcoders : Nat
  /-- The free slots of all transcoders, added up in 64-bit integers. -/
  freeSlots : Int64
  fanouts : Nat
  settings : Nat
deriving DecidableEq

def Summary.text (s : Summary) : String :=
  "state updated connection=" ++ s.connection ++ " streams=" ++ toString s.streams ++
    " assigned=" ++ toString s.assigned ++ " transcoders=" ++ toString s.transcoders ++
    " free_slots=" ++ toString s.freeSlots.toInt ++ " fanouts=" ++ toString s.fanouts ++
    " settings=" ++ toString s.settings

def summary (b : Board) : Summary where
  connection := b.connectionLabel
  streams := b.rows.length
  assigned := (b.rows.filter fun r => r.transcoder.isSome).length
  transcoders := b.transcoders.size
  freeSlots := (b.transcoders.values.map Transcoder.freeSlots).foldl (· + ·) 0
  fanouts := b.fanouts.size
  settings := b.streamSettings.size

end Board

end StreamBoard
