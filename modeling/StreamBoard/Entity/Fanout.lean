import StreamBoard.Entity.Schema

/-!
# Fanout — a node that forwards streams to a sink
-/

namespace StreamBoard

open Json

structure Fanout where
  name : String := ""
  sink : String := ""
  extra : Table Json := .empty
deriving DecidableEq

namespace Fanout

def schema : Schema Fanout where
  title := "Fanout"
  fields := [
    .of "name" .string fun v f => { f with name := v },
    .of "sink" .string fun v f => { f with sink := v }]
  required := []
  undeclared := .keep fun k v f => { f with extra := f.extra.insert k v }

def read : Reader Fanout := schema.read {}

def members (f : Fanout) : List (String × Json) :=
  ("name", .string f.name) :: textMember? "sink" f.sink ++ f.extra.entries

def document (f : Fanout) : Json := .object f.members

end Fanout

end StreamBoard
