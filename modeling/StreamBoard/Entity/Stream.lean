import StreamBoard.Entity.Schema

/-!
# Stream — an ingest or relay endpoint
-/

namespace StreamBoard

open Json

/-- An ingest or relay endpoint, identified by its slug. -/
structure Stream where
  slug : String := ""
  format : String := ""
  /-- The complete source address. -/
  source : String := ""
  /-- When it was published, in seconds since 1970. -/
  publishedAt : Option Int64 := none
  extra : Table Json := .empty
deriving DecidableEq

namespace Stream

def schema : Schema Stream where
  title := "Stream"
  fields := [
    .of "slug" .string fun v s => { s with slug := v },
    .of "format" .string fun v s => { s with format := v },
    .of "source" .string fun v s => { s with source := v },
    .of "publishedAt" (.option .int64) fun v s => { s with publishedAt := v }]
  required := []
  undeclared := .keep fun k v s => { s with extra := s.extra.insert k v }

def read : Reader Stream := schema.read {}

/-- The members of the entity's text: declared ones first, absent and empty ones left out. -/
def members (s : Stream) : List (String × Json) :=
  ("slug", .string s.slug) :: textMember? "format" s.format ++ textMember? "source" s.source ++
    member? "publishedAt" (fun t => .number (.integer (.ofInt64 t))) s.publishedAt ++
    s.extra.entries

def document (s : Stream) : Json := .object s.members

end Stream

end StreamBoard
