import StreamBoard.Text.Percent

/-!
# Route — the paths of the backend

A stream's settings live under its slug.  The slug is one path segment: every byte but letters,
digits and `-._~` is percent-encoded, so no slug can end the segment, and different slugs have
different paths.  The slugs `.` and `..` stay as they are, and an address resolves such segments.
-/

namespace StreamBoard.Rest

def settingsPath : String := "/stream/settings"

def streamSettingsPath (slug : String) : String :=
  "/stream/" ++ .ofList (Text.percentEncode Text.isUnreserved slug.toList) ++ "/settings"

end StreamBoard.Rest
