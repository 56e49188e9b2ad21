import StreamBoard.Dashboard
import StreamBoard.Board.View

/-!
# Main — the command line

Takes the base address from the first argument or the environment, then reads pushed frames from
standard input, one a line, and writes a summary whenever the board changes.
-/

namespace StreamBoard

/-- The environment, as far as it is read. -/
def environment : IO (List (String × String)) := do
  let names := [Config.urlVariable, Config.delayVariable, Config.attemptsVariable,
    Config.backoffVariable, Config.maxDelayVariable]
  names.filterMapM fun name => do
    return (← IO.getEnv name).map fun value => (name, value)

/-- Takes frames as long as there are any. -/
partial def follow (input : IO.FS.Stream) (d : Dashboard) : IO Unit := do
  let line ← input.getLine
  unless line.isEmpty do
    let frame := (line.dropEndWhile (· == '\n')).toString
    let (session, _) := d.session.command (.event (.message frame))
    let (d, progress) := { d with session }.settle
    if progress.replaced then IO.println d.board.summary.text
    follow input d

end StreamBoard

open StreamBoard in
def main (args : List String) : IO UInt32 := do
  let values ← environment
  match Config.ofCommandLine (fun name => values.lookup name) args >>= (Dashboard.start · 0) with
  | .error failure =>
    IO.eprintln ("Error: " ++ failure.message)
    return 1
  | .ok dashboard =>
    follow (← IO.getStdin) dashboard
    return 0
