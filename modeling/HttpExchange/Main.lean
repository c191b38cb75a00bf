import HttpExchange.Settings

/-!
# The program

Serves one request: it is read from standard input, echoed, and the response goes to standard
output.  The first argument, if any, names a file of settings.
-/

open HttpExchange

/-- All bytes of a stream. -/
partial def readAll (input : IO.FS.Stream) (got : ByteArray) : IO ByteArray := do
  let more ← input.read 4096
  if more.isEmpty then return got else readAll input (got ++ more)

/-- The file of settings that was named. -/
def settingsSource : List String → IO (Option Settings.Source)
  | [] => return none
  | path :: _ => do
    try return some (.text (← IO.FS.readFile path))
    catch _ => return some .unreadable

/-- Serves one request. -/
def main (args : List String) : IO UInt32 := do
  let path := args.headD ""
  match Settings.load (← settingsSource args) (← IO.getEnv "LISTEN") with
  | .error fault =>
    IO.eprintln (fault.message path)
    return 1
  | .ok settings =>
    let bytes ← readAll (← IO.getStdin) ByteArray.empty
    let stream : Stream := { reads := [.data bytes.toList] }
    let (session, stream) := Session.serve settings.server.limits Handler.echo stream
    let output ← IO.getStdout
    output.write (ByteArray.mk stream.written.toArray)
    output.flush
    for notice in session.notices do IO.eprintln notice.message
    return 0
