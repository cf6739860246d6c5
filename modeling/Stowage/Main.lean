import Std.Async.DNS
import Std.Async.TCP
import Std.Internal.UV.System
import Stowage.Chunk.Host
import Stowage.Cli.Outcome
import Stowage.Http.Wire
/-!
# Stowage — the program

The world outside: files, random bytes, connections, the standard streams and the environment. A
program runs here call by call; what it does is decided elsewhere.
-/

namespace Stowage.Outside

open Std.Net
open Std.Async.TCP (Socket.Client Socket.Server)

/-! ## Files -/

/-- The number and the text of an error. Some numbers are negated on their way. -/
def codeOf : IO.Error → Nat × String
  | .alreadyExists _ code text | .invalidArgument _ code text | .permissionDenied _ code text
  | .resourceExhausted _ code text | .inappropriateType _ code text | .noSuchThing _ code text
  | .noFileOrDirectory _ code text | .interrupted _ code text | .otherError code text
  | .resourceBusy code text | .resourceVanished code text | .unsupportedOperation code text
  | .hardwareFault code text | .unsatisfiedConstraints code text | .illegalOperation code text
  | .protocolError code text | .timeExpired code text => (code.toNat, text)
  | e => (0, toString e)

def systemError (e : IO.Error) : Disk.Error :=
  let (code, text) := codeOf e
  Disk.Error.ofCode (if code < 1 <<< 31 then code else (1 <<< 32) - code) text.capitalize

def onFiles {α : Type} (action : IO α) : IO (Option (Except Disk.Error α)) := do
  try
    return some (.ok (← action))
  catch e => return some (.error (systemError e))

def change : Disk.Change → IO Unit
  | .createDirs path => unless path.isEmpty do IO.FS.createDirAll path
  | .write path content => IO.FS.writeBinFile path ⟨content.toArray⟩
  | .rename source target => IO.FS.rename source target
  | .remove path => do
    if ← (← IO.FS.realPath path).isDir then throw (.inappropriateType none 21 "Is a directory")
    IO.FS.removeFile path

/-! ## Connections -/

/-- The largest piece that is received at once. -/
def pieceSize : UInt64 := 65536

/-- Receives pieces until a message has arrived. `read` is told whether the connection is closed. -/
partial def receive {α : Type} (client : Socket.Client) (read : Bytes → Bool → Http.Wire.Arrival α)
    (received : Bytes) : IO (Option α) := do
  match ← (client.recv? pieceSize).block with
  | none =>
    match read received true with
    | .whole message => return some message
    | _ => return none
  | some piece =>
    let received := received ++ piece.toList
    match read received false with
    | .whole message => return some message
    | .garbled => return none
    | .begun => receive client read received

def addressOf (machine : String) (port : Nat) : IO SocketAddress := do
  let bare := (machine.dropWhile (· == '[')).toString.takeWhile (· != ']')
  match IPv4Addr.ofString machine, IPv6Addr.ofString bare.toString with
  | some address, _ => return .v4 ⟨address, port.toUInt16⟩
  | none, some address => return .v6 ⟨address, port.toUInt16⟩
  | none, none =>
    match (← (Std.Async.DNS.getAddrInfo machine "" (some .ipv4)).block).toList with
    | .v4 address :: _ => return .v4 ⟨address, port.toUInt16⟩
    | .v6 address :: _ => return .v6 ⟨address, port.toUInt16⟩
    | [] => throw (IO.userError s!"no address of {machine}")

def connect (place : Http.Place) : IO (Except Http.Fault Socket.Client) := do
  if place.encrypted then return .error (.unreachable "encrypted connections cannot be made")
  try
    let client ← Socket.Client.mk
    (client.connect (← addressOf place.machine place.port)).block
    return .ok client
  catch e => return .error (.unreachable s!"tcp connect error: {(systemError e).message}")

def exchange (place : Http.Place) (request : Http.Request) :
    IO (Except Http.Fault Http.Response) := do
  match ← connect place with
  | .error why => return .error why
  | .ok client =>
    try
      (client.send ⟨(Http.Wire.ofRequest place request).toArray⟩).block
      match ← receive client Http.Wire.response [] with
      | some response => return .ok response
      | none => return .error .hungUp
    catch _ => return .error .hungUp

/-- The result of an action with the time it took, unless that is longer than the patience. -/
def within {α : Type} (patience : Nat) (action : IO α) : IO (Timed α) := do
  let start ← IO.monoNanosNow
  let task ← IO.asTask action
  repeat
    let elapsed := (← IO.monoNanosNow) - start
    if ← IO.hasFinished task then
      return some (elapsed, ← IO.ofExcept task.get)
    if patience < elapsed then return none
    IO.sleep 1
  return none

/-! ## Hosting -/

/-- Answers the one request of a connection. -/
def attend (store : IO.Ref Chunk.Store) (client : Socket.Client) : IO Unit := do
  let response ← match ← receive client (fun received _ => Http.Wire.request received) [] with
    | some request => store.modifyGet fun s => Chunk.Host.answer s request
    | none => pure ⟨400, [("content-length", utf8 "0")], some []⟩
  (client.send ⟨(Http.Wire.ofResponse response).toArray⟩).block
  client.shutdown.block

/-- Runs a chunk host on this machine. The result says why it stopped. -/
def listen (port maximum : Nat) : IO String := do
  try
    let server ← Socket.Server.mk
    server.bind (.v4 ⟨.ofParts 127 0 0 1, port.toUInt16⟩)
    server.listen 128
    let store ← IO.mkRef (Chunk.Store.empty maximum)
    repeat
      let client ← server.accept.block
      discard <| IO.asTask (attend store client)
    return ""
  catch e => return (systemError e).message

/-! ## Programs -/

/-- Why a call to a chunk host other than over HTTP is not answered. -/
def noHost : Chunk.CallError := .other "no chunk host"

/-- All of the standard input. -/
partial def inputFrom (stream : IO.FS.Stream) (read : ByteArray) : IO Bytes := do
  let piece ← stream.read 65536
  if piece.isEmpty then return read.toList else inputFrom stream (read ++ piece)

def answer : (c : Call) → IO c.Reply
  | .draw => return (← IO.getRandomBytes 16).toList
  | .store _ _ => return some (0, .error noHost)
  | .get _ _ => return some (0, .error noHost)
  | .send place request patience => within patience (exchange place request)
  | .input => do inputFrom (← IO.getStdin) .empty
  | .read path => onFiles do return (← IO.FS.readBinFile path).toList
  | .change step => onFiles (change step)
  | .listen port maximum => listen port maximum

def run {α : Type} : Program α → IO α
  | .done a => return a
  | .call c next => do run (next (← answer c))

end Stowage.Outside

open Stowage

/-- Runs the command that the arguments spell. -/
def main (arguments : List String) : IO UInt32 := do
  let env ← Std.Internal.UV.System.osEnviron
  let outcome ← Outside.run (Cli.run env.toList arguments)
  let stdout ← IO.getStdout
  stdout.write ⟨outcome.output.toArray⟩
  stdout.flush
  (← IO.getStderr).putStr outcome.complaint
  return outcome.code.toUInt32
