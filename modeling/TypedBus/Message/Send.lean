import TypedBus.Loopback
import TypedBus.Message.Calls

/-!
# Sending messages

A message that is sent is sealed, and its stream goes to the transport. Nothing of an invalid
message goes there, nor of one that cannot be sealed.

Model of `Message.send`.
-/

namespace TypedBus

namespace Message

/-- Send a message, which is sealed by it. An invalid one is never sent; its failure is raised
instead. -/
def send (m : Message) (l : Loopback) : Except Fault Unit × Message × Loopback :=
  match m.check.bind fun _ => m.rewind with
  | .error f => (.error f, m, l)
  | .ok m =>
    let (answer, stream, l) := l.send m.stream
    (answer, { m with stream }, l)

end Message

end TypedBus
