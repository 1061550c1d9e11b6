import TypedBus.Stream.Packed

/-!
# Loopback transports

A loopback delivers every stream that is sent to its own queue. What is sent is packed and what is
received is unpacked again, so that the two share nothing. The sender and a serial number are
written into the envelope of a stream that is sent.

Whoever receives says how long to wait, in seconds. The time is rounded up to whole nanoseconds
before anything else is asked of it (`Timeout.nanoseconds`).

Model of `LoopbackTransport`: `send`, `recv` (`receive`), its name (`numberedName`), its serial
numbers and the loopback called `default` (`common`). A call is one step. Out of scope: threads that
send while another waits, how long a wait lasts, and transports of any other kind.
-/

namespace TypedBus

/-! ## Times -/

namespace Timeout

/-- How many nanoseconds a second has. -/
def perSecond : Nat := 1000000000

/-- One more than the greatest number of nanoseconds of a time. -/
def bound : Int := 0x8000000000000000

/-- The greatest number of microseconds that one can wait. -/
def longestWait : Int := 9223372036854775

/-- A number of nanoseconds within bounds. -/
def bounded (n : Int) : Except Fault Int :=
  if -bound ≤ n ∧ n < bound then .ok n else .error .tooLongTime

/-- A time in seconds as whole nanoseconds, rounded up. The product of a double is a double. -/
def nanoseconds (v : Value) : Except Fault Int :=
  match v with
  | .double d | .scalar (.floating .double d) =>
    if d.isNaN then .error .nanTime
    else
      let (num, den) := d.magnitude.toFraction
      let product := Double.ofFraction d.isNegative (num * perSecond) den
      if d.isFinite && product.isFinite then bounded product.ceiling else .error .tooLongTime
  | .boolean _ | .integer _ | .fixed _ _ | .handle _ | .scalar (.integer _ _)
  | .grid ⟨.integer _, [], _⟩ => do
    bounded ((← v.toInteger) * perSecond)
  | .grid _ => .error .noIndex
  | v => .error (.notATime v.kindName)

/-- A time to wait must not be below zero, nor too long to wait for. Null sets no limit. -/
def check (v : Value) : Except Fault Unit :=
  match v with
  | .null => .ok ()
  | v => do
    let n ← nanoseconds v
    if n < 0 then .error .negativeTime
    else if longestWait < (n + 999) / 1000 then .error .tooLongWait
    else .ok ()

end Timeout

/-! ## Transports -/

/-- A loopback transport: its name, the serial number it gives next, and the packed streams that
wait, the oldest first. -/
structure Loopback where
  name : Value
  nextSerial : Nat := 1
  queue : List Json := []
  deriving Repr, Inhabited

namespace Loopback

/-- The name of the loopback that serves messages without a transport of their own. -/
def commonName : Text := ":loopback"

/-- The loopback that serves messages without a transport of their own. -/
def common : Loopback := { name := .text commonName }

/-- The name of the loopback that was the n-th to be made without one. -/
def numberedName (n : Nat) : Text := .concat [commonName, ".", .ofNat n]

/-- Send a sealed stream. The envelope has been written, and the serial number is spent, even where
the stream cannot be packed. -/
def send (s : Stream) (l : Loopback) : Except Fault Unit × Stream × Loopback :=
  if s.isSealed then
    let s := { s with
      envelope := { s.envelope with sender := l.name, serial := .integer l.nextSerial } }
    let l := { l with nextSerial := l.nextSerial + 1 }
    match s.pack with
    | .ok x => (.ok (), s, { l with queue := l.queue ++ [x] })
    | .error f => (.error f, s, l)
  else (.error .unsealedStream, s, l)

/-- Receive the oldest stream that waits (`recv`); nothing arrives while one waits for it. -/
def receive (timeout : Value) (l : Loopback) : Except Fault Stream × Loopback :=
  match Timeout.check timeout with
  | .error f => (.error f, l)
  | .ok _ =>
    match l.queue with
    | [] => (do .error (.noMessage (← timeout.plain)), l)
    | x :: queue => (Stream.unpack (.ok x), { l with queue })

end Loopback

end TypedBus
