import SecureLayout.Wire.Sync

/-!
Frames of a relay socket. Text frames carry messages, and there are no others to carry them.
-/

namespace SecureLayout.Wire

inductive SocketFrame where
  | text (s : String)
  | binary (octets : List UInt8)
  | ping (octets : List UInt8)
  | pong (octets : List UInt8)
  | close
  deriving DecidableEq, Repr

/-- What a frame means to a session. -/
inductive Inbound where
  | sync (m : SyncMessage)
  | ping (octets : List UInt8)
  | pong (octets : List UInt8)
  | close

namespace SocketFrame

def decode : SocketFrame → Result Inbound
  | text s => (SyncMessage.decode s).map .sync
  | binary _ => .error (.badRequest "binary frames are not supported")
  | ping octets => .ok (.ping octets)
  | pong octets => .ok (.pong octets)
  | close => .ok .close

/-- The frame that carries a message. -/
def ofMessage (m : SyncMessage) : SocketFrame :=
  text m.encode

/-- The frame that reports a failure. -/
def ofFailure (e : Failure) : SocketFrame :=
  ofMessage (.error e.code.text e.message)

end SocketFrame

end SecureLayout.Wire
