/-!
# Errors of the protocol library
-/

namespace FancyMumble

inductive Error where
  /-- Failed to decode a protobuf message from the wire. -/
  | decode (message : String)
  /-- The server sent a message type that the library does not recognise. -/
  | unknownMessageType (messageType : UInt16)
  /-- The TCP connection was closed by the remote end. -/
  | connectionClosed
  /-- An operation was attempted that is not valid in the current state. -/
  | invalidState (message : String)
  /-- Any other error. -/
  | other (message : String)
deriving DecidableEq, Repr

def Error.display : Error → String
  | .decode message => "Protobuf decode error: " ++ message
  | .unknownMessageType messageType => "Unknown message type: " ++ toString messageType.toNat
  | .connectionClosed => "Connection closed"
  | .invalidState message => "Invalid state: " ++ message
  | .other message => message

end FancyMumble
