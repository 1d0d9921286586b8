import OutRelay.GoString

/-!
# Frames

The frames that the stream handlers of the relay read and write. `Frame` is a
frame as it is read: its type, and its payload where the handler unmarshals
one. `Message` is a frame as it is written.
-/

/-- The frame types that the handlers of data streams tell apart. -/
inductive FrameType
  | openStream
  | forwardStream
  | streamAccept
  | streamReject
  | streamResume
  | migrateToRelay
  | other (code : UInt8)
  deriving DecidableEq

/-- `OpenStream`. -/
structure OpenStream where
  streamID : UInt64
  targetService : GoString
  method : GoString
  deriving DecidableEq

/-- `IncomingStream`, the payload of `INCOMING_STREAM` and of
`FORWARD_STREAM`. -/
structure IncomingStream where
  targetService : GoString
  method : GoString
  sourceAgentURI : GoString
  streamID : UInt64
  resumeRelays : List GoString
  deriving DecidableEq

/-- `AllocGranted`. -/
structure AllocGranted where
  streamID : UInt64
  myAllocation : UInt32
  peerAllocation : UInt32
  forwardEndpoint : GoString
  resumeRelays : List GoString
  deriving DecidableEq

/-- `StreamResume`: the stream, and how far the agent has got with it. -/
structure StreamResume where
  streamID : UInt64
  myPosition : UInt64
  peerAckPosition : UInt64
  deriving DecidableEq

/-- `MigrateToRelay`, without the reason, which is only logged. -/
structure MigrateToRelay where
  streamID : UInt64
  myPosition : UInt64
  peerAckPosition : UInt64
  deriving DecidableEq

/-- A frame that has been read. The payload is `none` where it does not
unmarshal. -/
inductive Frame
  | openStream (payload : Option OpenStream)
  | forwardStream (payload : Option IncomingStream)
  | streamAccept
  | streamReject (code : UInt32) (reason : GoString)
  | streamResume (payload : Option StreamResume)
  | migrateToRelay (payload : Option MigrateToRelay)
  | other (code : UInt8)
  deriving DecidableEq

/-- `Frame.Type`. -/
def Frame.type : Frame → FrameType
  | .openStream _ => .openStream
  | .forwardStream _ => .forwardStream
  | .streamAccept => .streamAccept
  | .streamReject _ _ => .streamReject
  | .streamResume _ => .streamResume
  | .migrateToRelay _ => .migrateToRelay
  | .other code => .other code

/-- A frame that is written. A `STREAM_REJECT` on a data stream has stream id
`0`. -/
inductive Message
  | incomingStream (m : IncomingStream)
  | forwardStream (m : IncomingStream)
  | streamAccept
  | streamReject (code : UInt32) (reason : GoString) (streamID : UInt64)
  | streamReady (streamID : UInt64) (resumeRelays : List GoString)
  | allocGranted (m : AllocGranted)
  deriving DecidableEq
