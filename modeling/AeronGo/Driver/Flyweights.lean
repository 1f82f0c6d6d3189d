import AeronGo.Flyweight.Fields

/-!
# Messages of the driver

`aeron/driver/flyweights.go`, the two messages that carry the name of a log file. A message is its wrapped fields and its
size.
-/

namespace AeronGo.Driver

open Machine Atomic Flyweight

structure PublicationReady where
  correlationID : Int64Field
  registrationID : Int64Field
  sessionID : Int32Field
  streamID : Int32Field
  publicationLimitOffset : Int32Field
  channelStatusIndicatorID : Int32Field
  logFileName : StringField
  size : Int

def PublicationReady.wrap (buf : Buffer) (offset : Int) : Except Stop PublicationReady := do
  let pos := offset
  let (correlationID, n) ← Int64Field.wrap buf pos
  let pos := pos + n
  let (registrationID, n) ← Int64Field.wrap buf pos
  let pos := pos + n
  let (sessionID, n) ← Int32Field.wrap buf pos
  let pos := pos + n
  let (streamID, n) ← Int32Field.wrap buf pos
  let pos := pos + n
  let (publicationLimitOffset, n) ← Int32Field.wrap buf pos
  let pos := pos + n
  let (channelStatusIndicatorID, n) ← Int32Field.wrap buf pos
  let pos := pos + n
  let (logFileName, n) ← StringField.wrap buf pos true
  let pos := pos + n
  return ⟨correlationID, registrationID, sessionID, streamID, publicationLimitOffset, channelStatusIndicatorID,
    logFileName, pos - offset⟩

structure ImageReadyHeader where
  correlationID : Int64Field
  sessionID : Int32Field
  streamID : Int32Field
  subsRegistrationID : Int64Field
  subsPosID : Int32Field
  logFile : StringField
  sourceIdentity : StringField
  size : Int

def ImageReadyHeader.wrap (buf : Buffer) (offset : Int) : Except Stop ImageReadyHeader := do
  let pos := offset
  let (correlationID, n) ← Int64Field.wrap buf pos
  let pos := pos + n
  let (sessionID, n) ← Int32Field.wrap buf pos
  let pos := pos + n
  let (streamID, n) ← Int32Field.wrap buf pos
  let pos := pos + n
  let (subsRegistrationID, n) ← Int64Field.wrap buf pos
  let pos := pos + n
  let (subsPosID, n) ← Int32Field.wrap buf pos
  let pos := pos + n
  let (logFile, n) ← StringField.wrap buf pos true
  let pos := pos + n
  let (sourceIdentity, n) ← StringField.wrap buf pos true
  let pos := pos + n
  return ⟨correlationID, sessionID, streamID, subsRegistrationID, subsPosID, logFile, sourceIdentity, pos - offset⟩

end AeronGo.Driver
