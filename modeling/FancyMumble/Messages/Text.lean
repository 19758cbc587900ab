import FancyMumble.Message
import FancyMumble.Messages.History
import FancyMumble.Persistent.Types

/-!
# Plain messages

What a client makes of the text messages that it receives: the row of a direct message, and
the rows of a message for channels. The text copy of a message that arrives encrypted as
well is left out.
-/

namespace FancyMumble.Messages

open Persistent

structure TextRow extends ChatMessage where
  senderSession : Option UInt32
  dmSession : Option UInt32 := none
  isLegacy : Bool := false
  editedAt : Option UInt64 := none

inductive MessageKind where
  | directMessage
  | channel
deriving DecidableEq

def classify (tm : TextMessage) : MessageKind :=
  if !tm.session.isEmpty && tm.channelId.isEmpty then .directMessage else .channel

structure UserEntry where
  name : String
  hash : Option String := none
  /-- `has_pchat_e2ee`. -/
  hasPchatE2ee : Bool := false

/-- What the handler reads of the shared state: the own session, the users, and the
protocols of the channels. -/
structure Directory where
  ownSession : Option UInt32 := none
  users : UInt32 → Option UserEntry := fun _ => none
  pchatProtocol : UInt32 → Option PchatProtocol := fun _ => none

def resolveSenderName (directory : Directory) (actor : Option UInt32) : String :=
  ((actor.bind directory.users).map UserEntry.name).getD "Server"

def resolveSenderHash (directory : Directory) (actor : Option UInt32) : Option String :=
  (actor.bind directory.users).bind UserEntry.hash

def TextRow.ensureId (freshId : String) (row : TextRow) : TextRow :=
  if row.messageId.isNone then { row with messageId := some freshId } else row

def targetChannels (tm : TextMessage) : List UInt32 :=
  if tm.channelId.isEmpty then [0] else tm.channelId

def directMessageRow (directory : Directory) (freshId : String) (tm : TextMessage) :
    Option (UInt32 × TextRow) :=
  tm.actor.map fun senderSession =>
    (senderSession, TextRow.ensureId freshId
      { senderSession := tm.actor
        senderName := resolveSenderName directory tm.actor
        senderHash := resolveSenderHash directory tm.actor
        body := tm.message
        channelId := 0
        dmSession := some senderSession
        messageId := tm.messageId
        timestamp := tm.timestamp
        decrypted := true })

def channelMessageRow (directory : Directory) (freshId : String) (tm : TextMessage)
    (channelId : UInt32) : Option TextRow :=
  let hasPchat := ((directory.pchatProtocol channelId).filter (· ≠ .none)).isSome
  let senderHasE2ee := ((tm.actor.bind directory.users).map UserEntry.hasPchatE2ee).getD false
  if hasPchat && senderHasE2ee then none
  else
    some (TextRow.ensureId freshId
      { senderSession := tm.actor
        senderName := resolveSenderName directory tm.actor
        senderHash := resolveSenderHash directory tm.actor
        body := tm.message
        channelId := channelId
        messageId := tm.messageId
        timestamp := tm.timestamp
        isLegacy := hasPchat && !senderHasE2ee
        decrypted := true })

def channelMessageRows (directory : Directory) (freshId : ℕ → String) (tm : TextMessage) :
    List (UInt32 × TextRow) :=
  (targetChannels tm).zipIdx.filterMap fun target =>
    (channelMessageRow directory (freshId target.2) tm target.1).map (target.1, ·)

/-! ## Channels of the rows -/

theorem channelId_channelMessageRow {directory : Directory} {freshId : String}
    {tm : TextMessage} {channelId : UInt32} {row : TextRow}
    (h : channelMessageRow directory freshId tm channelId = some row) :
    row.channelId = channelId := by
  unfold channelMessageRow at h
  dsimp only at h
  split at h
  · cases h
  · cases h
    unfold TextRow.ensureId
    split <;> rfl

end FancyMumble.Messages
