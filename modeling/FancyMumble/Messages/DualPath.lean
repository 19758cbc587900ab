import FancyMumble.Messages.Commands

/-!
# Dual-path sending

A message to an encrypted channel is sent as a text as well. The user may have the text
replaced by a placeholder; the setting is a preference of the session that is active when it
is set, and a new session gets the preferences of the default one.
-/

namespace FancyMumble.Messages

open Client (isEncrypted)
open Lib.Coroutines Lib.Runs Persistent Signal

variable {lib : Libraries} (codecs : Codecs lib)

def encryptedPlaceholder : String := "[Encrypted message]"

/-! ## Edits -/

structure EditInputs where
  messageId : String
  now : UInt64

def CommandState.replaceBody (channelId : UInt32) (messageId newBody : String)
    (state : CommandState lib) : CommandState lib :=
  let bucket := state.shared.byChannel channelId
  let edited := bucket.findIdx fun msg => msg.messageId = some messageId
  { state with
    shared :=
      { state.shared with
        byChannel := Function.update state.shared.byChannel channelId
          (bucket.modify edited fun msg => { msg with body := newBody }) } }

def editMessage (inputs : EditInputs) (channelId : UInt32) (messageId newBody : String) :
    Command lib :=
  .locked fun ref state =>
    (state,
      match state.handle ref with
      | none => .done (.error "Not connected")
      | some handle =>
          if state.fancyVersion.isNone then
            .done (.error "Message editing requires a Fancy Mumble server")
          else
            .send handle
              (.textMessage [channelId] [] newBody (some inputs.messageId) (some inputs.now)) fun
              | .error e => .done (.error ("Failed to send edit: " ++ e))
              | .ok () =>
                  .locked fun _ state =>
                    (state.replaceBody channelId messageId newBody, .done (.ok ())))

/-! ## Sessions -/

inductive TextCommand (lib : Libraries) where
  | user (command : UserCommand lib)
  | editMessage (inputs : EditInputs) (channelId : UInt32) (messageId newBody : String)

def TextCommand.run : TextCommand lib → Command lib
  | .user command => command.run codecs
  | .editMessage inputs channelId messageId newBody =>
      Messages.editMessage inputs channelId messageId newBody

abbrev CommandTrail (lib : Libraries) :=
  List (Encounter SessionRef (CommandState lib) (Except String Unit))

/-- The sessions and the commands that run, the number of the next session, and what the user
has set last. Session 0 is the default one. -/
structure DualPath (lib : Libraries) where
  commands : Trailed SessionRef (CommandState lib) (SentCommand lib) (Except String Unit)
    (Except String Unit) (TextCommand lib) :=
      { world := { active := 0, objects := fun _ => {} } }
  next : SessionRef := 1
  disabled : Bool := false

/-- What can happen. A session receives what changes it; no message changes a preference. -/
inductive DualPathEvent (lib : Libraries) where
  | start (command : TextCommand lib)
  | resume (i : ℕ) (answer : Except String Unit)
  | setDisableDualPath (disabled : Bool)
  | connect
  | switchServer (ref : SessionRef)
  | receive (ref : SessionRef) (f : CommandState lib → CommandState lib)

namespace DualPath

def session (s : DualPath lib) (ref : SessionRef) : CommandState lib :=
  s.commands.world.objects ref

def act (s : DualPath lib)
    (event : Event SessionRef (CommandState lib) (Except String Unit) (TextCommand lib)) :
    DualPath lib :=
  { s with commands := s.commands.step (TextCommand.run codecs) event }

def step (s : DualPath lib) : DualPathEvent lib → DualPath lib
  | .start command => s.act codecs (.start command)
  | .resume i answer => s.act codecs (.resume i answer)
  | .setDisableDualPath disabled =>
      { s with disabled }.act codecs
        (.modify s.commands.world.active fun state => { state with disableDualPath := disabled })
  | .connect =>
      let fresh : CommandState lib := { disableDualPath := (s.session 0).disableDualPath }
      ({ s with next := s.next + 1 }.act codecs (.modify s.next fun _ => fresh)).act codecs
        (.redirect s.next)
  | .switchServer ref => if ref < s.next then s.act codecs (.redirect ref) else s
  | .receive ref f =>
      s.act codecs (.modify ref fun state =>
        { f state with disableDualPath := state.disableDualPath })

/-- A text for an encrypted channel that is sent while the user has dual-path sending
disabled is the placeholder. -/
def NoCleartext (s : DualPath lib) : DualPathEvent lib → Prop
  | .resume i _ => s.disabled →
      ∀ origin dest channelIds userSessions text messageId timestamp next,
      s.commands.world.tasks[i]? = some (origin,
        .send dest (.textMessage channelIds userSessions text messageId timestamp) next) →
      ∀ channelId ∈ channelIds, ((s.session dest).protocols channelId).any isEncrypted →
        text = encryptedPlaceholder
  | _ => True

/-- A message has found its channel encrypted at first, and then the preference set. -/
def heeded (channelId : UInt32) : CommandTrail lib → Bool
  | .found _ first :: .found _ prefs :: _ =>
      (first.protocols channelId).any isEncrypted && prefs.disableDualPath
  | _ => false

def MayBeSeen (s : DualPath lib) : TextCommand lib → CommandTrail lib → Prop
  | .user (.sendMessage _ channelId body), .found ref first :: rest =>
      ((s.session ref).protocols channelId).any isEncrypted →
        body = encryptedPlaceholder ∨ heeded channelId (.found ref first :: rest)
  | .editMessage _ channelId _ newBody, .found ref _ :: _ =>
      ((s.session ref).protocols channelId).any isEncrypted → newBody = encryptedPlaceholder
  | _, _ => True

def sendsText (task : Command lib) : Prop :=
  ∃ dest channelIds userSessions text messageId timestamp next,
    task = .send dest (.textMessage channelIds userSessions text messageId timestamp) next

/-- While the user has dual-path sending disabled, only what may be seen is sent. -/
def SendsVisible (s : DualPath lib) : DualPathEvent lib → Prop
  | .resume i _ => s.disabled → ∀ task ∈ s.commands.world.tasks[i]?, sendsText task.2 →
      ∀ entry ∈ s.commands.trails[i]?, s.MayBeSeen entry.1 entry.2
  | _ => True

/-! ## The texts of commands -/

section Texts

variable {inputs : SendInputs lib} {data : OwnMessageData} {ref handle dest : SessionRef}
  {channelIds userSessions : List UInt32} {text : String} {messageId : Option String}
  {timestamp : Option UInt64} {next : Except String Unit → Command lib}
  {trail : CommandTrail lib} {channelId : UInt32} {body : String}

theorem not_sends_storeOwn {msg : SentCommand lib} :
    ¬(storeOwn inputs data).Leads trail (.send dest msg next) := by
  intro h
  cases h with
  | found h => cases h

theorem text_of_sendText {disableDual : Bool} {prebuilt : Option (PchatMessage lib × SessionRef)}
    (h : (sendText inputs data handle disableDual prebuilt).Leads trail
      (.send dest (.textMessage channelIds userSessions text messageId timestamp) next)) :
    trail = [] ∧ dest = handle ∧ channelIds = [data.channelId] ∧
      text = textBody disableDual data := by
  cases h with
  | nil => exact ⟨rfl, rfl, rfl, rfl⟩
  | @answered _ _ _ answer _ _ h =>
      exfalso
      cases answer with
      | error e => cases h
      | ok sent =>
          cases prebuilt with
          | none => exact not_sends_storeOwn h
          | some built =>
              cases h with
              | answered h => exact not_sends_storeOwn h

theorem text_of_prebuildAndSend {disableDual : Bool}
    (h : (prebuildAndSend codecs inputs data handle disableDual).Leads trail
      (.send dest (.textMessage channelIds userSessions text messageId timestamp) next)) :
    dest = handle ∧ channelIds = [data.channelId] ∧ text = textBody disableDual data ∧
      ((data.outbound none).isNone → trail = []) := by
  unfold prebuildAndSend at h
  split at h
  · obtain ⟨htrail, hdest, hchannel, htext⟩ := text_of_sendText h
    exact ⟨hdest, hchannel, htext, fun _ => htrail⟩
  · next hsome =>
      cases h with
      | found h =>
          cases h with
          | found h =>
              dsimp only at h
              split at h
              · cases h
              · obtain ⟨-, hdest, hchannel, htext⟩ := text_of_sendText h
                exact ⟨hdest, hchannel, htext, fun hnone => absurd hnone hsome⟩

theorem text_of_sendMessage
    (h : (sendMessage codecs inputs channelId body).Leads trail
      (.send dest (.textMessage channelIds userSessions text messageId timestamp) next)) :
    ∃ first rest, trail = .found dest first :: rest ∧ channelIds = [channelId] ∧
      text = if heeded channelId trail then encryptedPlaceholder else body := by
  cases h with
  | @found _ ref first rest _ h =>
      dsimp only at h
      split at h
      · cases h
      next handle hhandle =>
        obtain rfl := eq_of_handle hhandle
        split at h
        next hencrypted =>
          cases h with
          | @found _ _ prefs rest' _ h =>
              obtain ⟨rfl, rfl, rfl, -⟩ := text_of_prebuildAndSend codecs h
              exact ⟨first, _, rfl, rfl, by
                simp only [heeded, textBody, hencrypted, Bool.true_and, true_and,
                  encryptedPlaceholder]⟩
        next hplain =>
          obtain ⟨rfl, rfl, rfl, hnil⟩ := text_of_prebuildAndSend codecs h
          have hnone : (first.protocols channelId).filter isEncrypted = none := by
            cases hp : first.protocols channelId with
            | none => rfl
            | some p => simpa [hp] using hplain
          obtain rfl := hnil (by simp only [OwnMessageData.outbound, hnone, Option.isNone_none])
          exact ⟨first, [], rfl, rfl, by simp [heeded, textBody]⟩

theorem text_of_editMessage {inputs : EditInputs} {edited newBody : String}
    (h : (editMessage inputs channelId edited newBody : Command lib).Leads trail
      (.send dest (.textMessage channelIds userSessions text messageId timestamp) next)) :
    ∃ first rest, trail = .found dest first :: rest ∧ channelIds = [channelId] ∧
      text = newBody := by
  cases h with
  | @found _ ref first rest _ h =>
      dsimp only at h
      split at h
      · cases h
      next handle hhandle =>
        obtain rfl := eq_of_handle hhandle
        split at h
        · cases h
        · cases h with
          | nil => exact ⟨first, [], rfl, rfl, rfl⟩
          | @answered _ _ _ answer _ _ h =>
              cases answer with
              | error e => cases h
              | ok sent =>
                  cases h with
                  | found h => cases h

theorem channelIds_of_sendDm {targetSession : UInt32}
    (h : (sendDm inputs targetSession body).Leads trail
      (.send dest (.textMessage channelIds userSessions text messageId timestamp) next)) :
    channelIds = [] := by
  cases h with
  | found h =>
      dsimp only at h
      split at h
      · cases h
      · cases h with
        | nil => rfl
        | @answered _ _ _ answer _ _ h =>
            cases answer with
            | error e => cases h
            | ok sent =>
                cases h with
                | found h => cases h

theorem not_text_of_approveKeyShare {identity : Identity} {nonce : List UInt8} {now : UInt64}
    {peerCertHash : String}
    (h : (approveKeyShare identity nonce now channelId peerCertHash : Command lib).Leads trail
      (.send dest (.textMessage channelIds userSessions text messageId timestamp) next)) :
    False := by
  cases h with
  | found h =>
      dsimp only at h
      repeat' split at h
      all_goals try cases h
      next handle hhandle _ answer _ h =>
        cases answer with
        | error e => cases h
        | ok sent =>
            cases h with
            | found h =>
                cases h with
                | answered h => cases h

end Texts

/-! ## What is seen -/

variable {s : DualPath lib}

theorem mayBeSeen_iff {command : TextCommand lib} {trail : CommandTrail lib} {dest : SessionRef}
    {channelIds userSessions : List UInt32} {text : String} {messageId : Option String}
    {timestamp : Option UInt64} {next : Except String Unit → Command lib}
    (h : (command.run codecs).Leads trail
      (.send dest (.textMessage channelIds userSessions text messageId timestamp) next)) :
    (∀ channelId ∈ channelIds, ((s.session dest).protocols channelId).any isEncrypted →
      text = encryptedPlaceholder) ↔ s.MayBeSeen command trail := by
  cases command with
  | user command =>
      cases command with
      | sendMessage inputs channelId body =>
          obtain ⟨first, rest, rfl, rfl, rfl⟩ := text_of_sendMessage codecs h
          simp only [MayBeSeen, List.mem_singleton, forall_eq]
          refine imp_congr_right fun _ => ?_
          cases heeded channelId (.found dest first :: rest) with
          | false => simp
          | true => simp
      | sendDm inputs targetSession body =>
          obtain rfl := channelIds_of_sendDm h
          exact iff_of_true (fun _ hmem => absurd hmem List.not_mem_nil) trivial
      | approveKeyShare identity nonce now channelId peerCertHash =>
          exact absurd h not_text_of_approveKeyShare
  | editMessage inputs channelId edited newBody =>
      obtain ⟨first, rest, rfl, rfl, rfl⟩ := text_of_editMessage h
      simp only [MayBeSeen, List.mem_singleton, forall_eq]

theorem noCleartext_iff (h : s.commands.Follows (TextCommand.run codecs))
    (event : DualPathEvent lib) : s.NoCleartext event ↔ s.SendsVisible event := by
  cases event with
  | resume i answer =>
      refine imp_congr_right fun _ => ?_
      constructor
      · intro hclear task htask hsends entry hentry
        obtain ⟨origin, rest⟩ := task
        obtain ⟨dest, channelIds, userSessions, text, messageId, timestamp, next, rfl⟩ := hsends
        obtain ⟨entry', hentry', hleads⟩ := h.leads htask
        obtain rfl : entry' = entry := Option.some.inj (hentry'.symm.trans hentry)
        exact (mayBeSeen_iff codecs hleads).mp
          (hclear origin dest channelIds userSessions text messageId timestamp next htask)
      · intro hsent origin dest channelIds userSessions text messageId timestamp next htask
        obtain ⟨entry, hentry, hleads⟩ := h.leads htask
        exact (mayBeSeen_iff codecs hleads).mpr
          (hsent _ htask ⟨_, _, _, _, _, _, _, rfl⟩ _ hentry)
  | _ => exact Iff.rfl

theorem follows_step (h : s.commands.Follows (TextCommand.run codecs))
    (event : DualPathEvent lib) :
    (s.step codecs event).commands.Follows (TextCommand.run codecs) := by
  cases event with
  | start command => exact h.step _
  | resume i answer => exact h.step _
  | setDisableDualPath disabled => exact h.step _
  | connect => exact (h.step _).step _
  | switchServer ref =>
      simp only [step]
      split
      · exact h.step _
      · exact h
  | receive ref f => exact h.step _

/-- No cleartext leaves the client exactly in the runs in which every text for an encrypted
channel comes from a message that has found its channel encrypted and the preference set. -/
theorem noCleartext_run_iff (events : List (DualPathEvent lib)) :
    Along (step codecs) NoCleartext {} events ↔ Along (step codecs) SendsVisible {} events :=
  along_iff_of_invariant
    (fun (s : DualPath lib) event (hs : s.commands.Follows (TextCommand.run codecs)) =>
      noCleartext_iff codecs hs event)
    (fun (s : DualPath lib) event (hs : s.commands.Follows (TextCommand.run codecs)) _ =>
      follows_step codecs hs event)
    List.Forall₂.nil

section Example

private def messageInputsExample : SendInputs symbolic where
  messageId := "id"
  now := 1
  rng := ("", 0)
  loaded := none
  rowId := "row"

/-- The user disables dual-path sending on one server, connects to another one, and writes in
an encrypted channel there. -/
private def laterSessionExample : List (DualPathEvent symbolic) :=
  [.connect, .setDisableDualPath true, .connect,
    .receive 2 fun state =>
      { state with
        shared := { state.shared with clientHandle := true }
        protocols := fun _ => some .fancyV1FullArchive },
    .start (.user (.sendMessage messageInputsExample 7 "secret")), .resume 0 (.ok ()),
    .resume 0 (.ok ()), .resume 0 (.ok ())]

/-- A session that is connected later does not know the preference. -/
theorem later_session_sends_cleartext :
    ¬∀ (lib : Libraries) (codecs : Codecs lib) (events : List (DualPathEvent lib)),
      Along (step codecs) NoCleartext {} events := by
  intro h
  have hclear := (h symbolic symbolicCodecs laterSessionExample).2.2.2.2.2.2.2.1
  have htext : "secret" = encryptedPlaceholder :=
    hclear rfl 2 2 [7] [] "secret" none none _ rfl 7 (by simp) rfl
  exact absurd htext (by decide)

end Example

end DualPath

end FancyMumble.Messages
