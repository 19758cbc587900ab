import FancyMumble.Lib.Bytes
import FancyMumble.Lib.Decimal
import Mathlib.Data.Finset.Insert

/-!
# The libraries under the Signal bridge

The group cipher, the distribution ids and the state files that the bridge takes from
libraries, with what it relies on, and one instance of them in which keys are symbols.
-/

namespace FancyMumble.Signal

open Lib.Bytes

/-! ## State files -/

structure ExportedKeyEntry where
  senderHash : String
  channelId : UInt32

structure ExportedSenderKeyRecord (Bytes : Type) where
  senderHash : String
  distributionId : String
  recordBytes : Bytes

structure ExportedInitialDistribution (Bytes : Type) where
  distributionId : String
  skdmBytes : Bytes

structure ExportedState (Bytes : Type) where
  ourAddress : String
  ourChannels : List UInt32
  knownKeys : List ExportedKeyEntry
  senderKeyRecords : List (ExportedSenderKeyRecord Bytes)
  initialDistributions : List (ExportedInitialDistribution Bytes)

/-! ## Functions -/

/-- What the bridge calls of `libsignal_protocol`, `uuid` and `serde_json`. An operation
that has a sender key store loads one record of it and stores one. -/
structure Libraries where
  Bytes : Type
  Uuid : Type
  SenderKeyRecord : Type
  SenderKeyDistributionMessage : Type
  Rng : Type
  [decidableEqUuid : DecidableEq Uuid]
  /-- `Uuid::new_v5` in the namespace of the bridge. -/
  newV5 : List UInt8 → Uuid
  uuidToString : Uuid → String
  uuidParseStr : String → Except String Uuid
  createSenderKeyDistributionMessage : Rng → Uuid → Option SenderKeyRecord →
    Except String SenderKeyDistributionMessage × Option SenderKeyRecord
  serialized : SenderKeyDistributionMessage → Bytes
  tryFrom : Bytes → Except String SenderKeyDistributionMessage
  distributionId : SenderKeyDistributionMessage → Except String Uuid
  processSenderKeyDistributionMessage : SenderKeyDistributionMessage →
    Option SenderKeyRecord → Except String SenderKeyRecord
  groupEncrypt : Rng → Uuid → Option SenderKeyRecord → Bytes →
    Except String (Bytes × SenderKeyRecord)
  /-- The distribution id in a ciphertext. -/
  messageDistributionId : Bytes → Except String Uuid
  groupDecrypt : Bytes → Option SenderKeyRecord → Except String (Bytes × SenderKeyRecord)
  serialize : SenderKeyRecord → Except String Bytes
  deserialize : Bytes → Except String SenderKeyRecord
  toVec : ExportedState Bytes → Except String Bytes
  fromSlice : Bytes → Except String (ExportedState Bytes)

attribute [instance] Libraries.decidableEqUuid

namespace Libraries

def channelDistributionId (lib : Libraries) (channelId : UInt32) : lib.Uuid :=
  lib.newV5 (leBytes 4 channelId.toNat)

/-! ## What the bridge relies on -/

/-- Channels have different ids, what is written can be read back, and nothing is decrypted
without a record. -/
structure Faithful (lib : Libraries) : Prop where
  channelDistributionId_inj : Function.Injective lib.channelDistributionId
  uuid_roundTrip : ∀ id, lib.uuidParseStr (lib.uuidToString id) = .ok id
  tryFrom_serialized : ∀ skdm, lib.tryFrom (lib.serialized skdm) = .ok skdm
  record_roundTrip : ∀ record bytes, lib.serialize record = .ok bytes →
    lib.deserialize bytes = .ok record
  state_roundTrip : ∀ state, ∃ data, lib.toVec state = .ok data ∧ lib.fromSlice data = .ok state
  decrypt_none : ∀ ciphertext, ∃ e, lib.groupDecrypt ciphertext none = .error e

theorem Faithful.fromSlice_of_toVec {lib : Libraries} (h : lib.Faithful)
    {state : ExportedState lib.Bytes} {data : lib.Bytes} (hdata : lib.toVec state = .ok data) :
    lib.fromSlice data = .ok state := by
  obtain ⟨data', hwritten, hread⟩ := h.state_roundTrip state
  cases hwritten.symm.trans hdata
  exact hread

/-- The chains of sender keys that records, distributions and ciphertexts belong to. -/
structure Chains (lib : Libraries) where
  Chain : Type
  /-- The chain that is generated from some randomness. -/
  fresh : lib.Rng → Chain
  announced : lib.SenderKeyDistributionMessage → Chain
  message : lib.Bytes → Option Chain
  /-- The record opens messages of the chain. -/
  Holds : lib.SenderKeyRecord → Chain → Prop
  /-- The record has the private signing key of the chain. -/
  Signs : lib.SenderKeyRecord → Chain → Prop

/-- Nobody without the keys of a chain makes or opens a message of it, and an operation
on a record gives it no other chains. -/
structure SoundChains (lib : Libraries) (chains : lib.Chains) : Prop where
  create_none : ∀ {rng id skdm record},
    lib.createSenderKeyDistributionMessage rng id none = (.ok skdm, record) →
      lib.distributionId skdm = .ok id
  record_create_none : ∀ {rng id result record chain},
    lib.createSenderKeyDistributionMessage rng id none = (result, some record) →
      chains.Holds record chain ∨ chains.Signs record chain → chain = chains.fresh rng
  create_some : ∀ {rng id record skdm record'},
    lib.createSenderKeyDistributionMessage rng id (some record) = (.ok skdm, record') →
      lib.distributionId skdm = .ok id
  record_create_some : ∀ {rng id record result record'},
    lib.createSenderKeyDistributionMessage rng id (some record) = (result, record') →
      record' = some record
  process_none : ∀ {skdm record},
    lib.processSenderKeyDistributionMessage skdm none = .ok record →
      (∀ chain, chains.Holds record chain → chain = chains.announced skdm) ∧
        ∀ chain, ¬chains.Signs record chain
  encrypt : ∀ {rng id record plaintext ciphertext record'},
    lib.groupEncrypt rng id record plaintext = .ok (ciphertext, record') →
      lib.messageDistributionId ciphertext = .ok id ∧
        ∃ before chain, record = some before ∧ chains.Signs before chain ∧
          chains.message ciphertext = some chain ∧
          chains.Holds record' ≤ chains.Holds before ∧ chains.Signs record' ≤ chains.Signs before
  decrypt : ∀ {ciphertext record plaintext record'},
    lib.groupDecrypt ciphertext record = .ok (plaintext, record') →
      ∃ before chain, record = some before ∧ chains.Holds before chain ∧
        chains.message ciphertext = some chain ∧
        chains.Holds record' ≤ chains.Holds before ∧ chains.Signs record' ≤ chains.Signs before

theorem SoundChains.distributionId_of_create {lib : Libraries} {chains : lib.Chains}
    (h : lib.SoundChains chains) {rng : lib.Rng} {id : lib.Uuid}
    {before record : Option lib.SenderKeyRecord} {skdm : lib.SenderKeyDistributionMessage}
    (hcreate : lib.createSenderKeyDistributionMessage rng id before = (.ok skdm, record)) :
    lib.distributionId skdm = .ok id := by
  cases before with
  | none => exact h.create_none hcreate
  | some before => exact h.create_some hcreate

structure Positions (lib : Libraries) where
  Chain : Type
  /-- The chain that is generated from some randomness. -/
  fresh : lib.Rng → Chain
  /-- The distribution opens the chain from an iteration on. -/
  Announces : lib.SenderKeyDistributionMessage → Chain → ℕ → Prop
  /-- The record encrypts the message of the iteration next. -/
  Sends : lib.SenderKeyRecord → Chain → ℕ → Prop
  /-- The record opens the messages from an iteration on, except the given ones. -/
  Receives : lib.SenderKeyRecord → Chain → ℕ → Finset ℕ → Prop
  /-- The ciphertext is the message of the iteration, for a plaintext. -/
  Carries : lib.Bytes → Chain → ℕ → lib.Bytes → Prop

/-- The group cipher works, with any number of skipped messages. -/
structure CompleteChains (lib : Libraries) (positions : lib.Positions) : Prop where
  create_none : ∀ rng id, ∃ skdm record,
    lib.createSenderKeyDistributionMessage rng id none = (.ok skdm, some record) ∧
      lib.distributionId skdm = .ok id ∧
      positions.Announces skdm (positions.fresh rng) 0 ∧
      positions.Sends record (positions.fresh rng) 0
  encrypt_none : ∀ rng id plaintext, ∃ e, lib.groupEncrypt rng id none plaintext = .error e
  encrypt : ∀ {record chain iteration}, positions.Sends record chain iteration →
    ∀ rng id plaintext, ∃ ciphertext record',
      lib.groupEncrypt rng id (some record) plaintext = .ok (ciphertext, record') ∧
        lib.messageDistributionId ciphertext = .ok id ∧
        positions.Carries ciphertext chain iteration plaintext ∧
        positions.Sends record' chain (iteration + 1)
  process_none : ∀ {skdm chain iteration}, positions.Announces skdm chain iteration →
    ∃ record, lib.processSenderKeyDistributionMessage skdm none = .ok record ∧
      positions.Receives record chain iteration ∅
  decrypt : ∀ {record chain start used}, positions.Receives record chain start used →
    ∀ {ciphertext iteration plaintext}, positions.Carries ciphertext chain iteration plaintext →
      start ≤ iteration → iteration ∉ used → ∃ record',
        lib.groupDecrypt ciphertext (some record) = .ok (plaintext, record') ∧
          positions.Receives record' chain start (insert iteration used)

end Libraries

/-! ## Symbolic keys -/

/-- The record of one chain: the iteration it is at, whether it has the private signing
key, and which messages it has opened. -/
structure SymbolicRecord where
  chain : String × ℕ
  iteration : ℕ
  signs : Bool
  opened : Finset ℕ
deriving DecidableEq

structure SymbolicDistribution where
  id : UInt32
  chain : String × ℕ
  iteration : ℕ
deriving DecidableEq

inductive SymbolicBytes where
  | text (s : String)
  | distribution (skdm : SymbolicDistribution)
  | message (id : UInt32) (chain : String × ℕ) (iteration : ℕ) (plaintext : SymbolicBytes)
  | record (record : SymbolicRecord)
  | state (state : ExportedState SymbolicBytes)

@[reducible] def symbolic : Libraries where
  Bytes := SymbolicBytes
  Uuid := UInt32
  SenderKeyRecord := SymbolicRecord
  SenderKeyDistributionMessage := SymbolicDistribution
  Rng := String × ℕ
  newV5 name := UInt32.ofNat (leNat name)
  uuidToString id := String.ofList (Nat.toDigits 10 id.toNat)
  uuidParseStr s :=
    match Decimal.parse (2 ^ 32) s.toList with
    | some id => .ok (UInt32.ofNat id)
    | none => .error "invalid character"
  createSenderKeyDistributionMessage rng id record :=
    let record := record.getD ⟨rng, 0, true, ∅⟩
    (.ok ⟨id, record.chain, record.iteration⟩, some record)
  serialized := .distribution
  tryFrom
    | .distribution skdm => .ok skdm
    | _ => .error "protobuf encoding was invalid"
  distributionId skdm := .ok skdm.id
  processSenderKeyDistributionMessage skdm record :=
    .ok <| record.getD ⟨skdm.chain, skdm.iteration, false, ∅⟩
  groupEncrypt _ id record plaintext :=
    match record with
    | some record =>
        if record.signs then
          .ok (.message id record.chain record.iteration plaintext,
            { record with iteration := record.iteration + 1 })
        else .error "invalid sender key session"
    | none => .error "missing sender key state"
  messageDistributionId
    | .message id _ _ _ => .ok id
    | _ => .error "protobuf encoding was invalid"
  groupDecrypt ciphertext record :=
    match ciphertext, record with
    | .message _ chain iteration plaintext, some record =>
        if record.chain ≠ chain then .error "missing sender key state"
        else if iteration < record.iteration ∨ iteration ∈ record.opened then
          .error "message with old counter"
        else .ok (plaintext, { record with opened := insert iteration record.opened })
    | .message _ _ _ _, none => .error "missing sender key state"
    | _, _ => .error "protobuf encoding was invalid"
  serialize record := .ok (.record record)
  deserialize
    | .record record => .ok record
    | _ => .error "failed to decode protobuf"
  toVec state := .ok (.state state)
  fromSlice
    | .state state => .ok state
    | _ => .error "expected value"

namespace Symbolic

theorem faithful : symbolic.Faithful where
  channelDistributionId_inj := by
    intro a b h
    have ha := a.toNat_lt
    have hb := b.toNat_lt
    have hvalue : a.toNat % 2 ^ 32 = b.toNat % 2 ^ 32 := by
      simpa [Libraries.channelDistributionId, leNat_leBytes] using congrArg UInt32.toNat h
    apply UInt32.toNat_inj.mp
    omega
  uuid_roundTrip := by
    intro id
    have hid := id.toNat_lt
    simp [Decimal.parse_toDigits hid]
  tryFrom_serialized := fun _ => rfl
  record_roundTrip := by
    intro record bytes h
    cases h
    rfl
  state_roundTrip := fun state => ⟨.state state, rfl, rfl⟩
  decrypt_none := by
    intro ciphertext
    cases ciphertext <;> exact ⟨_, rfl⟩

def chains : symbolic.Chains where
  Chain := String × ℕ
  fresh rng := rng
  announced skdm := skdm.chain
  message
    | .message _ chain _ _ => some chain
    | _ => none
  Holds record chain := record.chain = chain
  Signs record chain := record.signs ∧ record.chain = chain

def positions : symbolic.Positions where
  Chain := String × ℕ
  fresh rng := rng
  Announces skdm chain iteration := skdm.chain = chain ∧ skdm.iteration = iteration
  Sends record chain iteration :=
    record.signs ∧ record.chain = chain ∧ record.iteration = iteration
  Receives record chain start used :=
    record.chain = chain ∧ record.iteration = start ∧ record.opened = used
  Carries ciphertext chain iteration plaintext :=
    ∃ id, ciphertext = .message id chain iteration plaintext

theorem groupEncrypt_ok {rng : String × ℕ} {id : UInt32} {record : Option SymbolicRecord}
    {plaintext ciphertext : SymbolicBytes} {record' : SymbolicRecord}
    (h : symbolic.groupEncrypt rng id record plaintext = .ok (ciphertext, record')) :
    ∃ before, record = some before ∧ before.signs = true ∧
      ciphertext = .message id before.chain before.iteration plaintext ∧
      record' = { before with iteration := before.iteration + 1 } := by
  cases record with
  | none => cases h
  | some before =>
      change (if before.signs then _ else _) = _ at h
      split at h
      next hsigns =>
        cases h
        exact ⟨before, rfl, hsigns, rfl, rfl⟩
      next => cases h

theorem groupDecrypt_ok {ciphertext : SymbolicBytes} {record : Option SymbolicRecord}
    {plaintext : SymbolicBytes} {record' : SymbolicRecord}
    (h : symbolic.groupDecrypt ciphertext record = .ok (plaintext, record')) :
    ∃ before id iteration, record = some before ∧
      ciphertext = .message id before.chain iteration plaintext ∧
      record' = { before with opened := insert iteration before.opened } := by
  cases ciphertext with
  | message id chain iteration inner =>
      cases record with
      | none => cases h
      | some before =>
          change (if before.chain ≠ chain then _ else _) = _ at h
          split at h
          next => cases h
          next hchain =>
            split at h
            next => cases h
            next =>
              cases h
              exact ⟨before, id, iteration, rfl, by rw [not_not.mp hchain], rfl⟩
  | text s => cases record <;> cases h
  | distribution skdm => cases record <;> cases h
  | record inner => cases record <;> cases h
  | state inner => cases record <;> cases h

theorem soundChains : symbolic.SoundChains chains where
  create_none := by
    intro rng id skdm record h
    cases h
    rfl
  record_create_none := by
    intro rng id result record chain h hchain
    cases h
    rcases hchain with hholds | hsigns
    · exact hholds.symm
    · exact hsigns.2.symm
  create_some := by
    intro rng id record skdm record' h
    cases h
    rfl
  record_create_some := by
    intro rng id record result record' h
    cases h
    rfl
  process_none := by
    intro skdm record h
    cases h
    exact ⟨fun chain hholds => hholds.symm, fun chain hsigns => Bool.noConfusion hsigns.1⟩
  encrypt := by
    intro rng id record plaintext ciphertext record' h
    obtain ⟨before, rfl, hsigns, rfl, rfl⟩ := groupEncrypt_ok h
    exact ⟨rfl, before, before.chain, rfl, ⟨hsigns, rfl⟩, rfl, fun _ h => h, fun _ h => h⟩
  decrypt := by
    intro ciphertext record plaintext record' h
    obtain ⟨before, id, iteration, rfl, rfl, rfl⟩ := groupDecrypt_ok h
    exact ⟨before, before.chain, rfl, rfl, rfl, fun _ h => h, fun _ h => h⟩

theorem completeChains : symbolic.CompleteChains positions where
  create_none := fun rng id =>
    ⟨⟨id, rng, 0⟩, ⟨rng, 0, true, ∅⟩, rfl, rfl, ⟨rfl, rfl⟩, ⟨rfl, rfl, rfl⟩⟩
  encrypt_none := fun _ _ _ => ⟨_, rfl⟩
  encrypt := by
    intro record chain iteration hsends rng id plaintext
    obtain ⟨hsigns, rfl, rfl⟩ := hsends
    refine ⟨.message id record.chain record.iteration plaintext,
      { record with iteration := record.iteration + 1 }, ?_, rfl, ⟨id, rfl⟩, hsigns, rfl, rfl⟩
    exact if_pos hsigns
  process_none := by
    intro skdm chain iteration hannounces
    obtain ⟨rfl, rfl⟩ := hannounces
    exact ⟨⟨skdm.chain, skdm.iteration, false, ∅⟩, rfl, rfl, rfl, rfl⟩
  decrypt := by
    intro record chain start used hreceives ciphertext iteration plaintext hcarries hstart hused
    obtain ⟨rfl, rfl, rfl⟩ := hreceives
    obtain ⟨id, rfl⟩ := hcarries
    refine ⟨{ record with opened := insert iteration record.opened }, ?_, rfl, rfl, rfl⟩
    have hfits : ¬(iteration < record.iteration ∨ iteration ∈ record.opened) := by
      rintro (hlt | hmem)
      · omega
      · exact hused hmem
    exact (if_neg fun h => h rfl).trans (if_neg hfits)

end Symbolic

end FancyMumble.Signal
