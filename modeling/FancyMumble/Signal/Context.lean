import FancyMumble.Lib.Grouping
import FancyMumble.Signal.Libraries

/-!
# The context of the Signal bridge

The sender keys of a client: its own ones and those of its peers, by channel, with the
operations on them and their state file.
-/

namespace FancyMumble.Signal

open Lib.Grouping

structure SignalBridgeCtx (lib : Libraries) where
  ourAddress : String
  records : AList fun _ : String × lib.Uuid => lib.SenderKeyRecord := ∅
  ourChannels : List UInt32 := []
  knownKeys : List (String × UInt32) := []
  initialDistributions : AList fun _ : lib.Uuid => lib.Bytes := ∅

namespace SignalBridgeCtx

variable {lib : Libraries}

def storeSenderKey (c : SignalBridgeCtx lib) (address : String) (id : lib.Uuid) :
    Option lib.SenderKeyRecord → SignalBridgeCtx lib
  | some record => { c with records := c.records.insert (address, id) record }
  | none => c

def loadSenderKey (c : SignalBridgeCtx lib) (address : String) (id : lib.Uuid) :
    Option lib.SenderKeyRecord :=
  c.records.lookup (address, id)

@[simp] theorem storeSenderKey_ourAddress (c : SignalBridgeCtx lib) (address : String)
    (id : lib.Uuid) (record : Option lib.SenderKeyRecord) :
    (c.storeSenderKey address id record).ourAddress = c.ourAddress := by
  cases record <;> rfl

@[simp] theorem storeSenderKey_knownKeys (c : SignalBridgeCtx lib) (address : String)
    (id : lib.Uuid) (record : Option lib.SenderKeyRecord) :
    (c.storeSenderKey address id record).knownKeys = c.knownKeys := by
  cases record <;> rfl

@[simp] theorem storeSenderKey_ourChannels (c : SignalBridgeCtx lib) (address : String)
    (id : lib.Uuid) (record : Option lib.SenderKeyRecord) :
    (c.storeSenderKey address id record).ourChannels = c.ourChannels := by
  cases record <;> rfl

@[simp] theorem storeSenderKey_initialDistributions (c : SignalBridgeCtx lib)
    (address : String) (id : lib.Uuid) (record : Option lib.SenderKeyRecord) :
    (c.storeSenderKey address id record).initialDistributions = c.initialDistributions := by
  cases record <;> rfl

theorem loadSenderKey_storeSenderKey (c : SignalBridgeCtx lib) (address a : String)
    (id i : lib.Uuid) (record : Option lib.SenderKeyRecord) :
    (c.storeSenderKey address id record).loadSenderKey a i =
      if a = address ∧ i = id then record.or (c.loadSenderKey a i)
      else c.loadSenderKey a i := by
  cases record with
  | none => simp [storeSenderKey]
  | some record =>
      by_cases hkey : a = address ∧ i = id
      · obtain ⟨rfl, rfl⟩ := hkey
        simp [storeSenderKey, loadSenderKey]
      · rw [if_neg hkey]
        exact AList.lookup_insert_ne fun h => hkey ⟨congrArg Prod.fst h, congrArg Prod.snd h⟩

/-! ## Operations -/

/-- `create_distribution`: the first distribution of a channel is kept and given out
again. -/
def createDistribution (rng : lib.Rng) (channelId : UInt32) (c : SignalBridgeCtx lib) :
    SignalBridgeCtx lib × Except String lib.Bytes :=
  let id := lib.channelDistributionId channelId
  match c.initialDistributions.lookup id with
  | some cached => ({ c with ourChannels := c.ourChannels.insert channelId }, .ok cached)
  | none =>
      match lib.createSenderKeyDistributionMessage rng id
          (c.loadSenderKey c.ourAddress id) with
      | (.error e, record) =>
          (c.storeSenderKey c.ourAddress id record, .error ("create_distribution: " ++ e))
      | (.ok skdm, record) =>
          let stored := c.storeSenderKey c.ourAddress id record
          let bytes := lib.serialized skdm
          ({ stored with
            initialDistributions := stored.initialDistributions.insert id bytes
            ourChannels := stored.ourChannels.insert channelId }, .ok bytes)

theorem createDistribution_cases (rng : lib.Rng) (channelId : UInt32) (c : SignalBridgeCtx lib) :
    (∃ cached, c.initialDistributions.lookup (lib.channelDistributionId channelId) = some cached ∧
      c.createDistribution rng channelId =
        ({ c with ourChannels := c.ourChannels.insert channelId }, .ok cached)) ∨
    (c.initialDistributions.lookup (lib.channelDistributionId channelId) = none ∧
      ∃ result record, lib.createSenderKeyDistributionMessage rng
          (lib.channelDistributionId channelId)
          (c.loadSenderKey c.ourAddress (lib.channelDistributionId channelId)) =
            (result, record) ∧
        ((∃ e, result = .error e ∧ c.createDistribution rng channelId =
            (c.storeSenderKey c.ourAddress (lib.channelDistributionId channelId) record,
              .error ("create_distribution: " ++ e))) ∨
          ∃ skdm, result = .ok skdm ∧ c.createDistribution rng channelId =
            ({ c.storeSenderKey c.ourAddress (lib.channelDistributionId channelId) record with
              initialDistributions := c.initialDistributions.insert
                (lib.channelDistributionId channelId) (lib.serialized skdm)
              ourChannels := c.ourChannels.insert channelId }, .ok (lib.serialized skdm)))) := by
  cases hcached : c.initialDistributions.lookup (lib.channelDistributionId channelId) with
  | some cached =>
      refine .inl ⟨cached, rfl, ?_⟩
      unfold createDistribution
      dsimp only
      rw [hcached]
  | none =>
      rcases hcreate : lib.createSenderKeyDistributionMessage rng
        (lib.channelDistributionId channelId)
        (c.loadSenderKey c.ourAddress (lib.channelDistributionId channelId)) with ⟨result, record⟩
      refine .inr ⟨rfl, result, record, rfl, ?_⟩
      unfold createDistribution
      dsimp only
      cases result with
      | error e =>
          refine .inl ⟨e, rfl, ?_⟩
          rw [hcached, hcreate]
      | ok skdm =>
          refine .inr ⟨skdm, rfl, ?_⟩
          rw [hcached, hcreate]
          dsimp only
          rw [storeSenderKey_initialDistributions, storeSenderKey_ourChannels]

/-- `process_distribution`: the record that the distribution is for is removed first. -/
def processDistribution (senderHash : String) (channelId : UInt32)
    (distributionBytes : lib.Bytes) (c : SignalBridgeCtx lib) :
    SignalBridgeCtx lib × Except String Unit :=
  match lib.tryFrom distributionBytes with
  | .error e => (c, .error ("parse distribution: " ++ e))
  | .ok skdm =>
      match lib.distributionId skdm with
      | .error e => (c, .error ("skdm distribution_id: " ++ e))
      | .ok id =>
          let cleared := { c with records := c.records.erase (senderHash, id) }
          match lib.processSenderKeyDistributionMessage skdm
              (cleared.loadSenderKey senderHash id) with
          | .error e => (cleared, .error ("process_distribution: " ++ e))
          | .ok record =>
              let stored := cleared.storeSenderKey senderHash id (some record)
              ({ stored with knownKeys := stored.knownKeys.insert (senderHash, channelId) },
                .ok ())

/-- An unreadable distribution changes nothing; a readable one replaces the record that it is for,
or only removes it. -/
theorem processDistribution_cases (senderHash : String) (channelId : UInt32)
    (distributionBytes : lib.Bytes) (c : SignalBridgeCtx lib) :
    (∃ e, c.processDistribution senderHash channelId distributionBytes = (c, .error e)) ∨
    ∃ skdm id, lib.tryFrom distributionBytes = .ok skdm ∧ lib.distributionId skdm = .ok id ∧
      ((∃ e, lib.processSenderKeyDistributionMessage skdm none = .error e ∧
          c.processDistribution senderHash channelId distributionBytes =
            ({ c with records := c.records.erase (senderHash, id) },
              .error ("process_distribution: " ++ e))) ∨
        ∃ record, lib.processSenderKeyDistributionMessage skdm none = .ok record ∧
          c.processDistribution senderHash channelId distributionBytes =
            ({ c with
              records := (c.records.erase (senderHash, id)).insert (senderHash, id) record
              knownKeys := c.knownKeys.insert (senderHash, channelId) }, .ok ())) := by
  unfold processDistribution
  cases hskdm : lib.tryFrom distributionBytes with
  | error e => exact .inl ⟨_, rfl⟩
  | ok skdm =>
      dsimp only
      cases hid : lib.distributionId skdm with
      | error e => exact .inl ⟨_, rfl⟩
      | ok id =>
          refine .inr ⟨skdm, id, rfl, hid, ?_⟩
          dsimp only
          have hnone : loadSenderKey { c with records := c.records.erase (senderHash, id) }
              senderHash id = none := AList.lookup_erase _ _
          rw [hnone]
          cases hprocess : lib.processSenderKeyDistributionMessage skdm none with
          | error e => exact .inl ⟨e, rfl, rfl⟩
          | ok record => exact .inr ⟨record, rfl, rfl⟩

theorem processDistribution_frame (senderHash : String) (channelId : UInt32)
    (distributionBytes : lib.Bytes) (c : SignalBridgeCtx lib) :
    let after := (c.processDistribution senderHash channelId distributionBytes).1
    after.ourAddress = c.ourAddress ∧ after.initialDistributions = c.initialDistributions ∧
      ∀ other ≠ senderHash, ∀ id, after.loadSenderKey other id = c.loadSenderKey other id := by
  rcases c.processDistribution_cases senderHash channelId distributionBytes with
    ⟨e, heq⟩ | ⟨skdm, i, -, -, ⟨e, -, heq⟩ | ⟨record, -, heq⟩⟩
  · rw [heq]
    exact ⟨rfl, rfl, fun _ _ _ => rfl⟩
  · rw [heq]
    refine ⟨rfl, rfl, fun other hother id => ?_⟩
    exact AList.lookup_erase_ne fun hkey => hother (congrArg Prod.fst hkey)
  · rw [heq]
    refine ⟨rfl, rfl, fun other hother id => ?_⟩
    have hne : (other, id) ≠ (senderHash, i) := fun hkey => hother (congrArg Prod.fst hkey)
    exact (AList.lookup_insert_ne hne).trans (AList.lookup_erase_ne hne)

def groupEncrypt (rng : lib.Rng) (channelId : UInt32) (plaintext : lib.Bytes)
    (c : SignalBridgeCtx lib) : SignalBridgeCtx lib × Except String lib.Bytes :=
  let id := lib.channelDistributionId channelId
  match lib.groupEncrypt rng id (c.loadSenderKey c.ourAddress id) plaintext with
  | .error e => (c, .error ("group_encrypt: " ++ e))
  | .ok (ciphertext, record) =>
      (c.storeSenderKey c.ourAddress id (some record), .ok ciphertext)

theorem groupEncrypt_cases (rng : lib.Rng) (channelId : UInt32) (plaintext : lib.Bytes)
    (c : SignalBridgeCtx lib) :
    (∃ e, c.groupEncrypt rng channelId plaintext = (c, .error e)) ∨
    ∃ ciphertext record,
      lib.groupEncrypt rng (lib.channelDistributionId channelId)
          (c.loadSenderKey c.ourAddress (lib.channelDistributionId channelId)) plaintext =
        .ok (ciphertext, record) ∧
      c.groupEncrypt rng channelId plaintext =
        (c.storeSenderKey c.ourAddress (lib.channelDistributionId channelId) (some record),
          .ok ciphertext) := by
  unfold groupEncrypt
  dsimp only
  cases hencrypt : lib.groupEncrypt rng (lib.channelDistributionId channelId)
      (c.loadSenderKey c.ourAddress (lib.channelDistributionId channelId)) plaintext with
  | error e => exact .inl ⟨_, rfl⟩
  | ok result => exact .inr ⟨result.1, result.2, rfl, rfl⟩

def groupDecrypt (senderHash : String) (_channelId : UInt32) (ciphertext : lib.Bytes)
    (c : SignalBridgeCtx lib) : SignalBridgeCtx lib × Except String lib.Bytes :=
  match lib.messageDistributionId ciphertext with
  | .error e => (c, .error ("group_decrypt: " ++ e))
  | .ok id =>
      match lib.groupDecrypt ciphertext (c.loadSenderKey senderHash id) with
      | .error e => (c, .error ("group_decrypt: " ++ e))
      | .ok (plaintext, record) =>
          (c.storeSenderKey senderHash id (some record), .ok plaintext)

theorem groupDecrypt_cases (senderHash : String) (channelId : UInt32) (ciphertext : lib.Bytes)
    (c : SignalBridgeCtx lib) :
    (∃ e, c.groupDecrypt senderHash channelId ciphertext = (c, .error e)) ∨
    ∃ id plaintext record, lib.messageDistributionId ciphertext = .ok id ∧
      lib.groupDecrypt ciphertext (c.loadSenderKey senderHash id) = .ok (plaintext, record) ∧
      c.groupDecrypt senderHash channelId ciphertext =
        (c.storeSenderKey senderHash id (some record), .ok plaintext) := by
  unfold groupDecrypt
  cases hid : lib.messageDistributionId ciphertext with
  | error e => exact .inl ⟨_, rfl⟩
  | ok id =>
      dsimp only
      cases hdecrypt : lib.groupDecrypt ciphertext (c.loadSenderKey senderHash id) with
      | error e => exact .inl ⟨_, rfl⟩
      | ok result => exact .inr ⟨id, result.1, result.2, rfl, hdecrypt, rfl⟩

theorem groupDecrypt_frame (senderHash : String) (channelId : UInt32) (ciphertext : lib.Bytes)
    (c : SignalBridgeCtx lib) :
    let after := (c.groupDecrypt senderHash channelId ciphertext).1
    after.ourAddress = c.ourAddress ∧ after.initialDistributions = c.initialDistributions ∧
      ∀ other ≠ senderHash, ∀ id, after.loadSenderKey other id = c.loadSenderKey other id := by
  rcases c.groupDecrypt_cases senderHash channelId ciphertext with
    ⟨e, heq⟩ | ⟨i, plaintext, record, -, -, heq⟩
  · rw [heq]
    exact ⟨rfl, rfl, fun _ _ _ => rfl⟩
  · rw [heq]
    refine ⟨rfl, rfl, fun other hother id => ?_⟩
    exact AList.lookup_insert_ne fun hkey => hother (congrArg Prod.fst hkey)

def hasKey (c : SignalBridgeCtx lib) (senderHash : String) (channelId : UInt32) : Bool :=
  (senderHash, channelId) ∈ c.knownKeys

def removeByDistribution (records : AList fun _ : String × lib.Uuid => lib.SenderKeyRecord)
    (id : lib.Uuid) : AList fun _ : String × lib.Uuid => lib.SenderKeyRecord :=
  ⟨records.entries.filter fun entry => entry.1.2 ≠ id,
    records.nodupKeys.sublist List.filter_sublist⟩

theorem lookup_removeByDistribution
    (records : AList fun _ : String × lib.Uuid => lib.SenderKeyRecord) (id : lib.Uuid)
    (key : String × lib.Uuid) :
    (removeByDistribution records id).lookup key =
      if key.2 = id then none else records.lookup key := by
  have hfilter := dlookup_filter (fun key : String × lib.Uuid => decide (key.2 ≠ id))
    records.entries key
  by_cases hid : key.2 = id
  · rw [if_pos hid]
    exact hfilter.trans (if_neg (by simp [hid]))
  · rw [if_neg hid]
    exact hfilter.trans (if_pos (by simp [hid]))

def removeChannel (channelId : UInt32) (c : SignalBridgeCtx lib) : SignalBridgeCtx lib :=
  let id := lib.channelDistributionId channelId
  { c with
    ourChannels := c.ourChannels.filter (· ≠ channelId)
    knownKeys := c.knownKeys.filter fun key => key.2 ≠ channelId
    initialDistributions := c.initialDistributions.erase id
    records := removeByDistribution c.records id }

/-! ## State files -/

def exportRecords : List ((_ : String × lib.Uuid) × lib.SenderKeyRecord) →
    Except String (List (ExportedSenderKeyRecord lib.Bytes))
  | [] => .ok []
  | entry :: rest =>
      match lib.serialize entry.2 with
      | .error e => .error ("serialize record: " ++ e)
      | .ok recordBytes =>
          match exportRecords rest with
          | .error e => .error e
          | .ok entries =>
              .ok (⟨entry.1.1, lib.uuidToString entry.1.2, recordBytes⟩ :: entries)

def exportState (order : HashOrder) (c : SignalBridgeCtx lib) : Except String lib.Bytes :=
  match exportRecords (order.visit c.records.entries) with
  | .error e => .error e
  | .ok entries =>
      match lib.toVec
        { ourAddress := c.ourAddress
          ourChannels := order.visit c.ourChannels
          knownKeys := (order.visit c.knownKeys).map fun key => ⟨key.1, key.2⟩
          senderKeyRecords := entries
          initialDistributions := (order.visit c.initialDistributions.entries).map fun entry =>
            ⟨lib.uuidToString entry.1, entry.2⟩ } with
      | .error e => .error ("export: " ++ e)
      | .ok data => .ok data

def importRecords (c : SignalBridgeCtx lib) :
    List (ExportedSenderKeyRecord lib.Bytes) → SignalBridgeCtx lib × Except String Unit
  | [] => (c, .ok ())
  | entry :: rest =>
      match lib.uuidParseStr entry.distributionId with
      | .error e => (c, .error ("bad uuid: " ++ e))
      | .ok id =>
          match lib.deserialize entry.recordBytes with
          | .error e => (c, .error ("bad record: " ++ e))
          | .ok record =>
              importRecords (c.storeSenderKey entry.senderHash id (some record)) rest

def importInitialDistributions (c : SignalBridgeCtx lib) :
    List (ExportedInitialDistribution lib.Bytes) → SignalBridgeCtx lib × Except String Unit
  | [] => (c, .ok ())
  | entry :: rest =>
      match lib.uuidParseStr entry.distributionId with
      | .error e => (c, .error ("bad initial dist uuid: " ++ e))
      | .ok id =>
          importInitialDistributions
            { c with
              initialDistributions := c.initialDistributions.insert id entry.skdmBytes } rest

def importState (data : lib.Bytes) (c : SignalBridgeCtx lib) :
    SignalBridgeCtx lib × Except String Unit :=
  match lib.fromSlice data with
  | .error e => (c, .error ("import: " ++ e))
  | .ok state =>
      let replaced := { c with
        ourChannels := state.ourChannels.dedup
        knownKeys :=
          (state.knownKeys.map fun entry : ExportedKeyEntry =>
            (entry.senderHash, entry.channelId)).dedup }
      match replaced.importRecords state.senderKeyRecords with
      | (stored, .error e) => (stored, .error e)
      | (stored, .ok ()) => stored.importInitialDistributions state.initialDistributions

theorem importRecords_of_exportRecords (hfaithful : lib.Faithful)
    {entries : List ((_ : String × lib.Uuid) × lib.SenderKeyRecord)}
    {exported : List (ExportedSenderKeyRecord lib.Bytes)}
    (h : exportRecords entries = .ok exported) (c : SignalBridgeCtx lib) :
    c.importRecords exported = ({ c with records := insertAll c.records entries }, .ok ()) := by
  induction entries generalizing exported c with
  | nil =>
      cases h
      rfl
  | cons entry entries ih =>
      unfold exportRecords at h
      split at h
      next => cases h
      next recordBytes hserialize =>
        split at h
        next => cases h
        next rest hrest =>
          cases h
          unfold importRecords
          rw [hfaithful.uuid_roundTrip, hfaithful.record_roundTrip _ _ hserialize]
          exact ih hrest _

theorem importInitialDistributions_listed (hfaithful : lib.Faithful)
    (entries : List ((_ : lib.Uuid) × lib.Bytes)) (c : SignalBridgeCtx lib) :
    c.importInitialDistributions
        (entries.map fun entry => ⟨lib.uuidToString entry.1, entry.2⟩) =
      ({ c with initialDistributions := insertAll c.initialDistributions entries }, .ok ()) := by
  induction entries generalizing c with
  | nil => rfl
  | cons entry entries ih =>
      rw [List.map_cons]
      unfold importInitialDistributions
      rw [hfaithful.uuid_roundTrip]
      exact ih _

def merge (order : HashOrder) (c exported : SignalBridgeCtx lib) : SignalBridgeCtx lib where
  ourAddress := c.ourAddress
  records := insertAll c.records (order.visit exported.records.entries)
  ourChannels := (order.visit exported.ourChannels).dedup
  knownKeys := (order.visit exported.knownKeys).dedup
  initialDistributions :=
    insertAll c.initialDistributions (order.visit exported.initialDistributions.entries)

theorem importState_of_error {data : lib.Bytes} {e : String} (h : lib.fromSlice data = .error e)
    (c : SignalBridgeCtx lib) : c.importState data = (c, .error ("import: " ++ e)) := by
  unfold importState
  rw [h]

theorem importState_of_exportState (hfaithful : lib.Faithful) {order : HashOrder}
    {exported : SignalBridgeCtx lib} {data : lib.Bytes}
    (h : exported.exportState order = .ok data) (c : SignalBridgeCtx lib) :
    c.importState data = (c.merge order exported, .ok ()) := by
  unfold exportState at h
  split at h
  next => cases h
  next entries hentries =>
    split at h
    next => cases h
    next hdata =>
      cases h
      unfold importState
      rw [hfaithful.fromSlice_of_toVec hdata]
      dsimp only
      rw [importRecords_of_exportRecords hfaithful hentries]
      dsimp only
      rw [importInitialDistributions_listed hfaithful, List.map_map]
      have hkeys : ((fun entry : ExportedKeyEntry => (entry.senderHash, entry.channelId)) ∘
          fun key : String × UInt32 => ⟨key.1, key.2⟩) = id := rfl
      rw [hkeys, List.map_id]
      rfl

theorem loadSenderKey_merge (order : HashOrder) (c exported : SignalBridgeCtx lib)
    (address : String) (id : lib.Uuid) :
    (c.merge order exported).loadSenderKey address id =
      (exported.loadSenderKey address id).or (c.loadSenderKey address id) :=
  lookup_insertAll_visit order c.records exported.records (address, id)

theorem lookup_initialDistributions_merge (order : HashOrder) (c exported : SignalBridgeCtx lib)
    (id : lib.Uuid) :
    (c.merge order exported).initialDistributions.lookup id =
      (exported.initialDistributions.lookup id).or (c.initialDistributions.lookup id) :=
  lookup_insertAll_visit order c.initialDistributions exported.initialDistributions id

theorem mem_knownKeys_merge {order : HashOrder} {c exported : SignalBridgeCtx lib}
    {key : String × UInt32} :
    key ∈ (c.merge order exported).knownKeys ↔ key ∈ exported.knownKeys := by
  rw [merge, List.mem_dedup, order.mem_visit]

theorem mem_ourChannels_merge {order : HashOrder} {c exported : SignalBridgeCtx lib}
    {channelId : UInt32} :
    channelId ∈ (c.merge order exported).ourChannels ↔ channelId ∈ exported.ourChannels := by
  rw [merge, List.mem_dedup, order.mem_visit]

end SignalBridgeCtx

/-! ## Calls -/

inductive Call (lib : Libraries) where
  | createDistribution (channelId : UInt32)
  | processDistribution (senderHash : String) (channelId : UInt32) (distributionBytes : lib.Bytes)
  | groupEncrypt (channelId : UInt32) (plaintext : lib.Bytes)
  | groupDecrypt (senderHash : String) (channelId : UInt32) (ciphertext : lib.Bytes)
  | hasKey (senderHash : String) (channelId : UInt32)
  | removeChannel (channelId : UInt32)
  | exportState (order : HashOrder)
  | importState (data : lib.Bytes)

inductive Output (lib : Libraries) where
  | bytes (result : Except String lib.Bytes)
  | done (result : Except String Unit)
  | known (b : Bool)
  | exported (result : Except String lib.Bytes)

namespace SignalBridgeCtx

variable {lib : Libraries}

def perform (rng : lib.Rng) (c : SignalBridgeCtx lib) :
    Call lib → SignalBridgeCtx lib × Output lib
  | .createDistribution channelId => (c.createDistribution rng channelId).map id .bytes
  | .processDistribution senderHash channelId distributionBytes =>
      (c.processDistribution senderHash channelId distributionBytes).map id .done
  | .groupEncrypt channelId plaintext => (c.groupEncrypt rng channelId plaintext).map id .bytes
  | .groupDecrypt senderHash channelId ciphertext =>
      (c.groupDecrypt senderHash channelId ciphertext).map id .bytes
  | .hasKey senderHash channelId => (c, .known (c.hasKey senderHash channelId))
  | .removeChannel channelId => (c.removeChannel channelId, .done (.ok ()))
  | .exportState order => (c, .exported (c.exportState order))
  | .importState data => (c.importState data).map id .done

end SignalBridgeCtx

end FancyMumble.Signal
