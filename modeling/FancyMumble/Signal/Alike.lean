import FancyMumble.Signal.Context

/-!
# Contexts that behave alike

Two contexts with the same keys and distributions, whatever the order in their maps, give
the same answers to every sequence of calls. The context that an exported state is imported
into is such a copy of the exported one.
-/

namespace FancyMumble.Signal

open Lib.Grouping

variable {lib : Libraries}

structure SignalBridgeCtx.Alike (c c' : SignalBridgeCtx lib) : Prop where
  ourAddress : c.ourAddress = c'.ourAddress
  records : ∀ address id, c.loadSenderKey address id = c'.loadSenderKey address id
  ourChannels : ∀ channelId, channelId ∈ c.ourChannels ↔ channelId ∈ c'.ourChannels
  knownKeys : ∀ key, key ∈ c.knownKeys ↔ key ∈ c'.knownKeys
  initialDistributions : ∀ id,
    c.initialDistributions.lookup id = c'.initialDistributions.lookup id

/-- The results are equal; state files differ at most in the order of their entries, so
that importing them has the same effect. -/
def Output.Alike : Output lib → Output lib → Prop
  | .exported (.ok data), .exported (.ok data') => ∀ c : SignalBridgeCtx lib,
      (c.importState data).2 = (c.importState data').2 ∧
        (c.importState data).1.Alike (c.importState data').1
  | .exported (.error _), .exported (.error _) => True
  | output, output' => output = output'

namespace SignalBridgeCtx

def answers (c : SignalBridgeCtx lib) : List (lib.Rng × Call lib) → List (Output lib)
  | [] => []
  | (rng, call) :: calls =>
      (c.perform rng call).2 :: (c.perform rng call).1.answers calls

namespace Alike

variable {c c' : SignalBridgeCtx lib}

theorem storeSenderKey (h : c.Alike c') (address : String) (id : lib.Uuid)
    (record : Option lib.SenderKeyRecord) :
    (c.storeSenderKey address id record).Alike (c'.storeSenderKey address id record) where
  ourAddress := by simpa using h.ourAddress
  records := by
    intro a i
    rw [loadSenderKey_storeSenderKey, loadSenderKey_storeSenderKey, h.records]
  ourChannels := by simpa using h.ourChannels
  knownKeys := by simpa using h.knownKeys
  initialDistributions := by simpa using h.initialDistributions

theorem storeOwn (h : c.Alike c') (id : lib.Uuid) (record : Option lib.SenderKeyRecord) :
    (c.storeSenderKey c.ourAddress id record).Alike
      (c'.storeSenderKey c'.ourAddress id record) := by
  rw [← h.ourAddress]
  exact h.storeSenderKey c.ourAddress id record

theorem loadOwn (h : c.Alike c') (id : lib.Uuid) :
    c'.loadSenderKey c'.ourAddress id = c.loadSenderKey c.ourAddress id := by
  rw [← h.ourAddress, h.records]

theorem insertOurChannel (h : c.Alike c') (channelId : UInt32) :
    ({ c with ourChannels := c.ourChannels.insert channelId } : SignalBridgeCtx lib).Alike
      { c' with ourChannels := c'.ourChannels.insert channelId } where
  ourAddress := h.ourAddress
  records := h.records
  ourChannels := by
    intro channel
    simp only [List.mem_insert_iff, h.ourChannels]
  knownKeys := h.knownKeys
  initialDistributions := h.initialDistributions

theorem insertKnownKey (h : c.Alike c') (key : String × UInt32) :
    ({ c with knownKeys := c.knownKeys.insert key } : SignalBridgeCtx lib).Alike
      { c' with knownKeys := c'.knownKeys.insert key } where
  ourAddress := h.ourAddress
  records := h.records
  ourChannels := h.ourChannels
  knownKeys := by
    intro known
    simp only [List.mem_insert_iff, h.knownKeys]
  initialDistributions := h.initialDistributions

theorem insertInitialDistribution (h : c.Alike c') (id : lib.Uuid) (bytes : lib.Bytes) :
    ({ c with initialDistributions := c.initialDistributions.insert id bytes } :
      SignalBridgeCtx lib).Alike
      { c' with initialDistributions := c'.initialDistributions.insert id bytes } where
  ourAddress := h.ourAddress
  records := h.records
  ourChannels := h.ourChannels
  knownKeys := h.knownKeys
  initialDistributions := by
    intro i
    by_cases hi : i = id
    · subst hi
      rw [AList.lookup_insert, AList.lookup_insert]
    · rw [AList.lookup_insert_ne hi, AList.lookup_insert_ne hi, h.initialDistributions]

theorem eraseSenderKey (h : c.Alike c') (key : String × lib.Uuid) :
    ({ c with records := c.records.erase key } : SignalBridgeCtx lib).Alike
      { c' with records := c'.records.erase key } where
  ourAddress := h.ourAddress
  records := by
    intro a i
    by_cases hkey : (a, i) = key
    · subst hkey
      have hnone := AList.lookup_erase (a, i) c.records
      have hnone' := AList.lookup_erase (a, i) c'.records
      exact hnone.trans hnone'.symm
    · calc
        (c.records.erase key).lookup (a, i) = c.records.lookup (a, i) :=
          AList.lookup_erase_ne hkey
        _ = c'.records.lookup (a, i) := h.records a i
        _ = (c'.records.erase key).lookup (a, i) := (AList.lookup_erase_ne hkey).symm
  ourChannels := h.ourChannels
  knownKeys := h.knownKeys
  initialDistributions := h.initialDistributions

/-! ## Calls -/

theorem createDistribution (h : c.Alike c') (rng : lib.Rng) (channelId : UInt32) :
    (c.createDistribution rng channelId).2 = (c'.createDistribution rng channelId).2 ∧
      (c.createDistribution rng channelId).1.Alike (c'.createDistribution rng channelId).1 := by
  unfold SignalBridgeCtx.createDistribution
  dsimp only
  rw [h.loadOwn, ← h.initialDistributions]
  split
  next cached => exact ⟨rfl, h.insertOurChannel channelId⟩
  next =>
    split
    next e record _ => exact ⟨rfl, h.storeOwn _ record⟩
    next skdm record _ =>
      have hstored := h.storeOwn (lib.channelDistributionId channelId) record
      exact ⟨rfl, (hstored.insertInitialDistribution _ (lib.serialized skdm)).insertOurChannel
        channelId⟩

theorem processDistribution (h : c.Alike c') (senderHash : String) (channelId : UInt32)
    (bytes : lib.Bytes) :
    (c.processDistribution senderHash channelId bytes).2 =
        (c'.processDistribution senderHash channelId bytes).2 ∧
      (c.processDistribution senderHash channelId bytes).1.Alike
        (c'.processDistribution senderHash channelId bytes).1 := by
  unfold SignalBridgeCtx.processDistribution
  split
  next => exact ⟨rfl, h⟩
  next skdm _ =>
    split
    next => exact ⟨rfl, h⟩
    next id _ =>
      have herased := h.eraseSenderKey (senderHash, id)
      dsimp only
      rw [← herased.records senderHash id]
      split
      next => exact ⟨rfl, herased⟩
      next record _ =>
        exact ⟨rfl, (herased.storeSenderKey senderHash id (some record)).insertKnownKey _⟩

theorem groupEncrypt (h : c.Alike c') (rng : lib.Rng) (channelId : UInt32)
    (plaintext : lib.Bytes) :
    (c.groupEncrypt rng channelId plaintext).2 = (c'.groupEncrypt rng channelId plaintext).2 ∧
      (c.groupEncrypt rng channelId plaintext).1.Alike
        (c'.groupEncrypt rng channelId plaintext).1 := by
  unfold SignalBridgeCtx.groupEncrypt
  dsimp only
  rw [h.loadOwn]
  split
  next => exact ⟨rfl, h⟩
  next ciphertext record _ => exact ⟨rfl, h.storeOwn _ (some record)⟩

theorem groupDecrypt (h : c.Alike c') (senderHash : String) (channelId : UInt32)
    (ciphertext : lib.Bytes) :
    (c.groupDecrypt senderHash channelId ciphertext).2 =
        (c'.groupDecrypt senderHash channelId ciphertext).2 ∧
      (c.groupDecrypt senderHash channelId ciphertext).1.Alike
        (c'.groupDecrypt senderHash channelId ciphertext).1 := by
  unfold SignalBridgeCtx.groupDecrypt
  split
  next => exact ⟨rfl, h⟩
  next id _ =>
    rw [← h.records]
    split
    next => exact ⟨rfl, h⟩
    next plaintext record _ => exact ⟨rfl, h.storeSenderKey senderHash id (some record)⟩

theorem hasKey (h : c.Alike c') (senderHash : String) (channelId : UInt32) :
    c.hasKey senderHash channelId = c'.hasKey senderHash channelId := by
  unfold SignalBridgeCtx.hasKey
  exact decide_eq_decide.mpr (h.knownKeys _)

theorem removeChannel (h : c.Alike c') (channelId : UInt32) :
    (c.removeChannel channelId).Alike (c'.removeChannel channelId) where
  ourAddress := h.ourAddress
  records := by
    intro a i
    have hlookup :=
      lookup_removeByDistribution c.records (lib.channelDistributionId channelId) (a, i)
    have hlookup' :=
      lookup_removeByDistribution c'.records (lib.channelDistributionId channelId) (a, i)
    have hsame : c.records.lookup (a, i) = c'.records.lookup (a, i) := h.records a i
    rw [hsame] at hlookup
    exact hlookup.trans hlookup'.symm
  ourChannels := by
    intro channel
    simp only [SignalBridgeCtx.removeChannel, List.mem_filter, h.ourChannels]
  knownKeys := by
    intro key
    simp only [SignalBridgeCtx.removeChannel, List.mem_filter, h.knownKeys]
  initialDistributions := by
    intro i
    simp only [SignalBridgeCtx.removeChannel]
    by_cases hi : i = lib.channelDistributionId channelId
    · subst hi
      rw [AList.lookup_erase, AList.lookup_erase]
    · rw [AList.lookup_erase_ne hi, AList.lookup_erase_ne hi, h.initialDistributions]

/-! ## State files -/

theorem importRecords (h : c.Alike c')
    (entries : List (ExportedSenderKeyRecord lib.Bytes)) :
    (c.importRecords entries).2 = (c'.importRecords entries).2 ∧
      (c.importRecords entries).1.Alike (c'.importRecords entries).1 := by
  induction entries generalizing c c' with
  | nil => exact ⟨rfl, h⟩
  | cons entry entries ih =>
      unfold SignalBridgeCtx.importRecords
      split
      next => exact ⟨rfl, h⟩
      next id _ =>
        split
        next => exact ⟨rfl, h⟩
        next record _ => exact ih (h.storeSenderKey entry.senderHash id (some record))

theorem importInitialDistributions (h : c.Alike c')
    (entries : List (ExportedInitialDistribution lib.Bytes)) :
    (c.importInitialDistributions entries).2 = (c'.importInitialDistributions entries).2 ∧
      (c.importInitialDistributions entries).1.Alike
        (c'.importInitialDistributions entries).1 := by
  induction entries generalizing c c' with
  | nil => exact ⟨rfl, h⟩
  | cons entry entries ih =>
      unfold SignalBridgeCtx.importInitialDistributions
      split
      next => exact ⟨rfl, h⟩
      next id _ => exact ih (h.insertInitialDistribution id entry.skdmBytes)

theorem importState (h : c.Alike c') (data : lib.Bytes) :
    (c.importState data).2 = (c'.importState data).2 ∧
      (c.importState data).1.Alike (c'.importState data).1 := by
  unfold SignalBridgeCtx.importState
  split
  next => exact ⟨rfl, h⟩
  next state _ =>
    dsimp only
    have hreplaced : Alike
        { c with
          ourChannels := state.ourChannels.dedup
          knownKeys :=
            (state.knownKeys.map fun entry : ExportedKeyEntry =>
              (entry.senderHash, entry.channelId)).dedup }
        { c' with
          ourChannels := state.ourChannels.dedup
          knownKeys :=
            (state.knownKeys.map fun entry : ExportedKeyEntry =>
              (entry.senderHash, entry.channelId)).dedup } :=
      ⟨h.ourAddress, h.records, fun _ => Iff.rfl, fun _ => Iff.rfl, h.initialDistributions⟩
    obtain ⟨hresult, hstored⟩ := hreplaced.importRecords state.senderKeyRecords
    split
    next stored e hfirst =>
      rw [hfirst] at hresult hstored
      split
      next stored' e' hsecond =>
        rw [hsecond] at hresult hstored
        exact ⟨hresult, hstored⟩
      next stored' hsecond =>
        rw [hsecond] at hresult
        cases hresult
    next stored hfirst =>
      rw [hfirst] at hresult hstored
      split
      next stored' e' hsecond =>
        rw [hsecond] at hresult
        cases hresult
      next stored' hsecond =>
        rw [hsecond] at hstored
        exact hstored.importInitialDistributions state.initialDistributions

/-- The state of a context can be exported if all its records can be written. -/
theorem exists_exportState_iff (hfaithful : lib.Faithful) (order : HashOrder)
    (c : SignalBridgeCtx lib) :
    (∃ data, c.exportState order = .ok data) ↔
      ∀ address id, ∀ record ∈ c.loadSenderKey address id,
        ∃ bytes, lib.serialize record = .ok bytes := by
  have hentries : ∀ entries : List ((_ : String × lib.Uuid) × lib.SenderKeyRecord),
      (∃ exported, exportRecords entries = .ok exported) ↔
        ∀ entry ∈ entries, ∃ bytes, lib.serialize entry.2 = .ok bytes := by
    intro entries
    induction entries with
    | nil => exact ⟨fun _ _ h => absurd h List.not_mem_nil, fun _ => ⟨[], rfl⟩⟩
    | cons entry entries ih =>
        rw [List.forall_mem_cons, ← ih, exportRecords]
        cases lib.serialize entry.2 with
        | error e => simp
        | ok bytes => cases hrest : exportRecords entries <;> simp
  have hwritten : (∃ data, c.exportState order = .ok data) ↔
      ∃ exported, exportRecords (order.visit c.records.entries) = .ok exported := by
    unfold exportState
    cases exportRecords (order.visit c.records.entries) with
    | error e => simp
    | ok exported =>
        refine ⟨fun _ => ⟨exported, rfl⟩, fun _ => ?_⟩
        dsimp only
        obtain ⟨data, hdata, -⟩ := hfaithful.state_roundTrip
          { ourAddress := c.ourAddress
            ourChannels := order.visit c.ourChannels
            knownKeys := (order.visit c.knownKeys).map fun key => ⟨key.1, key.2⟩
            senderKeyRecords := exported
            initialDistributions := (order.visit c.initialDistributions.entries).map fun entry =>
              ⟨lib.uuidToString entry.1, entry.2⟩ }
        exact ⟨data, by rw [hdata]⟩
  rw [hwritten, hentries]
  constructor
  · intro h address id record hrecord
    exact h ⟨(address, id), record⟩ (order.mem_visit.mpr (AList.mem_lookup_iff.mp hrecord))
  · intro h entry hentry
    exact h entry.1.1 entry.1.2 entry.2 (AList.mem_lookup_iff.mpr (order.mem_visit.mp hentry))

theorem merge {exported exported' : SignalBridgeCtx lib} (h : exported.Alike exported')
    (order order' : HashOrder) (c : SignalBridgeCtx lib) :
    (c.merge order exported).Alike (c.merge order' exported') where
  ourAddress := rfl
  records := by
    intro a i
    rw [loadSenderKey_merge, loadSenderKey_merge, h.records]
  ourChannels := by
    intro channel
    rw [mem_ourChannels_merge, mem_ourChannels_merge, h.ourChannels]
  knownKeys := by
    intro key
    rw [mem_knownKeys_merge, mem_knownKeys_merge, h.knownKeys]
  initialDistributions := by
    intro i
    rw [lookup_initialDistributions_merge, lookup_initialDistributions_merge,
      h.initialDistributions]

theorem exportState (hfaithful : lib.Faithful) (h : c.Alike c') (order : HashOrder) :
    (Output.exported (c.exportState order)).Alike (.exported (c'.exportState order)) := by
  have hiff :
      (∃ data, c.exportState order = .ok data) ↔ ∃ data, c'.exportState order = .ok data := by
    rw [exists_exportState_iff hfaithful, exists_exportState_iff hfaithful]
    simp only [h.records]
  cases hdata : c.exportState order with
  | error e =>
      cases hdata' : c'.exportState order with
      | error e' => trivial
      | ok data' =>
          obtain ⟨data, hok⟩ := hiff.mpr ⟨data', hdata'⟩
          cases hok.symm.trans hdata
  | ok data =>
      cases hdata' : c'.exportState order with
      | error e' =>
          obtain ⟨data', hok⟩ := hiff.mp ⟨data, hdata⟩
          cases hok.symm.trans hdata'
      | ok data' =>
          intro other
          rw [importState_of_exportState hfaithful hdata,
            importState_of_exportState hfaithful hdata']
          exact ⟨rfl, h.merge order order other⟩

/-! ## Sequences of calls -/

theorem perform (hfaithful : lib.Faithful) (h : c.Alike c') (rng : lib.Rng) (call : Call lib) :
    (c.perform rng call).2.Alike (c'.perform rng call).2 ∧
      (c.perform rng call).1.Alike (c'.perform rng call).1 := by
  cases call with
  | createDistribution channelId =>
      obtain ⟨hresult, hstate⟩ := h.createDistribution rng channelId
      exact ⟨congrArg Output.bytes hresult, hstate⟩
  | processDistribution senderHash channelId bytes =>
      obtain ⟨hresult, hstate⟩ := h.processDistribution senderHash channelId bytes
      exact ⟨congrArg Output.done hresult, hstate⟩
  | groupEncrypt channelId plaintext =>
      obtain ⟨hresult, hstate⟩ := h.groupEncrypt rng channelId plaintext
      exact ⟨congrArg Output.bytes hresult, hstate⟩
  | groupDecrypt senderHash channelId ciphertext =>
      obtain ⟨hresult, hstate⟩ := h.groupDecrypt senderHash channelId ciphertext
      exact ⟨congrArg Output.bytes hresult, hstate⟩
  | hasKey senderHash channelId =>
      exact ⟨congrArg Output.known (h.hasKey senderHash channelId), h⟩
  | removeChannel channelId => exact ⟨rfl, h.removeChannel channelId⟩
  | exportState order => exact ⟨h.exportState hfaithful order, h⟩
  | importState data =>
      obtain ⟨hresult, hstate⟩ := h.importState data
      exact ⟨congrArg Output.done hresult, hstate⟩

theorem answers (hfaithful : lib.Faithful) (h : c.Alike c')
    (calls : List (lib.Rng × Call lib)) :
    List.Forall₂ Output.Alike (c.answers calls) (c'.answers calls) := by
  induction calls generalizing c c' with
  | nil => exact .nil
  | cons call calls ih =>
      obtain ⟨hanswer, hstate⟩ := h.perform hfaithful call.1 call.2
      exact .cons hanswer (ih hstate)

theorem merge_new (order : HashOrder) (c : SignalBridgeCtx lib) :
    (SignalBridgeCtx.merge order { ourAddress := c.ourAddress } c).Alike c where
  ourAddress := rfl
  records := by
    intro a i
    rw [loadSenderKey_merge]
    exact Option.or_none
  ourChannels := fun _ => mem_ourChannels_merge
  knownKeys := fun _ => mem_knownKeys_merge
  initialDistributions := by
    intro i
    rw [lookup_initialDistributions_merge]
    exact Option.or_none

end Alike

end SignalBridgeCtx

end FancyMumble.Signal
