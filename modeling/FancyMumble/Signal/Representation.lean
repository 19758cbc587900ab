import FancyMumble.Lib.Runs
import FancyMumble.Signal.Alike

/-!
# Known keys and stored records

The set of known keys stands for the records of the peers. What keeps the two together,
what a failed call leaves behind, and that an exported state is as good as the context.
-/

namespace FancyMumble.Signal

open Lib.Grouping Lib.Runs

namespace SignalBridgeCtx

variable {lib : Libraries}

/-- The key of a peer for a channel is known if and only if there is a record of it. -/
def Represented (c : SignalBridgeCtx lib) : Prop :=
  ∀ peer ≠ c.ourAddress, ∀ channelId, c.hasKey peer channelId = true ↔
    (c.loadSenderKey peer (lib.channelDistributionId channelId)).isSome

def UnchangedOnError (c : SignalBridgeCtx lib) : Call lib → Prop
  | .processDistribution senderHash channelId bytes =>
      ∀ e, (c.processDistribution senderHash channelId bytes).2 = .error e →
        (c.processDistribution senderHash channelId bytes).1 = c
  | .importState data => ∀ e, (c.importState data).2 = .error e → (c.importState data).1 = c
  | _ => True

/-- A readable distribution is processed, and one of a peer has the id of the channel that
it comes with. A readable state was exported by a context of the same address in which the
known keys stand for the records, and has all the peers' records of this one. -/
def Matched (c : SignalBridgeCtx lib) : Call lib → Prop
  | .processDistribution senderHash channelId bytes =>
      ∀ skdm id, lib.tryFrom bytes = .ok skdm → lib.distributionId skdm = .ok id →
        (∃ record, lib.processSenderKeyDistributionMessage skdm none = .ok record) ∧
          (senderHash ≠ c.ourAddress → id = lib.channelDistributionId channelId)
  | .importState data =>
      (∃ e, lib.fromSlice data = .error e) ∨
        ∃ order, ∃ exported : SignalBridgeCtx lib,
          exported.exportState order = .ok data ∧ exported.Represented ∧
          exported.ourAddress = c.ourAddress ∧
          ∀ peer ≠ c.ourAddress, ∀ channelId,
            (c.loadSenderKey peer (lib.channelDistributionId channelId)).isSome →
              (exported.loadSenderKey peer (lib.channelDistributionId channelId)).isSome
  | _ => True

def after (c : SignalBridgeCtx lib) (call : lib.Rng × Call lib) : SignalBridgeCtx lib :=
  (c.perform call.1 call.2).1

/-! ## What the calls keep -/

theorem represented_new (address : String) :
    Represented ({ ourAddress := address } : SignalBridgeCtx lib) := by
  intro peer _ channelId
  simp [hasKey, loadSenderKey]

theorem Represented.congr {c c' : SignalBridgeCtx lib} (h : c.Represented)
    (haddress : c'.ourAddress = c.ourAddress) (hknown : c'.knownKeys = c.knownKeys)
    (hrecords : ∀ peer ≠ c.ourAddress, ∀ id,
      (c'.loadSenderKey peer id).isSome = (c.loadSenderKey peer id).isSome) :
    c'.Represented := by
  intro peer hpeer channelId
  rw [haddress] at hpeer
  rw [hrecords peer hpeer, ← h peer hpeer channelId, hasKey, hasKey, hknown]

theorem Represented.storeOwn {c : SignalBridgeCtx lib} (h : c.Represented) (id : lib.Uuid)
    (record : Option lib.SenderKeyRecord) :
    (c.storeSenderKey c.ourAddress id record).Represented := by
  refine h.congr (storeSenderKey_ourAddress ..) (storeSenderKey_knownKeys ..) fun peer hpeer i => ?_
  rw [loadSenderKey_storeSenderKey, if_neg fun hkey => hpeer hkey.1]

theorem Represented.replace {c : SignalBridgeCtx lib} (h : c.Represented) {address : String}
    {id : lib.Uuid} {before : lib.SenderKeyRecord}
    (hbefore : c.loadSenderKey address id = some before)
    (record : lib.SenderKeyRecord) : (c.storeSenderKey address id (some record)).Represented := by
  refine h.congr (storeSenderKey_ourAddress ..) (storeSenderKey_knownKeys ..) fun peer hpeer i => ?_
  rw [loadSenderKey_storeSenderKey]
  split
  next hkey =>
    rw [hkey.1, hkey.2, hbefore]
    rfl
  next => rfl

theorem Represented.createDistribution {c : SignalBridgeCtx lib} (h : c.Represented)
    (rng : lib.Rng) (channelId : UInt32) : (c.createDistribution rng channelId).1.Represented := by
  rcases c.createDistribution_cases rng channelId with
    ⟨cached, -, heq⟩ | ⟨-, result, record, -, ⟨e, -, heq⟩ | ⟨skdm, -, heq⟩⟩
  · rw [heq]
    exact h.congr rfl rfl fun _ _ _ => rfl
  · rw [heq]
    exact h.storeOwn _ record
  · rw [heq]
    exact (h.storeOwn (lib.channelDistributionId channelId) record).congr rfl rfl
      fun _ _ _ => rfl

/-- A matched distribution makes its key known and puts its record in place. -/
theorem Represented.processDistribution {c : SignalBridgeCtx lib} (hfaithful : lib.Faithful)
    (h : c.Represented) {senderHash : String} {channelId : UInt32} {bytes : lib.Bytes}
    (hmatched : c.Matched (.processDistribution senderHash channelId bytes)) :
    (c.processDistribution senderHash channelId bytes).1.Represented := by
  rcases c.processDistribution_cases senderHash channelId bytes with
    ⟨e, heq⟩ | ⟨skdm, id, hskdm, hid, hprocess⟩
  · rw [heq]
    exact h
  · obtain ⟨hok, hsame⟩ := hmatched skdm id hskdm hid
    rcases hprocess with ⟨e, herror, -⟩ | ⟨record, -, heq⟩
    · obtain ⟨record, hrecord⟩ := hok
      cases hrecord.symm.trans herror
    · rw [heq]
      intro peer hpeer channel
      have hrecords : ∀ i, loadSenderKey { c with
          records := (c.records.erase (senderHash, id)).insert (senderHash, id) record
          knownKeys := c.knownKeys.insert (senderHash, channelId) } peer i =
            if peer = senderHash ∧ i = id then some record else c.loadSenderKey peer i := by
        intro i
        split
        next hkey =>
          rw [hkey.1, hkey.2]
          exact AList.lookup_insert _
        next hkey =>
          have hne : (peer, i) ≠ (senderHash, id) := fun h =>
            hkey ⟨congrArg Prod.fst h, congrArg Prod.snd h⟩
          exact (AList.lookup_insert_ne hne).trans (AList.lookup_erase_ne hne)
      rw [hrecords]
      have hknown := h peer hpeer channel
      by_cases hnew : peer = senderHash ∧ channel = channelId
      · have hid' : lib.channelDistributionId channel = id := by
          rw [hnew.2, hsame (hnew.1 ▸ hpeer)]
        have hmem : (peer, channel) ∈ c.knownKeys.insert (senderHash, channelId) := by
          rw [hnew.1, hnew.2]
          exact List.mem_insert_self
        rw [if_pos ⟨hnew.1, hid'⟩]
        exact ⟨fun _ => rfl, fun _ => decide_eq_true hmem⟩
      · have hne : ¬(peer = senderHash ∧ lib.channelDistributionId channel = id) := by
          intro hkey
          refine hnew ⟨hkey.1, hfaithful.channelDistributionId_inj ?_⟩
          rw [hkey.2, hsame (hkey.1 ▸ hpeer)]
        rw [if_neg hne, ← hknown]
        simp only [hasKey, decide_eq_true_eq, List.mem_insert_iff, Prod.mk.injEq]
        exact or_iff_right hnew

theorem Represented.removeChannel {c : SignalBridgeCtx lib} (hfaithful : lib.Faithful)
    (h : c.Represented) (channelId : UInt32) : (c.removeChannel channelId).Represented := by
  intro peer hpeer channel
  have hrecord := lookup_removeByDistribution c.records (lib.channelDistributionId channelId)
    (peer, lib.channelDistributionId channel)
  change (c.removeChannel channelId).loadSenderKey peer (lib.channelDistributionId channel) =
    _ at hrecord
  rw [hrecord]
  by_cases hsame : channel = channelId
  · simp [hasKey, SignalBridgeCtx.removeChannel, hsame]
  · rw [if_neg (hfaithful.channelDistributionId_inj.ne hsame)]
    simpa [hasKey, SignalBridgeCtx.removeChannel, hsame, loadSenderKey] using
      h peer hpeer channel

theorem Represented.merge {c exported : SignalBridgeCtx lib} (h : exported.Represented)
    (order : HashOrder) (haddress : exported.ourAddress = c.ourAddress)
    (hrecords : ∀ peer ≠ c.ourAddress, ∀ channelId,
      (c.loadSenderKey peer (lib.channelDistributionId channelId)).isSome →
        (exported.loadSenderKey peer (lib.channelDistributionId channelId)).isSome) :
    (c.merge order exported).Represented := by
  intro peer hpeer channelId
  have hknown := h peer (haddress ▸ hpeer) channelId
  rw [loadSenderKey_merge]
  simp only [hasKey, decide_eq_true_eq] at hknown ⊢
  rw [mem_knownKeys_merge, hknown, Option.isSome_or, Bool.or_eq_true]
  exact (or_iff_left_of_imp (hrecords peer hpeer channelId)).symm

theorem Represented.after {c : SignalBridgeCtx lib} (hfaithful : lib.Faithful)
    (h : c.Represented) {call : lib.Rng × Call lib} (hmatched : c.Matched call.2) :
    (c.after call).Represented := by
  obtain ⟨rng, call⟩ := call
  cases call with
  | createDistribution channelId => exact h.createDistribution rng channelId
  | processDistribution senderHash channelId bytes =>
      exact h.processDistribution hfaithful hmatched
  | groupEncrypt channelId plaintext =>
      rcases c.groupEncrypt_cases rng channelId plaintext with
        ⟨e, heq⟩ | ⟨ciphertext, record, -, heq⟩
      · change (c.groupEncrypt rng channelId plaintext).1.Represented
        rw [heq]
        exact h
      · change (c.groupEncrypt rng channelId plaintext).1.Represented
        rw [heq]
        exact h.storeOwn _ (some record)
  | groupDecrypt senderHash channelId ciphertext =>
      rcases c.groupDecrypt_cases senderHash channelId ciphertext with
        ⟨e, heq⟩ | ⟨id, plaintext, record, -, hdecrypt, heq⟩
      · change (c.groupDecrypt senderHash channelId ciphertext).1.Represented
        rw [heq]
        exact h
      · change (c.groupDecrypt senderHash channelId ciphertext).1.Represented
        rw [heq]
        cases hbefore : c.loadSenderKey senderHash id with
        | none =>
            obtain ⟨e, herror⟩ := hfaithful.decrypt_none ciphertext
            rw [hbefore, herror] at hdecrypt
            cases hdecrypt
        | some before => exact h.replace hbefore record
  | hasKey senderHash channelId => exact h
  | removeChannel channelId => exact h.removeChannel hfaithful channelId
  | exportState order => exact h
  | importState data =>
      rcases hmatched with ⟨e, herror⟩ | ⟨order, exported, hdata, hexported, haddress, hrecords⟩
      · change (c.importState data).1.Represented
        rw [importState_of_error herror]
        exact h
      · change (c.importState data).1.Represented
        rw [importState_of_exportState hfaithful hdata]
        exact hexported.merge order haddress hrecords

theorem unchangedOnError_of_matched {c : SignalBridgeCtx lib} (hfaithful : lib.Faithful)
    {call : Call lib} (hmatched : c.Matched call) : c.UnchangedOnError call := by
  cases call with
  | processDistribution senderHash channelId bytes =>
      intro e he
      rcases c.processDistribution_cases senderHash channelId bytes with
        ⟨e', heq⟩ | ⟨skdm, id, hskdm, hid, ⟨e', herror, -⟩ | ⟨record, -, heq⟩⟩
      · rw [heq]
      · obtain ⟨record, hrecord⟩ := (hmatched skdm id hskdm hid).1
        cases hrecord.symm.trans herror
      · rw [heq] at he
        cases he
  | importState data =>
      intro e he
      rcases hmatched with ⟨e', herror⟩ | ⟨order, exported, hdata, -⟩
      · rw [importState_of_error herror]
      · rw [importState_of_exportState hfaithful hdata] at he
        cases he
  | createDistribution channelId => trivial
  | groupEncrypt channelId plaintext => trivial
  | groupDecrypt senderHash channelId ciphertext => trivial
  | hasKey senderHash channelId => trivial
  | removeChannel channelId => trivial
  | exportState order => trivial

/-! ## Runs -/

/-- A new context that has read the state gives the answers of the one that exported it. -/
def ExportsItself (c : SignalBridgeCtx lib) : Prop :=
  ∀ order data, c.exportState order = .ok data →
    ∃ copy, importState data { ourAddress := c.ourAddress } = (copy, .ok ()) ∧
      ∀ calls, List.Forall₂ Output.Alike (c.answers calls) (copy.answers calls)

theorem exportsItself (hfaithful : lib.Faithful) (c : SignalBridgeCtx lib) : c.ExportsItself := by
  intro order data hdata
  refine ⟨merge order { ourAddress := c.ourAddress } c,
    importState_of_exportState hfaithful hdata _, fun calls => ?_⟩
  have halike := Alike.merge_new order c
  exact Alike.answers hfaithful ⟨halike.ourAddress.symm, fun a i => (halike.records a i).symm,
    fun channel => (halike.ourChannels channel).symm, fun key => (halike.knownKeys key).symm,
    fun i => (halike.initialDistributions i).symm⟩ calls

/-- After any matched calls the known keys stand for the records, no rejected call has left
a trace, and the exported state is a copy of the context. -/
theorem representation_run (hfaithful : lib.Faithful) (address : String)
    (calls : List (lib.Rng × Call lib))
    (h : Along after (fun c call => c.Matched call.2)
      ({ ourAddress := address } : SignalBridgeCtx lib) calls) :
    (run after { ourAddress := address } calls).Represented ∧
      Along after (fun c call => c.UnchangedOnError call.2)
        ({ ourAddress := address } : SignalBridgeCtx lib) calls ∧
      (run after { ourAddress := address } calls).ExportsItself := by
  refine ⟨?_, ?_, exportsItself hfaithful _⟩
  · exact invariant_run (fun c call hc hmatched => hc.after hfaithful hmatched)
      (represented_new address) h
  · exact along_mono (fun c call hmatched => unchangedOnError_of_matched hfaithful hmatched) h

section Example

private def distributionExample : SymbolicDistribution := ⟨1, ("peer", 0), 0⟩

private def deliveredExample (channelId : UInt32) :
    List ((String × ℕ) × Call symbolic) :=
  [(("own", 0), .processDistribution "peer" channelId (.distribution distributionExample))]

private def ownExample : SignalBridgeCtx symbolic := { ourAddress := "own" }

theorem representation_run_example :
    (run after ownExample (deliveredExample 1)).Represented ∧
      Along after (fun c call => c.UnchangedOnError call.2) ownExample (deliveredExample 1) ∧
      (run after ownExample (deliveredExample 1)).ExportsItself := by
  refine representation_run Symbolic.faithful "own" (deliveredExample 1) ⟨?_, trivial⟩
  intro skdm id hskdm hid
  cases hskdm
  cases hid
  exact ⟨⟨_, rfl⟩, fun _ => rfl⟩

/-- A distribution for channel 1 that comes as one for channel 2 makes a key known for which
there is no record. -/
theorem known_key_without_record :
    ¬∀ (lib : Libraries), lib.Faithful → ∀ (address : String) (calls : List (lib.Rng × Call lib)),
      (run after ({ ourAddress := address } : SignalBridgeCtx lib) calls).Represented := by
  intro h
  have hrepresented := h symbolic Symbolic.faithful "own" (deliveredExample 2)
  have hrecord := (hrepresented "peer" (by decide) 2).mp rfl
  exact absurd hrecord (by decide)

end Example

end SignalBridgeCtx

end FancyMumble.Signal
