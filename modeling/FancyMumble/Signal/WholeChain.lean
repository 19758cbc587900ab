import FancyMumble.Lib.Runs
import FancyMumble.Signal.Context

/-!
# Distributions that open the whole chain

A sender that gives out one distribution of a channel again and again, and encrypts in
between: who has processed the distribution opens all messages of the channel.
-/

namespace FancyMumble.Signal

open Lib.Runs

/-- A sender. What it exported, and for each channel the distributions that it gave out and
the messages that it encrypted since the channel was last removed, are recorded for the
statements. -/
structure Sender (lib : Libraries) where
  context : SignalBridgeCtx lib
  draws : ℕ := 0
  exported : List (SignalBridgeCtx lib × lib.Bytes) := []
  distributed : UInt32 → List lib.Bytes := fun _ => []
  encrypted : UInt32 → List (lib.Bytes × lib.Bytes) := fun _ => []

def SignalBridgeCtx.DecryptsAll {lib : Libraries} (senderHash : String) (channelId : UInt32) :
    SignalBridgeCtx lib → List (lib.Bytes × lib.Bytes) → Prop
  | _, [] => True
  | c, message :: rest =>
      (c.groupDecrypt senderHash channelId message.2).2 = .ok message.1 ∧
        DecryptsAll senderHash channelId (c.groupDecrypt senderHash channelId message.2).1 rest

namespace Sender

variable {lib : Libraries} (rng : ℕ → lib.Rng)

def step (s : Sender lib) (call : Call lib) : Sender lib :=
  let (context, output) := s.context.perform (rng s.draws) call
  let next := { s with context, draws := s.draws + 1 }
  match call, output with
  | .createDistribution channelId, .bytes (.ok bytes) =>
      { next with
        distributed := Function.update s.distributed channelId
          (s.distributed channelId ++ [bytes]) }
  | .groupEncrypt channelId plaintext, .bytes (.ok ciphertext) =>
      { next with
        encrypted := Function.update s.encrypted channelId
          (s.encrypted channelId ++ [(plaintext, ciphertext)]) }
  | .exportState _, .exported (.ok data) =>
      { next with exported := (s.context, data) :: s.exported }
  | .removeChannel channelId, _ =>
      { next with
        distributed := Function.update s.distributed channelId []
        encrypted := Function.update s.encrypted channelId [] }
  | _, _ => next

/-! ## Whole chains -/

/-- Whatever a receiver held before, with any of the distributions it decrypts the messages
in any order. -/
def OpensWholeChain (s : Sender lib) : Prop :=
  ∀ channelId, ∀ bytes ∈ s.distributed channelId, ∀ receiver : SignalBridgeCtx lib,
    (receiver.processDistribution s.context.ourAddress channelId bytes).2 = .ok () ∧
      ∀ order : List (Fin (s.encrypted channelId).length), order.Nodup →
        (receiver.processDistribution s.context.ourAddress channelId bytes).1.DecryptsAll
          s.context.ourAddress channelId (order.map (s.encrypted channelId).get)

/-- The first distribution of a channel starts the chain of the randomness of its call. -/
def StartsFreshChain (positions : lib.Positions) (s : Sender lib) : Call lib → Prop
  | .createDistribution channelId => s.distributed channelId = [] → ∃ skdm bytes,
      (s.context.createDistribution (rng s.draws) channelId).2 = .ok bytes ∧
        lib.tryFrom bytes = .ok skdm ∧
        positions.Announces skdm (positions.fresh (rng s.draws)) 0
  | _ => True

def ImportsOwn (s : Sender lib) : Call lib → Prop
  | .importState data => ∃ snapshot, (snapshot, data) ∈ s.exported
  | _ => True

/-- The sender's own records and distributions of the one context are in the other. -/
def Current (snapshot c : SignalBridgeCtx lib) : Prop :=
  (∀ id, ∀ record ∈ snapshot.loadSenderKey c.ourAddress id,
    c.loadSenderKey c.ourAddress id = some record) ∧
  ∀ id, ∀ bytes ∈ snapshot.initialDistributions.lookup id,
    c.initialDistributions.lookup id = some bytes

/-- Nothing is processed or decrypted under the sender's own address, and the sender imports
only states that it exported and that are still current for its own chains. -/
def KeepsChains (s : Sender lib) : Call lib → Prop
  | .processDistribution senderHash _ _ | .groupDecrypt senderHash _ _ =>
      senderHash ≠ s.context.ourAddress
  | .importState data => ∃ snapshot, (snapshot, data) ∈ s.exported ∧ Current snapshot s.context
  | _ => True

/-! ## Invariant -/

/-- Nothing of the channel is there; or there is one distribution, which announces the
chain, and the record is at the next message of it. -/
structure OneChain (positions : lib.Positions) (c : SignalBridgeCtx lib) (channelId : UInt32)
    (distributed : List lib.Bytes) (encrypted : List (lib.Bytes × lib.Bytes))
    (skdm : lib.SenderKeyDistributionMessage) (record : lib.SenderKeyRecord)
    (chain : positions.Chain) : Prop where
  kept : c.initialDistributions.lookup (lib.channelDistributionId channelId) =
    some (lib.serialized skdm)
  distributionId : lib.distributionId skdm = .ok (lib.channelDistributionId channelId)
  announces : positions.Announces skdm chain 0
  stored : c.loadSenderKey c.ourAddress (lib.channelDistributionId channelId) = some record
  sends : positions.Sends record chain encrypted.length
  distributed_ne : distributed ≠ []
  distributed_eq : ∀ bytes ∈ distributed, bytes = lib.serialized skdm
  carries : ∀ i message, encrypted[i]? = some message →
    positions.Carries message.2 chain i message.1 ∧
      lib.messageDistributionId message.2 = .ok (lib.channelDistributionId channelId)

def ChainState (positions : lib.Positions) (c : SignalBridgeCtx lib) (channelId : UInt32)
    (distributed : List lib.Bytes) (encrypted : List (lib.Bytes × lib.Bytes)) : Prop :=
  (c.initialDistributions.lookup (lib.channelDistributionId channelId) = none ∧
    c.loadSenderKey c.ourAddress (lib.channelDistributionId channelId) = none ∧
    distributed = [] ∧ encrypted = []) ∨
  ∃ skdm record chain,
    OneChain positions c channelId distributed encrypted skdm record chain

structure Whole (positions : lib.Positions) (s : Sender lib) : Prop where
  channels : ∀ channelId,
    ChainState positions s.context channelId (s.distributed channelId) (s.encrypted channelId)
  exported : ∀ snapshot data, (snapshot, data) ∈ s.exported →
    ∃ order, snapshot.exportState order = .ok data

variable {rng} {positions : lib.Positions}

theorem ChainState.congr {c c' : SignalBridgeCtx lib} {channelId : UInt32}
    {distributed : List lib.Bytes} {encrypted : List (lib.Bytes × lib.Bytes)}
    (h : ChainState positions c channelId distributed encrypted)
    (hkept : c'.initialDistributions.lookup (lib.channelDistributionId channelId) =
      c.initialDistributions.lookup (lib.channelDistributionId channelId))
    (hstored : c'.loadSenderKey c'.ourAddress (lib.channelDistributionId channelId) =
      c.loadSenderKey c.ourAddress (lib.channelDistributionId channelId)) :
    ChainState positions c' channelId distributed encrypted := by
  rcases h with ⟨hnone, hrecord, hempty⟩ | ⟨skdm, record, chain, h⟩
  · exact .inl ⟨hkept.trans hnone, hstored.trans hrecord, hempty⟩
  · exact .inr ⟨skdm, record, chain, { h with
      kept := hkept.trans h.kept
      stored := hstored.trans h.stored }⟩

/-! ## What the calls keep -/

theorem whole_new (address : String) : Whole positions ({ context := { ourAddress := address } } :
    Sender lib) where
  channels := fun _ => .inl ⟨by simp, by simp [SignalBridgeCtx.loadSenderKey], rfl, rfl⟩
  exported := fun _ _ h => absurd h List.not_mem_nil

theorem Whole.congr {s : Sender lib} (h : Whole positions s) {c : SignalBridgeCtx lib}
    (hkept : ∀ id, c.initialDistributions.lookup id = s.context.initialDistributions.lookup id)
    (hstored : ∀ id, c.loadSenderKey c.ourAddress id =
      s.context.loadSenderKey s.context.ourAddress id) (draws : ℕ) :
    Whole positions { s with context := c, draws } where
  channels := fun channelId => (h.channels channelId).congr (hkept _) (hstored _)
  exported := h.exported

section Operations

variable (hfaithful : lib.Faithful) (hcomplete : lib.CompleteChains positions) {s : Sender lib}

theorem Whole.distributeAgain (h : Whole positions s) {channelId : UInt32} {cached : lib.Bytes}
    (hcached : s.context.initialDistributions.lookup (lib.channelDistributionId channelId) =
      some cached)
    (heq : s.context.createDistribution (rng s.draws) channelId =
      ({ s.context with ourChannels := s.context.ourChannels.insert channelId }, .ok cached)) :
    Whole positions (s.step rng (.createDistribution channelId)) ∧
      StartsFreshChain rng positions s (.createDistribution channelId) := by
  -- only a channel that has a chain has a kept distribution
  rcases h.channels channelId with ⟨hnone, -⟩ | ⟨skdm, record, chain, hchain⟩
  · exact absurd (hnone.symm.trans hcached) (Option.some_ne_none cached).symm
  · have hstep : s.step rng (.createDistribution channelId) = { s with
        context := { s.context with ourChannels := s.context.ourChannels.insert channelId }
        draws := s.draws + 1
        distributed := Function.update s.distributed channelId
          (s.distributed channelId ++ [cached]) } := by
      unfold step SignalBridgeCtx.perform
      dsimp only
      rw [heq]
      rfl
    constructor
    · rw [hstep]
      refine ⟨fun channel => ?_, h.exported⟩
      by_cases hsame : channel = channelId
      · subst hsame
        refine .inr ⟨skdm, record, chain, ?_⟩
        dsimp only
        rw [Function.update_self]
        refine { hchain with distributed_ne := ?_, distributed_eq := ?_ }
        · simp
        · intro bytes hbytes
          rcases List.mem_append.mp hbytes with hold | hnew
          · exact hchain.distributed_eq bytes hold
          · rw [List.mem_singleton.mp hnew]
            exact Option.some.inj (hcached.symm.trans hchain.kept)
      · dsimp only
        rw [Function.update_of_ne hsame]
        exact (h.channels channel).congr rfl rfl
    · exact fun hempty => absurd hempty hchain.distributed_ne

include hfaithful in
theorem Whole.startChain (h : Whole positions s) {channelId : UInt32}
    (hempty : s.distributed channelId = []) (hsilent : s.encrypted channelId = [])
    {skdm : lib.SenderKeyDistributionMessage} {record : lib.SenderKeyRecord}
    (hid : lib.distributionId skdm = .ok (lib.channelDistributionId channelId))
    (hannounces : positions.Announces skdm (positions.fresh (rng s.draws)) 0)
    (hsends : positions.Sends record (positions.fresh (rng s.draws)) 0)
    (heq : s.context.createDistribution (rng s.draws) channelId =
      ({ s.context.storeSenderKey s.context.ourAddress (lib.channelDistributionId channelId)
            (some record) with
          initialDistributions := s.context.initialDistributions.insert
            (lib.channelDistributionId channelId) (lib.serialized skdm)
          ourChannels := s.context.ourChannels.insert channelId },
        .ok (lib.serialized skdm))) :
    Whole positions (s.step rng (.createDistribution channelId)) := by
  have hstep : s.step rng (.createDistribution channelId) = { s with
      context := { s.context.storeSenderKey s.context.ourAddress
          (lib.channelDistributionId channelId) (some record) with
        initialDistributions := s.context.initialDistributions.insert
          (lib.channelDistributionId channelId) (lib.serialized skdm)
        ourChannels := s.context.ourChannels.insert channelId }
      draws := s.draws + 1
      distributed := Function.update s.distributed channelId
        (s.distributed channelId ++ [lib.serialized skdm]) } := by
    unfold step SignalBridgeCtx.perform
    dsimp only
    rw [heq]
    rfl
  rw [hstep]
  refine ⟨fun channel => ?_, h.exported⟩
  by_cases hsame : channel = channelId
  · subst hsame
    refine .inr ⟨skdm, record, positions.fresh (rng s.draws), ?_⟩
    dsimp only
    rw [Function.update_self, hempty, hsilent]
    exact {
      kept := AList.lookup_insert _
      distributionId := hid
      announces := hannounces
      stored := AList.lookup_insert _
      sends := hsends
      distributed_ne := List.cons_ne_nil _ _
      distributed_eq := fun bytes hbytes => List.mem_singleton.mp hbytes
      carries := fun i message hmessage => by simp at hmessage }
  · have hne := hfaithful.channelDistributionId_inj.ne hsame
    dsimp only
    rw [Function.update_of_ne hsame]
    refine (h.channels channel).congr (AList.lookup_insert_ne hne) ?_
    exact AList.lookup_insert_ne fun hkey => hne (congrArg Prod.snd hkey)

include hfaithful hcomplete in
theorem Whole.createDistribution (h : Whole positions s) (channelId : UInt32) :
    Whole positions (s.step rng (.createDistribution channelId)) ∧
      StartsFreshChain rng positions s (.createDistribution channelId) := by
  rcases s.context.createDistribution_cases (rng s.draws) channelId with
    ⟨cached, hcached, heq⟩ | ⟨hnone, result, record, hcreate, hresult⟩
  · exact h.distributeAgain hcached heq
  · rcases h.channels channelId with ⟨-, hrecord, hempty, hsilent⟩ | ⟨skdm, record, chain, hchain⟩
    · rw [hrecord] at hcreate
      obtain ⟨skdm, stored, hok, hid, hannounces, hsends⟩ :=
        hcomplete.create_none (rng s.draws) (lib.channelDistributionId channelId)
      cases hcreate.symm.trans hok
      rcases hresult with ⟨e, herror, -⟩ | ⟨skdm', hskdm, heq⟩
      · cases herror
      · cases hskdm
        constructor
        · exact h.startChain hfaithful hempty hsilent hid hannounces hsends heq
        · intro _
          exact ⟨skdm, lib.serialized skdm, by rw [heq], hfaithful.tryFrom_serialized skdm,
            hannounces⟩
    · exact absurd (hnone.symm.trans hchain.kept) (Option.some_ne_none _).symm

theorem OneChain.encrypt {c : SignalBridgeCtx lib} {channelId : UInt32}
    {distributed : List lib.Bytes} {encrypted : List (lib.Bytes × lib.Bytes)}
    {skdm : lib.SenderKeyDistributionMessage} {record record' : lib.SenderKeyRecord}
    {chain : positions.Chain}
    (h : OneChain positions c channelId distributed encrypted skdm record chain)
    {message : lib.Bytes × lib.Bytes}
    (hid : lib.messageDistributionId message.2 = .ok (lib.channelDistributionId channelId))
    (hcarries : positions.Carries message.2 chain encrypted.length message.1)
    (hsends : positions.Sends record' chain (encrypted.length + 1)) :
    OneChain positions
      (c.storeSenderKey c.ourAddress (lib.channelDistributionId channelId) (some record'))
      channelId distributed (encrypted ++ [message]) skdm record' chain :=
  { h with
    stored := AList.lookup_insert _
    sends := by
      rw [List.length_append]
      exact hsends
    carries := by
      intro i other hother
      rw [List.getElem?_append] at hother
      split at hother
      next => exact h.carries i other hother
      next hlength =>
        have hi : i - encrypted.length = 0 := by
          by_contra hpos
          rw [List.getElem?_eq_none (by simp; omega)] at hother
          cases hother
        rw [hi] at hother
        cases hother
        have hlast : i = encrypted.length := by omega
        rw [hlast]
        exact ⟨hcarries, hid⟩ }

include hfaithful hcomplete in
theorem Whole.groupEncrypt (h : Whole positions s) (channelId : UInt32)
    (plaintext : lib.Bytes) :
    Whole positions (s.step rng (.groupEncrypt channelId plaintext)) := by
  rcases s.context.groupEncrypt_cases (rng s.draws) channelId plaintext with
    ⟨e, heq⟩ | ⟨ciphertext, record', hencrypt, heq⟩
  · have hstep : s.step rng (.groupEncrypt channelId plaintext) =
        { s with draws := s.draws + 1 } := by
      unfold step SignalBridgeCtx.perform
      dsimp only
      rw [heq]
      rfl
    rw [hstep]
    exact h.congr (fun _ => rfl) (fun _ => rfl) _
  · have hstep : s.step rng (.groupEncrypt channelId plaintext) = { s with
          context := s.context.storeSenderKey s.context.ourAddress
            (lib.channelDistributionId channelId) (some record')
          draws := s.draws + 1
          encrypted := Function.update s.encrypted channelId
            (s.encrypted channelId ++ [(plaintext, ciphertext)]) } := by
      unfold step SignalBridgeCtx.perform
      dsimp only
      rw [heq]
      rfl
    rw [hstep]
    refine ⟨fun channel => ?_, h.exported⟩
    by_cases hsame : channel = channelId
    · subst hsame
      rcases h.channels channel with ⟨-, hrecord, -⟩ | ⟨skdm, record, chain, hchain⟩
      · obtain ⟨e, herror⟩ := hcomplete.encrypt_none (rng s.draws)
          (lib.channelDistributionId channel) plaintext
        rw [hrecord, herror] at hencrypt
        cases hencrypt
      · obtain ⟨ciphertext', record'', hok, hid, hcarries, hsends⟩ :=
          hcomplete.encrypt hchain.sends (rng s.draws) (lib.channelDistributionId channel)
            plaintext
        rw [hchain.stored] at hencrypt
        cases hencrypt.symm.trans hok
        refine .inr ⟨skdm, record', chain, ?_⟩
        dsimp only
        rw [Function.update_self]
        exact hchain.encrypt hid hcarries hsends
    · have hne := hfaithful.channelDistributionId_inj.ne hsame
      dsimp only
      rw [Function.update_of_ne hsame]
      refine (h.channels channel).congr rfl ?_
      exact AList.lookup_insert_ne fun hkey => hne (congrArg Prod.snd hkey)

include hfaithful in
theorem Whole.removeChannel (h : Whole positions s) (channelId : UInt32) :
    Whole positions (s.step rng (.removeChannel channelId)) := by
  refine ⟨fun channel => ?_, h.exported⟩
  have hrecord := SignalBridgeCtx.lookup_removeByDistribution s.context.records
    (lib.channelDistributionId channelId)
    (s.context.ourAddress, lib.channelDistributionId channel)
  by_cases hsame : channel = channelId
  · subst hsame
    rw [if_pos rfl] at hrecord
    refine .inl ⟨AList.lookup_erase _ _, hrecord, ?_, ?_⟩
    · exact Function.update_self ..
    · exact Function.update_self ..
  · have hne := hfaithful.channelDistributionId_inj.ne hsame
    rw [if_neg hne] at hrecord
    have hdistributed : (s.step rng (.removeChannel channelId)).distributed channel =
        s.distributed channel := Function.update_of_ne hsame ..
    have hencrypted : (s.step rng (.removeChannel channelId)).encrypted channel =
        s.encrypted channel := Function.update_of_ne hsame ..
    rw [hdistributed, hencrypted]
    exact (h.channels channel).congr (AList.lookup_erase_ne hne) hrecord

theorem Whole.exportState (h : Whole positions s) (order : Lib.Grouping.HashOrder) :
    Whole positions (s.step rng (.exportState order)) := by
  cases hdata : s.context.exportState order with
  | error e =>
      have hstep : s.step rng (.exportState order) = { s with draws := s.draws + 1 } := by
        unfold step SignalBridgeCtx.perform
        dsimp only
        rw [hdata]
      rw [hstep]
      exact h.congr (fun _ => rfl) (fun _ => rfl) _
  | ok data =>
      have hstep : s.step rng (.exportState order) = { s with
          draws := s.draws + 1
          exported := (s.context, data) :: s.exported } := by
        unfold step SignalBridgeCtx.perform
        dsimp only
        rw [hdata]
      rw [hstep]
      refine ⟨h.channels, fun snapshot data' hexported => ?_⟩
      rcases List.mem_cons.mp hexported with hnew | hold
      · cases hnew
        exact ⟨order, hdata⟩
      · exact h.exported snapshot data' hold

include hfaithful in
theorem Whole.importState (h : Whole positions s) {data : lib.Bytes}
    {snapshot : SignalBridgeCtx lib} (hexported : (snapshot, data) ∈ s.exported)
    (hcurrent : Current snapshot s.context) :
    Whole positions (s.step rng (.importState data)) := by
  obtain ⟨hrecords, hkept⟩ := hcurrent
  obtain ⟨order, hdata⟩ := h.exported snapshot data hexported
  have hmerged : Whole positions { s with
      context := s.context.merge order snapshot
      draws := s.draws + 1 } := by
    refine h.congr (fun id => ?_) (fun id => ?_) _
    · rw [SignalBridgeCtx.lookup_initialDistributions_merge]
      cases hlookup : snapshot.initialDistributions.lookup id with
      | none => rfl
      | some bytes => exact (hkept id bytes hlookup).symm
    · have hload := SignalBridgeCtx.loadSenderKey_merge order s.context snapshot
        s.context.ourAddress id
      cases hlookup : snapshot.loadSenderKey s.context.ourAddress id with
      | none =>
          rw [hlookup, Option.none_or] at hload
          exact hload
      | some record =>
          rw [hlookup, Option.some_or] at hload
          exact hload.trans (hrecords id record hlookup).symm
  have hstep : s.step rng (.importState data) = { s with
      context := (s.context.importState data).1
      draws := s.draws + 1 } := rfl
  rw [hstep, SignalBridgeCtx.importState_of_exportState hfaithful hdata s.context]
  exact hmerged

include hfaithful hcomplete in
/-- A call that is kept to the sender's own chains leaves them whole. -/
theorem Whole.step (h : Whole positions s) {call : Call lib} (hkeeps : s.KeepsChains call) :
    Whole positions (s.step rng call) := by
  cases call with
  | createDistribution channelId => exact (h.createDistribution hfaithful hcomplete channelId).1
  | groupEncrypt channelId plaintext =>
      exact h.groupEncrypt hfaithful hcomplete channelId plaintext
  | removeChannel channelId => exact h.removeChannel hfaithful channelId
  | hasKey senderHash channelId => exact h.congr (fun _ => rfl) (fun _ => rfl) _
  | processDistribution senderHash channelId bytes =>
      obtain ⟨haddress, hkept, hrecords⟩ :=
        s.context.processDistribution_frame senderHash channelId bytes
      have hstep : s.step rng (.processDistribution senderHash channelId bytes) = { s with
          context := (s.context.processDistribution senderHash channelId bytes).1
          draws := s.draws + 1 } := rfl
      rw [hstep]
      refine h.congr (fun id => by rw [hkept]) (fun id => ?_) _
      rw [haddress, hrecords _ hkeeps.symm]
  | groupDecrypt senderHash channelId ciphertext =>
      obtain ⟨haddress, hkept, hrecords⟩ :=
        s.context.groupDecrypt_frame senderHash channelId ciphertext
      have hstep : s.step rng (.groupDecrypt senderHash channelId ciphertext) = { s with
          context := (s.context.groupDecrypt senderHash channelId ciphertext).1
          draws := s.draws + 1 } := rfl
      rw [hstep]
      refine h.congr (fun id => by rw [hkept]) (fun id => ?_) _
      rw [haddress, hrecords _ hkeeps.symm]
  | exportState order => exact h.exportState order
  | importState data =>
      obtain ⟨snapshot, hexported, hcurrent⟩ := hkeeps
      exact h.importState hfaithful hexported hcurrent

include hfaithful hcomplete in
theorem Whole.startsFreshChain (h : Whole positions s) (call : Call lib) :
    StartsFreshChain rng positions s call := by
  cases call with
  | createDistribution channelId => exact (h.createDistribution hfaithful hcomplete channelId).2
  | processDistribution senderHash channelId bytes => trivial
  | groupEncrypt channelId plaintext => trivial
  | groupDecrypt senderHash channelId ciphertext => trivial
  | hasKey senderHash channelId => trivial
  | removeChannel channelId => trivial
  | exportState order => trivial
  | importState data => trivial

end Operations

/-! ## Receivers -/

section Receivers

variable (hfaithful : lib.Faithful) (hcomplete : lib.CompleteChains positions)

include hcomplete in
/-- A record that opens a chain decrypts different messages of it in any order. -/
theorem decryptsAll_of_receives {chain : positions.Chain} {id : lib.Uuid}
    {encrypted : List (lib.Bytes × lib.Bytes)}
    (hcarries : ∀ i message, encrypted[i]? = some message →
      positions.Carries message.2 chain i message.1 ∧
        lib.messageDistributionId message.2 = .ok id)
    (senderHash : String) (channelId : UInt32) (order : List (Fin encrypted.length))
    (horder : order.Nodup) {c : SignalBridgeCtx lib} {record : lib.SenderKeyRecord}
    {used : Finset ℕ} (hrecord : c.loadSenderKey senderHash id = some record)
    (hreceives : positions.Receives record chain 0 used) (hunused : ∀ i ∈ order, i.val ∉ used) :
    c.DecryptsAll senderHash channelId (order.map encrypted.get) := by
  induction order generalizing c record used with
  | nil => trivial
  | cons i order ih =>
      obtain ⟨hi, hnodup⟩ := List.nodup_cons.mp horder
      obtain ⟨hmessage, hid⟩ := hcarries i (encrypted.get i) (List.getElem?_eq_getElem i.isLt)
      obtain ⟨record', hdecrypt, hreceives'⟩ := hcomplete.decrypt hreceives hmessage
        (Nat.zero_le _) (hunused i List.mem_cons_self)
      have heq : c.groupDecrypt senderHash channelId (encrypted.get i).2 =
          (c.storeSenderKey senderHash id (some record'), .ok (encrypted.get i).1) := by
        unfold SignalBridgeCtx.groupDecrypt
        rw [hid]
        dsimp only
        rw [hrecord, hdecrypt]
      rw [List.map_cons]
      refine ⟨by rw [heq], ?_⟩
      rw [heq]
      refine ih hnodup (AList.lookup_insert _) hreceives' fun j hj hmem => ?_
      rcases Finset.mem_insert.mp hmem with hsame | hold
      · exact hi (Fin.ext hsame ▸ hj)
      · exact hunused j (List.mem_cons_of_mem i hj) hold

include hfaithful hcomplete in
/-- Whoever processes a distribution of a whole chain opens the chain. -/
theorem Whole.opensWholeChain {s : Sender lib} (h : Whole positions s) : s.OpensWholeChain := by
  intro channelId bytes hbytes receiver
  rcases h.channels channelId with ⟨-, -, hempty, -⟩ | ⟨skdm, record, chain, hchain⟩
  · rw [hempty] at hbytes
    exact absurd hbytes List.not_mem_nil
  · obtain ⟨received, hprocess, hreceives⟩ := hcomplete.process_none hchain.announces
    have heq : receiver.processDistribution s.context.ourAddress channelId bytes =
        ({ receiver with
          records := (receiver.records.erase (s.context.ourAddress,
            lib.channelDistributionId channelId)).insert (s.context.ourAddress,
              lib.channelDistributionId channelId) received
          knownKeys := receiver.knownKeys.insert (s.context.ourAddress, channelId) }, .ok ()) := by
      have hskdm : lib.tryFrom bytes = .ok skdm := by
        rw [hchain.distributed_eq bytes hbytes]
        exact hfaithful.tryFrom_serialized skdm
      unfold SignalBridgeCtx.processDistribution
      rw [hskdm]
      dsimp only
      rw [hchain.distributionId]
      dsimp only
      have hcleared : SignalBridgeCtx.loadSenderKey { receiver with
          records := receiver.records.erase (s.context.ourAddress,
            lib.channelDistributionId channelId) }
          s.context.ourAddress (lib.channelDistributionId channelId) = none :=
        AList.lookup_erase _ _
      rw [hcleared, hprocess]
      rfl
    rw [heq]
    exact ⟨rfl, fun order horder => decryptsAll_of_receives hcomplete hchain.carries _ channelId
      order horder (AList.lookup_insert _) hreceives fun i _ => Finset.notMem_empty _⟩

end Receivers

/-! ## Runs -/

/-- In every run that keeps the sender's chains, every distribution opens what the sender
encrypted since the channel was last removed, and the first one after that starts a fresh
chain. -/
theorem opensWholeChain_run (hfaithful : lib.Faithful) (hcomplete : lib.CompleteChains positions)
    (address : String) (calls : List (Call lib))
    (h : Along (step rng) KeepsChains { context := { ourAddress := address } } calls) :
    (run (step rng) { context := { ourAddress := address } } calls).OpensWholeChain ∧
      Along (step rng) (StartsFreshChain rng positions)
        { context := { ourAddress := address } } calls := by
  have hstep : ∀ s call, Whole positions s → s.KeepsChains call →
      Whole positions (s.step rng call) :=
    fun s call hs hkeeps => hs.step hfaithful hcomplete hkeeps
  constructor
  · exact (invariant_run hstep (whole_new address) h).opensWholeChain hfaithful hcomplete
  · exact along_of_invariant hstep
      (fun s call hs _ => hs.startsFreshChain hfaithful hcomplete call) (whole_new address) h

section Example

private def distributionExample : SymbolicDistribution := ⟨1, ("own", 0), 0⟩

private def stateExample : ExportedState SymbolicBytes where
  ourAddress := "own"
  ourChannels := [1]
  knownKeys := []
  senderKeyRecords := [⟨"own", "1", .record ⟨("own", 0), 0, true, ∅⟩⟩]
  initialDistributions := [⟨"1", .distribution distributionExample⟩]

private def senderExample : Sender symbolic := { context := { ourAddress := "own" } }

private def runExample (calls : List (Call symbolic)) : List (Call symbolic) :=
  .createDistribution 1 :: .exportState .listed :: calls

private def readBackExample : List (Call symbolic) :=
  runExample [.importState (.state stateExample), .groupEncrypt 1 (.text "a")]

theorem opensWholeChain_run_example :
    (run (step (Prod.mk "own")) senderExample readBackExample).OpensWholeChain ∧
      Along (step (Prod.mk "own")) (StartsFreshChain (Prod.mk "own") Symbolic.positions)
        senderExample readBackExample := by
  refine opensWholeChain_run Symbolic.faithful Symbolic.completeChains "own" readBackExample
    ⟨trivial, trivial, ⟨_, List.mem_singleton_self _, ?_⟩, trivial, trivial⟩
  exact ⟨fun id record h => h, fun id bytes h => h⟩

/-- A sender that reads its state back between two messages encrypts both with the same
key, and only one of them is decrypted. -/
theorem imported_state_reuses_keys :
    ¬∀ (lib : Libraries) (positions : lib.Positions) (rng : ℕ → lib.Rng), lib.Faithful →
      lib.CompleteChains positions → (∀ n m, positions.fresh (rng n) = positions.fresh (rng m) →
        n = m) → ∀ (address : String) (calls : List (Call lib)),
      Along (step rng) ImportsOwn { context := { ourAddress := address } } calls →
        (run (step rng) { context := { ourAddress := address } } calls).OpensWholeChain ∧
          Along (step rng) (StartsFreshChain rng positions)
            { context := { ourAddress := address } } calls := by
  intro h
  have hrun := h symbolic Symbolic.positions (Prod.mk "own") Symbolic.faithful
    Symbolic.completeChains (fun n m heq => congrArg Prod.snd heq) "own"
    (runExample [.groupEncrypt 1 (.text "a"), .importState (.state stateExample),
      .groupEncrypt 1 (.text "b")])
    ⟨trivial, trivial, trivial, ⟨_, List.mem_singleton_self _⟩, trivial, trivial⟩
  have hopens := (hrun.1 1 (.distribution distributionExample) List.mem_cons_self
    { ourAddress := "receiver" }).2 [⟨0, by decide⟩, ⟨1, by decide⟩] (by decide)
  exact absurd (congrArg Except.toBool hopens.2.1) (by decide)

end Example

end Sender

end FancyMumble.Signal
