import FancyMumble.Lib.Runs
import FancyMumble.Signal.Context

/-!
# Which channel a Signal message belongs to

The contexts of any number of clients, between which a relay delivers distributions and
ciphertexts as it likes: under which address and for which channel they are accepted.
-/

namespace FancyMumble.Signal

open Lib.Grouping Lib.Runs

/-! ## Clients -/

/-- The contexts of the clients by their addresses. What was exported, created and
encrypted so far, with the address and the channel, is recorded for the statements. -/
structure Group (lib : Libraries) where
  contexts : String → SignalBridgeCtx lib := fun address => { ourAddress := address }
  draws : ℕ := 0
  exported : List (String × lib.Bytes) := []
  distributed : List (String × UInt32 × lib.Bytes) := []
  encrypted : List (String × UInt32 × lib.Bytes) := []

/-- A client calls its bridge, or starts with a new one. -/
inductive GroupEvent (lib : Libraries) where
  | call (address : String) (call : Call lib)
  | restart (address : String)

namespace Group

variable {lib : Libraries} (rng : String → ℕ → lib.Rng)

def newExport (address : String) : Call lib → Output lib → List (String × lib.Bytes)
  | .exportState _, .exported (.ok data) => [(address, data)]
  | _, _ => []

def newDistribution (address : String) :
    Call lib → Output lib → List (String × UInt32 × lib.Bytes)
  | .createDistribution channelId, .bytes (.ok bytes) => [(address, channelId, bytes)]
  | _, _ => []

def newCiphertext (address : String) :
    Call lib → Output lib → List (String × UInt32 × lib.Bytes)
  | .groupEncrypt channelId _, .bytes (.ok ciphertext) => [(address, channelId, ciphertext)]
  | _, _ => []

def answer (s : Group lib) (address : String) (call : Call lib) :
    SignalBridgeCtx lib × Output lib :=
  (s.contexts address).perform (rng address s.draws) call

/-- A client whose call draws randomness gets other values than for all other calls. -/
def step (s : Group lib) : GroupEvent lib → Group lib
  | .call address call =>
      let result := s.answer rng address call
      { contexts := Function.update s.contexts address result.1
        draws := s.draws + 1
        exported := newExport address call result.2 ++ s.exported
        distributed := newDistribution address call result.2 ++ s.distributed
        encrypted := newCiphertext address call result.2 ++ s.encrypted }
  | .restart address =>
      { s with contexts := Function.update s.contexts address { ourAddress := address } }

/-! ## Binding -/

/-- A decrypted message of a client was sent by the one it is presented for, in the
channel it is presented for, and an accepted distribution was created for its channel. -/
def BindsChannel (s : Group lib) : GroupEvent lib → Prop
  | .call address (.groupDecrypt senderHash channelId ciphertext) =>
      ∀ plaintext,
        ((s.contexts address).groupDecrypt senderHash channelId ciphertext).2 = .ok plaintext →
          ∀ sender channel, (sender, channel, ciphertext) ∈ s.encrypted →
            sender = senderHash ∧ channel = channelId
  | .call address (.processDistribution senderHash channelId bytes) =>
      ((s.contexts address).processDistribution senderHash channelId bytes).2 = .ok () →
        ∀ sender channel, (sender, channel, bytes) ∈ s.distributed → channel = channelId
  | _ => True

/-- The comparisons that the bridge leaves out: a distribution has the id of the channel it
is delivered for, and is not of a chain of another client; a ciphertext has the id of the
channel, unless there is no record that it could be decrypted with. Only the client's own
states are imported. -/
def Compared (chains : lib.Chains) (s : Group lib) : GroupEvent lib → Prop
  | .call _ (.processDistribution senderHash channelId bytes) =>
      ∀ skdm id, lib.tryFrom bytes = .ok skdm → lib.distributionId skdm = .ok id →
        id = lib.channelDistributionId channelId ∧
          ∀ address n, chains.announced skdm = chains.fresh (rng address n) →
            address = senderHash
  | .call address (.groupDecrypt senderHash channelId ciphertext) =>
      ∀ id, lib.messageDistributionId ciphertext = .ok id →
        id = lib.channelDistributionId channelId ∨
          (s.contexts address).loadSenderKey senderHash id = none
  | .call address (.importState data) =>
      (∃ e, lib.fromSlice data = .error e) ∨ (address, data) ∈ s.exported
  | _ => True

/-! ## Invariant -/

/-- The records of a context hold no chains of other addresses, those that sign are its
own, and a kept distribution has the id it is kept for. -/
structure SoundContext (chains : lib.Chains) (address : String) (c : SignalBridgeCtx lib) :
    Prop where
  ourAddress : c.ourAddress = address
  holds : ∀ senderHash id, ∀ record ∈ c.loadSenderKey senderHash id, ∀ other n,
    chains.Holds record (chains.fresh (rng other n)) → other = senderHash
  signs : ∀ senderHash id, ∀ record ∈ c.loadSenderKey senderHash id, ∀ chain,
    chains.Signs record chain → ∃ n, chain = chains.fresh (rng address n)
  initial : ∀ id, ∀ bytes ∈ c.initialDistributions.lookup id, ∃ skdm,
    lib.tryFrom bytes = .ok skdm ∧ lib.distributionId skdm = .ok id

/-- All contexts and exported states are sound; what was created and encrypted carries the
id of its channel, and a ciphertext a chain of its sender. -/
structure SoundGroup (chains : lib.Chains) (s : Group lib) : Prop where
  contexts : ∀ address, SoundContext rng chains address (s.contexts address)
  exported : ∀ address data, (address, data) ∈ s.exported →
    ∃ order c, SoundContext rng chains address c ∧ c.exportState order = .ok data
  distributed : ∀ sender channel bytes, (sender, channel, bytes) ∈ s.distributed →
    ∃ skdm, lib.tryFrom bytes = .ok skdm ∧
      lib.distributionId skdm = .ok (lib.channelDistributionId channel)
  encrypted : ∀ sender channel ciphertext, (sender, channel, ciphertext) ∈ s.encrypted →
    lib.messageDistributionId ciphertext = .ok (lib.channelDistributionId channel) ∧
      ∃ n, chains.message ciphertext = some (chains.fresh (rng sender n))

variable {rng} {chains : lib.Chains} {address : String}

theorem soundContext_new (address : String) :
    SoundContext rng chains address ({ ourAddress := address } : SignalBridgeCtx lib) where
  ourAddress := rfl
  holds := fun _ _ _ h => absurd h (by simp [SignalBridgeCtx.loadSenderKey])
  signs := fun _ _ _ h => absurd h (by simp [SignalBridgeCtx.loadSenderKey])
  initial := fun _ _ h => absurd h (by simp)

theorem SoundContext.store {c : SignalBridgeCtx lib} (h : SoundContext rng chains address c)
    {senderHash : String} {id : lib.Uuid} {record : Option lib.SenderKeyRecord}
    (hholds : ∀ r ∈ record, ∀ other n, chains.Holds r (chains.fresh (rng other n)) →
      other = senderHash)
    (hsigns : ∀ r ∈ record, ∀ chain, chains.Signs r chain →
      ∃ n, chain = chains.fresh (rng address n)) :
    SoundContext rng chains address (c.storeSenderKey senderHash id record) := by
  have hrecord : ∀ a i, ∀ r ∈ (c.storeSenderKey senderHash id record).loadSenderKey a i,
      (a = senderHash ∧ r ∈ record) ∨ r ∈ c.loadSenderKey a i := by
    intro a i r hr
    rw [SignalBridgeCtx.loadSenderKey_storeSenderKey] at hr
    split at hr
    next hkey =>
      rcases Option.or_eq_some_iff.mp hr with hnew | hold
      · exact .inl ⟨hkey.1, hnew⟩
      · exact .inr hold.2
    next => exact .inr hr
  constructor
  · rw [SignalBridgeCtx.storeSenderKey_ourAddress, h.ourAddress]
  · intro a i r hr other n hchain
    rcases hrecord a i r hr with hnew | hold
    · rw [hnew.1]
      exact hholds r hnew.2 other n hchain
    · exact h.holds a i r hold other n hchain
  · intro a i r hr chain hchain
    rcases hrecord a i r hr with hnew | hold
    · exact hsigns r hnew.2 chain hchain
    · exact h.signs a i r hold chain hchain
  · intro i bytes hbytes
    rw [SignalBridgeCtx.storeSenderKey_initialDistributions] at hbytes
    exact h.initial i bytes hbytes

theorem SoundContext.replace {c : SignalBridgeCtx lib} (h : SoundContext rng chains address c)
    {senderHash : String} {id : lib.Uuid} {before record : lib.SenderKeyRecord}
    (hbefore : c.loadSenderKey senderHash id = some before)
    (hholds : chains.Holds record ≤ chains.Holds before)
    (hsigns : chains.Signs record ≤ chains.Signs before) :
    SoundContext rng chains address (c.storeSenderKey senderHash id (some record)) := by
  apply h.store
  · intro r hr other n hr'
    cases hr
    exact h.holds _ _ before hbefore other n (hholds _ hr')
  · intro r hr chain hr'
    cases hr
    exact h.signs _ _ before hbefore chain (hsigns _ hr')

theorem SoundContext.congr {c c' : SignalBridgeCtx lib} (h : SoundContext rng chains address c)
    (haddress : c'.ourAddress = c.ourAddress)
    (hrecords : ∀ a i, ∀ r ∈ c'.loadSenderKey a i, r ∈ c.loadSenderKey a i)
    (hinitial : ∀ i, ∀ b ∈ c'.initialDistributions.lookup i,
      b ∈ c.initialDistributions.lookup i) : SoundContext rng chains address c' where
  ourAddress := haddress.trans h.ourAddress
  holds := fun a i r hr => h.holds a i r (hrecords a i r hr)
  signs := fun a i r hr => h.signs a i r (hrecords a i r hr)
  initial := fun i b hb => h.initial i b (hinitial i b hb)

/-! ## What the operations keep -/

section Operations

variable (hfaithful : lib.Faithful) (hsound : lib.SoundChains chains)
  (hfresh : ∀ x y n m, chains.fresh (rng x n) = chains.fresh (rng y m) → x = y)
  {c : SignalBridgeCtx lib}

include hsound hfresh in
theorem SoundContext.storeCreated (h : SoundContext rng chains address c) {n : ℕ} {id : lib.Uuid}
    {result : Except String lib.SenderKeyDistributionMessage}
    {record : Option lib.SenderKeyRecord}
    (hcreate : lib.createSenderKeyDistributionMessage (rng address n) id
      (c.loadSenderKey c.ourAddress id) = (result, record)) :
    SoundContext rng chains address (c.storeSenderKey c.ourAddress id record) := by
  cases hbefore : c.loadSenderKey c.ourAddress id with
  | none =>
      rw [hbefore] at hcreate
      have hchain : ∀ r ∈ record, ∀ chain, chains.Holds r chain ∨ chains.Signs r chain →
          chain = chains.fresh (rng address n) := by
        intro r hr chain
        rw [Option.mem_def.mp hr] at hcreate
        exact hsound.record_create_none hcreate
      apply h.store
      · intro r hr other m hholds
        rw [h.ourAddress]
        exact hfresh _ _ _ _ (hchain r hr _ (.inl hholds))
      · intro r hr chain hsigns
        exact ⟨n, hchain r hr chain (.inr hsigns)⟩
  | some before =>
      rw [hbefore] at hcreate
      cases hsound.record_create_some hcreate
      exact h.replace hbefore le_rfl le_rfl

include hfaithful hsound hfresh in
theorem SoundContext.createDistribution (h : SoundContext rng chains address c) (n : ℕ)
    (channelId : UInt32) :
    SoundContext rng chains address (c.createDistribution (rng address n) channelId).1 ∧
      ∀ bytes, (c.createDistribution (rng address n) channelId).2 = .ok bytes →
        ∃ skdm, lib.tryFrom bytes = .ok skdm ∧
          lib.distributionId skdm = .ok (lib.channelDistributionId channelId) := by
  rcases c.createDistribution_cases (rng address n) channelId with
    ⟨cached, hcached, heq⟩ | ⟨-, result, record, hcreate, hresult⟩
  · rw [heq]
    refine ⟨h.congr rfl (fun _ _ _ hr => hr) fun _ _ hb => hb, fun bytes hbytes => ?_⟩
    cases hbytes
    exact h.initial _ cached hcached
  · have hstored := h.storeCreated hsound hfresh hcreate
    rcases hresult with ⟨e, -, heq⟩ | ⟨skdm, rfl, heq⟩
    · rw [heq]
      exact ⟨hstored, fun bytes hbytes => by cases hbytes⟩
    · have hskdm := hsound.distributionId_of_create hcreate
      rw [heq]
      refine ⟨⟨hstored.ourAddress, hstored.holds, hstored.signs, fun i bytes hbytes => ?_⟩,
        fun bytes hbytes => ?_⟩
      · by_cases hi : i = lib.channelDistributionId channelId
        · subst hi
          rw [AList.lookup_insert] at hbytes
          cases hbytes
          exact ⟨skdm, hfaithful.tryFrom_serialized skdm, hskdm⟩
        · rw [AList.lookup_insert_ne hi] at hbytes
          exact h.initial i bytes hbytes
      · cases hbytes
        exact ⟨skdm, hfaithful.tryFrom_serialized skdm, hskdm⟩

include hsound in
theorem SoundContext.processDistribution (h : SoundContext rng chains address c)
    {senderHash : String} {channelId : UInt32} {bytes : lib.Bytes}
    (howner : ∀ skdm id, lib.tryFrom bytes = .ok skdm → lib.distributionId skdm = .ok id →
      ∀ other n, chains.announced skdm = chains.fresh (rng other n) → other = senderHash) :
    SoundContext rng chains address (c.processDistribution senderHash channelId bytes).1 := by
  rcases c.processDistribution_cases senderHash channelId bytes with
    ⟨e, heq⟩ | ⟨skdm, id, hskdm, hid, hprocess⟩
  · rw [heq]
    exact h
  · have herased : SoundContext rng chains address
        { c with records := c.records.erase (senderHash, id) } := by
      refine h.congr rfl (fun a i r hr => ?_) fun _ _ hb => hb
      by_cases hkey : (a, i) = (senderHash, id)
      · have hnone : (c.records.erase (senderHash, id)).lookup (a, i) = none := by
          rw [hkey]
          exact AList.lookup_erase _ _
        exact absurd (hnone.symm.trans hr) (Option.some_ne_none r).symm
      · exact (AList.lookup_erase_ne hkey).symm.trans hr
    rcases hprocess with ⟨e, -, heq⟩ | ⟨record, hrecord, heq⟩
    · rw [heq]
      exact herased
    · rw [heq]
      have hchains := hsound.process_none hrecord
      have hholds : ∀ r ∈ some record, ∀ other n,
          chains.Holds r (chains.fresh (rng other n)) → other = senderHash := by
        intro r hr other n hholds
        cases hr
        exact howner skdm id hskdm hid other n (hchains.1 _ hholds).symm
      have hsigns : ∀ r ∈ some record, ∀ chain, chains.Signs r chain →
          ∃ n, chain = chains.fresh (rng address n) := by
        intro r hr chain hsigns
        cases hr
        exact absurd hsigns (hchains.2 chain)
      have hstored : SoundContext rng chains address
          (SignalBridgeCtx.storeSenderKey { c with records := c.records.erase (senderHash, id) }
            senderHash id (some record)) := herased.store hholds hsigns
      exact hstored.congr rfl (fun _ _ _ hr => hr) fun _ _ hb => hb

include hsound in
theorem SoundContext.groupEncrypt (h : SoundContext rng chains address c) (n : ℕ)
    (channelId : UInt32) (plaintext : lib.Bytes) :
    SoundContext rng chains address (c.groupEncrypt (rng address n) channelId plaintext).1 ∧
      ∀ ciphertext, (c.groupEncrypt (rng address n) channelId plaintext).2 = .ok ciphertext →
        lib.messageDistributionId ciphertext = .ok (lib.channelDistributionId channelId) ∧
          ∃ m, chains.message ciphertext = some (chains.fresh (rng address m)) := by
  rcases c.groupEncrypt_cases (rng address n) channelId plaintext with
    ⟨e, heq⟩ | ⟨ciphertext, record, hencrypt, heq⟩
  · rw [heq]
    exact ⟨h, fun ciphertext hciphertext => by cases hciphertext⟩
  · rw [heq]
    dsimp only
    obtain ⟨hid, before, chain, hbefore, hsigns, hmessage, hholds', hsigns'⟩ :=
      hsound.encrypt hencrypt
    refine ⟨h.replace hbefore hholds' hsigns', fun ciphertext' hciphertext => ?_⟩
    · cases hciphertext
      obtain ⟨m, hm⟩ := h.signs _ _ before hbefore chain hsigns
      exact ⟨hid, m, by rw [hmessage, hm]⟩

include hsound in
theorem SoundContext.groupDecrypt (h : SoundContext rng chains address c)
    (senderHash : String) (channelId : UInt32) (ciphertext : lib.Bytes) :
    SoundContext rng chains address (c.groupDecrypt senderHash channelId ciphertext).1 := by
  rcases c.groupDecrypt_cases senderHash channelId ciphertext with
    ⟨e, heq⟩ | ⟨id, plaintext, record, -, hdecrypt, heq⟩
  · rw [heq]
    exact h
  · rw [heq]
    dsimp only
    obtain ⟨before, chain, hbefore, -, -, hholds', hsigns'⟩ := hsound.decrypt hdecrypt
    exact h.replace hbefore hholds' hsigns'

theorem SoundContext.removeChannel (h : SoundContext rng chains address c) (channelId : UInt32) :
    SoundContext rng chains address (c.removeChannel channelId) := by
  refine h.congr rfl (fun a i r hr => ?_) fun i b hb => ?_
  · have hlookup := SignalBridgeCtx.lookup_removeByDistribution c.records
      (lib.channelDistributionId channelId) (a, i)
    by_cases hid : i = lib.channelDistributionId channelId
    · rw [if_pos hid] at hlookup
      exact absurd (hlookup.symm.trans hr) (Option.some_ne_none r).symm
    · rw [if_neg hid] at hlookup
      exact hlookup.symm.trans hr
  · by_cases hid : i = lib.channelDistributionId channelId
    · have hnone : (c.initialDistributions.erase
          (lib.channelDistributionId channelId)).lookup i = none := by
        rw [hid]
        exact AList.lookup_erase _ _
      exact absurd (hnone.symm.trans hb) (Option.some_ne_none b).symm
    · exact (AList.lookup_erase_ne hid).symm.trans hb

theorem SoundContext.merge (h : SoundContext rng chains address c)
    {exported : SignalBridgeCtx lib} (hexported : SoundContext rng chains address exported)
    (order : HashOrder) : SoundContext rng chains address (c.merge order exported) where
  ourAddress := h.ourAddress
  holds := by
    intro a i r hr
    rw [SignalBridgeCtx.loadSenderKey_merge] at hr
    rcases Option.or_eq_some_iff.mp hr with hnew | hold
    · exact hexported.holds a i r hnew
    · exact h.holds a i r hold.2
  signs := by
    intro a i r hr
    rw [SignalBridgeCtx.loadSenderKey_merge] at hr
    rcases Option.or_eq_some_iff.mp hr with hnew | hold
    · exact hexported.signs a i r hnew
    · exact h.signs a i r hold.2
  initial := by
    intro i b hb
    rw [SignalBridgeCtx.lookup_initialDistributions_merge] at hb
    rcases Option.or_eq_some_iff.mp hb with hnew | hold
    · exact hexported.initial i b hnew
    · exact h.initial i b hold.2

end Operations

/-! ## Runs -/

section Runs

variable (hfaithful : lib.Faithful) (hsound : lib.SoundChains chains)
  (hfresh : ∀ x y n m, chains.fresh (rng x n) = chains.fresh (rng y m) → x = y)

include hfaithful hsound hfresh in
theorem soundContext_answer {s : Group lib} (hs : SoundGroup rng chains s) {call : Call lib}
    (hcompared : Compared rng chains s (.call address call)) :
    SoundContext rng chains address (s.answer rng address call).1 := by
  have h := hs.contexts address
  cases call with
  | createDistribution channelId =>
      exact (h.createDistribution hfaithful hsound hfresh s.draws channelId).1
  | processDistribution senderHash channelId bytes =>
      exact h.processDistribution hsound fun skdm id hskdm hid =>
        (hcompared skdm id hskdm hid).2
  | groupEncrypt channelId plaintext =>
      exact (h.groupEncrypt hsound s.draws channelId plaintext).1
  | groupDecrypt senderHash channelId ciphertext =>
      exact h.groupDecrypt hsound senderHash channelId ciphertext
  | hasKey senderHash channelId => exact h
  | removeChannel channelId => exact h.removeChannel channelId
  | exportState order => exact h
  | importState data =>
      rcases hcompared with ⟨e, herror⟩ | hexported
      · change SoundContext rng chains address ((s.contexts address).importState data).1
        rw [SignalBridgeCtx.importState_of_error herror]
        exact h
      · obtain ⟨order, c, hc, hdata⟩ := hs.exported address data hexported
        have heq := SignalBridgeCtx.importState_of_exportState hfaithful hdata
          (s.contexts address)
        change SoundContext rng chains address ((s.contexts address).importState data).1
        rw [heq]
        exact h.merge hc order

include hfaithful hsound hfresh in
/-- Created distributions and ciphertexts carry the id of their channel. -/
theorem soundGroup_step {s : Group lib} (hs : SoundGroup rng chains s) {event : GroupEvent lib}
    (hcompared : Compared rng chains s event) : SoundGroup rng chains (s.step rng event) := by
  cases event with
  | restart address =>
      refine ⟨fun x => ?_, hs.exported, hs.distributed, hs.encrypted⟩
      by_cases hx : x = address
      · subst hx
        simpa [step] using soundContext_new x
      · simpa [step, Function.update_of_ne hx] using hs.contexts x
  | call address call =>
      have hcontext := soundContext_answer hfaithful hsound hfresh hs hcompared
      constructor
      · intro x
        by_cases hx : x = address
        · subst hx
          simpa [step] using hcontext
        · simpa [step, Function.update_of_ne hx] using hs.contexts x
      · intro x data hdata
        rcases List.mem_append.mp hdata with hnew | hold
        · unfold newExport at hnew
          split at hnew
          next order data' houtput =>
            cases List.mem_singleton.mp hnew
            refine ⟨order, s.contexts address, hs.contexts address, ?_⟩
            exact Output.exported.inj houtput
          next => exact absurd hnew List.not_mem_nil
        · exact hs.exported x data hold
      · intro sender channel bytes hbytes
        rcases List.mem_append.mp hbytes with hnew | hold
        · unfold newDistribution at hnew
          split at hnew
          next channelId bytes' houtput =>
            cases List.mem_singleton.mp hnew
            exact ((hs.contexts address).createDistribution hfaithful hsound hfresh s.draws
              channel).2 bytes (Output.bytes.inj houtput)
          next => exact absurd hnew List.not_mem_nil
        · exact hs.distributed sender channel bytes hold
      · intro sender channel ciphertext hciphertext
        rcases List.mem_append.mp hciphertext with hnew | hold
        · unfold newCiphertext at hnew
          split at hnew
          next channelId plaintext ciphertext' houtput =>
            cases List.mem_singleton.mp hnew
            exact ((hs.contexts address).groupEncrypt hsound s.draws channel plaintext).2
              ciphertext (Output.bytes.inj houtput)
          next => exact absurd hnew List.not_mem_nil
        · exact hs.encrypted sender channel ciphertext hold

include hfaithful hsound in
/-- With the comparisons nothing is accepted for another channel or sender. -/
theorem bindsChannel_of_compared {s : Group lib} (hs : SoundGroup rng chains s)
    {event : GroupEvent lib} (hcompared : Compared rng chains s event) :
    s.BindsChannel event := by
  cases event with
  | restart address => trivial
  | call address call =>
      cases call with
      | groupDecrypt senderHash channelId ciphertext =>
          intro plaintext hplaintext sender channel hsent
          obtain ⟨hid, n, hchain⟩ := hs.encrypted sender channel ciphertext hsent
          rcases (s.contexts address).groupDecrypt_cases senderHash channelId ciphertext with
            ⟨e, heq⟩ | ⟨id, plaintext', record, hid', hdecrypt, -⟩
          · rw [heq] at hplaintext
            cases hplaintext
          · cases hid.symm.trans hid'
            obtain ⟨before, chain, hbefore, hholds, hmessage, -, -⟩ := hsound.decrypt hdecrypt
            rcases hcompared _ hid with hsame | hnone
            · have howner := (hs.contexts address).holds senderHash _ before hbefore sender n
              rw [hchain] at hmessage
              cases hmessage
              exact ⟨howner hholds, hfaithful.channelDistributionId_inj hsame⟩
            · exact absurd (hnone.symm.trans hbefore) (Option.some_ne_none before).symm
      | processDistribution senderHash channelId bytes =>
          intro hok sender channel hcreated
          obtain ⟨skdm, hskdm, hid⟩ := hs.distributed sender channel bytes hcreated
          exact hfaithful.channelDistributionId_inj (hcompared skdm _ hskdm hid).1
      | createDistribution channelId => trivial
      | groupEncrypt channelId plaintext => trivial
      | hasKey senderHash channelId => trivial
      | removeChannel channelId => trivial
      | exportState order => trivial
      | importState data => trivial

end Runs

theorem soundGroup_new : SoundGroup rng chains ({} : Group lib) where
  contexts := soundContext_new
  exported := fun _ _ h => absurd h List.not_mem_nil
  distributed := fun _ _ _ h => absurd h List.not_mem_nil
  encrypted := fun _ _ _ h => absurd h List.not_mem_nil

/-- In every run whose steps compare the ids, nothing is accepted for a channel or from a
sender that it does not belong to. -/
theorem bindsChannel_run (hfaithful : lib.Faithful) (hsound : lib.SoundChains chains)
    (hfresh : ∀ x y n m, chains.fresh (rng x n) = chains.fresh (rng y m) → x = y)
    (events : List (GroupEvent lib)) (h : Along (step rng) (Compared rng chains) {} events) :
    Along (step rng) BindsChannel {} events :=
  along_of_invariant (fun _ _ hs hcompared => soundGroup_step hfaithful hsound hfresh hs hcompared)
    (fun _ _ hs hcompared => bindsChannel_of_compared hfaithful hsound hs hcompared)
    soundGroup_new h

section Example

private def chainExample : SymbolicDistribution := ⟨1, ("sender", 0), 0⟩

private def ciphertextExample : SymbolicBytes := .message 1 ("sender", 0) 0 (.text "hello")

/-- A distribution and a ciphertext for channel 1, the ciphertext delivered for a channel. -/
private def runExample (channelId : UInt32) : List (GroupEvent symbolic) :=
  [.call "sender" (.createDistribution 1),
    .call "receiver" (.processDistribution "sender" 1 (.distribution chainExample)),
    .call "sender" (.groupEncrypt 1 (.text "hello")),
    .call "receiver" (.groupDecrypt "sender" channelId ciphertextExample)]

private theorem fresh_owner (x y : String) (n m : ℕ)
    (h : Symbolic.chains.fresh (x, n) = Symbolic.chains.fresh (y, m)) : x = y :=
  congrArg Prod.fst h

theorem bindsChannel_run_example :
    Along (@step symbolic Prod.mk) BindsChannel {} (runExample 1) := by
  refine bindsChannel_run Symbolic.faithful Symbolic.soundChains fresh_owner (runExample 1)
    ⟨trivial, ?_, trivial, ?_, trivial⟩
  · intro skdm id hskdm hid
    cases hskdm
    cases hid
    exact ⟨rfl, fun address n h => (congrArg Prod.fst h).symm⟩
  · intro id hid
    cases hid
    exact .inl rfl

/-- A message for channel 1 is decrypted as a message of channel 2. -/
theorem message_moved_to_other_channel :
    ¬∀ (lib : Libraries) (chains : lib.Chains) (rng : String → ℕ → lib.Rng),
      lib.Faithful → lib.SoundChains chains →
        (∀ x y n m, chains.fresh (rng x n) = chains.fresh (rng y m) → x = y) →
          ∀ events, Along (step rng) BindsChannel ({} : Group lib) events := by
  intro h
  have hrun := h symbolic Symbolic.chains Prod.mk Symbolic.faithful Symbolic.soundChains
    fresh_owner (runExample 2)
  have hbinds := hrun.2.2.2.1 (.text "hello") rfl "sender" 1 List.mem_cons_self
  exact absurd hbinds.2 (by decide)

end Example

end Group

end FancyMumble.Signal
