import FancyMumble.Client.Pchat

/-!
# Archive keys after a restart

A client writes the archive keys that it derives or accepts to its disk, and the next
connection starts with what is on the disk then.
-/

namespace FancyMumble.Client

open Lib.Grouping Lib.Runs Persistent

inductive ClientEvent where
  | input (input : Participant.Input)
  | keyAnnounce (announce : PchatKeyAnnounce)
  | keyExchange (responseOrder groupOrder : HashOrder) (hasPlaceholders : Bool)
      (exchange : PchatKeyExchange)
  | approveKeyShare (nonce : List UInt8) (now : UInt64) (channelId : UInt32)
      (peerCertHash : String)
  | runTask (bridgeLoads : Bool) (task : ℕ)

def trustRank : KeyTrustLevel → ℕ
  | .disputed => 0
  | .unverified => 1
  | .verified => 2
  | .manuallyVerified => 3

namespace Participant

variable (account : Account)

def step (cl : Participant) : ClientEvent → Participant
  | .input input => cl.handle account input
  | .keyAnnounce announce => cl.handleKeyAnnounce account announce
  | .keyExchange responseOrder groupOrder hasPlaceholders exchange =>
      cl.handleKeyExchange account responseOrder groupOrder hasPlaceholders exchange
  | .approveKeyShare nonce now channelId peerCertHash =>
      (cl.approveKeyShare account nonce now channelId peerCertHash).1
  | .runTask bridgeLoads task => cl.runTask account bridgeLoads task

def channelOriginator (cl : Participant) (ch : UInt32) : Option String :=
  cl.shared.pchat.bind fun pchat => pchat.keyManager.channelOriginators ch

/-- The connection is lost in this state, and the next one starts with `pchat`: in between
there is no persistent chat, and tasks go on. -/
def Restarts (cl : Participant) (pchat : PchatState) : Prop :=
  ∃ events session fancyServer,
    let down := run (step account) (cl.handle account .disconnected) events
    Along (step account) (fun cl _ => cl.shared.pchat = none) (cl.handle account .disconnected)
        events ∧
      down.shared.pchat = none ∧
      (down.handle account (.serverSync session fancyServer)).shared.pchat = some pchat

/-- No restart raises the trust of the key that a channel has, or makes the client its
originator. -/
def KeepsTrust (cl : Participant) : Prop :=
  ∀ pchat, cl.Restarts account pchat → ∀ ch key trust key' trust',
    cl.archiveKey ch = some (key, trust) →
      pchat.keyManager.archiveKeys ch = some (key', trust') →
        trustRank trust' ≤ trustRank trust ∧
          (pchat.keyManager.channelOriginators ch = some account.certHash →
            cl.channelOriginator ch = some account.certHash)

/-- A task writes an entry to the disk without loading the signal library before, which gives
the task up when there is no persistent chat. -/
def Waits (ops : List Op) (ch : UInt32) (key : ChannelKey) (originator : Option String) : Prop :=
  ∃ earlier later, ops = earlier ++ .persistArchiveKey ch key originator :: later ∧
    ∀ id, .ensureSignalBridge id ∉ earlier

def Saved (cl : Participant) (ch : UInt32) (key : ChannelKey) (originator : Option String) :
    Prop :=
  cl.archiveKeysFile ch = some (key, originator) ∨ ∃ ops ∈ cl.tasks, Waits ops ch key originator

/-- What is saved for a channel that has a key is no better than the key: that is verified, and
if the entry names the client as originator, so does the key manager. -/
def HeldAsSaved (cl : Participant) : Prop :=
  account.identityDir = true → ∀ ch key originator, cl.Saved ch key originator →
    ∀ key' trust, cl.archiveKey ch = some (key', trust) →
      (trust = .verified ∨ trust = .manuallyVerified) ∧
        (originator = some account.certHash → cl.channelOriginator ch = some account.certHash)

variable {account} {cl : Participant} {ch : UInt32} {key : ChannelKey}
  {originator : Option String}

/-! ## What is saved while there is no persistent chat -/

theorem Waits.cons {ops : List Op} (h : Waits ops ch key originator) {op : Op}
    (hop : ∀ id, op ≠ .ensureSignalBridge id) : Waits (op :: ops) ch key originator := by
  obtain ⟨earlier, later, rfl, hbridge⟩ := h
  refine ⟨op :: earlier, later, rfl, fun id hid => ?_⟩
  rcases List.mem_cons.mp hid with heq | hearlier
  · exact hop id heq.symm
  · exact hbridge id hearlier

theorem Waits.of_append {ops rest : List Op} (h : Waits (ops ++ rest) ch key originator)
    (hops : ∀ c k o, .persistArchiveKey c k o ∉ ops) : Waits rest ch key originator := by
  obtain ⟨earlier, later, heq, hbridge⟩ := h
  rcases List.append_eq_append_iff.mp heq with ⟨skipped, rfl, hrest⟩ | ⟨tail, rfl, hrest⟩
  · refine ⟨skipped, later, hrest, fun id hid => ?_⟩
    exact hbridge id (List.mem_append_right ops hid)
  · cases tail with
    | nil => exact ⟨[], later, hrest.symm, fun _ => List.not_mem_nil⟩
    | cons op tail =>
        cases hrest
        exact absurd (List.mem_append_right earlier List.mem_cons_self) (hops ch key originator)

theorem needsKey_of_none (h : cl.shared.pchat = none) (ch : UInt32) (mode : PchatProtocol) :
    cl.needsKey ch mode = false := by
  unfold needsKey
  rw [h]
  rfl

theorem waits_of_afterOp (h : cl.shared.pchat = none) (bridgeLoads : Bool) (op : Op)
    (rest : List Op) (hwaits : Waits (cl.afterOp account bridgeLoads op rest) ch key originator) :
    Waits (op :: rest) ch key originator := by
  have hneeds := needsKey_of_none h
  cases op with
  | ensureSignalBridge id =>
      simp only [afterOp, h] at hwaits
      obtain ⟨earlier, later, heq, -⟩ := hwaits
      cases earlier <;> cases heq
  | resolveInitialChannel =>
      refine Waits.cons ?_ fun _ hop => by cases hop
      simp only [afterOp] at hwaits
      split at hwaits
      next c hcurrent =>
        split at hwaits
        next mode hmode =>
          split at hwaits
          next =>
            refine hwaits.of_append fun c' k o hmem => ?_
            cases mode <;> simp [initEncryptedChannel] at hmem
          next => exact hwaits
        next => exact hwaits
      next => exact hwaits
  | pchatInit c =>
      refine Waits.cons ?_ fun _ hop => by cases hop
      refine Waits.of_append hwaits fun c' k o hmem => ?_
      unfold pchatInitTask at hmem
      split at hmem <;> simp at hmem
  | keyGenAndFetch id =>
      refine Waits.cons ?_ fun _ hop => by cases hop
      simp only [afterOp] at hwaits
      split at hwaits
      next mode hmode =>
        split at hwaits
        next =>
          have hfetch : Waits ([.checkNeedsKeyAfterModeChange id mode,
              .fetchChannelHistory id] ++ rest) ch key originator := hwaits
          exact hfetch.of_append (by simp)
        next => exact hwaits
      next => exact hwaits
  | checkNeedsKeyOnJoin c =>
      refine Waits.cons ?_ fun _ hop => by cases hop
      simp only [afterOp] at hwaits
      split at hwaits
      next hany =>
        cases hmode : cl.mode c <;> simp [hmode, hneeds] at hany
      next => exact hwaits
  | checkNeedsKey c mode =>
      refine Waits.cons ?_ fun _ hop => by cases hop
      simp only [afterOp, hneeds] at hwaits
      exact hwaits
  | maybeDeriveArchiveKeyForJoin c =>
      refine Waits.cons ?_ fun _ hop => by cases hop
      simp only [afterOp, hneeds] at hwaits
      exact hwaits
  | deriveChannelKeyAsOriginator c =>
      refine Waits.cons ?_ fun _ hop => by cases hop
      simp only [afterOp, h] at hwaits
      rw [if_neg fun hand => by cases hand.2] at hwaits
      exact hwaits
  | checkNeedsKeyAfterModeChange id mode =>
      refine Waits.cons ?_ fun _ hop => by cases hop
      simp only [afterOp, hneeds] at hwaits
      exact hwaits
  | sendKeyAnnounce | ensureProtocolKey | reportKeyHolder | selfGenerateKey
  | fetchChannelHistory | deriveAndStoreArchiveKey | persistArchiveKey
  | deletePersistedArchiveKey | recordKeyHolder => exact Waits.cons hwaits fun _ hop => by cases hop

/-- From one state of a client to another nothing is written, and no task starts that is going
to write. -/
structure WritesNothing (before after : Participant) : Prop where
  file : after.archiveKeysFile = before.archiveKeysFile
  tasks : ∃ new : List (List Op), after.tasks = before.tasks ++ new ∧
    ∀ ops ∈ new, ∀ c k o, .persistArchiveKey c k o ∉ ops

theorem WritesNothing.of_eq {before after : Participant}
    (hfile : after.archiveKeysFile = before.archiveKeysFile)
    (htasks : after.tasks = before.tasks) : WritesNothing before after where
  file := hfile
  tasks := ⟨[], by rw [htasks, List.append_nil], fun _ hops => absurd hops List.not_mem_nil⟩

theorem WritesNothing.saved {before after : Participant} (h : WritesNothing before after)
    (hsaved : after.Saved ch key originator) : before.Saved ch key originator := by
  rcases hsaved with hfile | ⟨ops, hops, hwaits⟩
  · rw [h.file] at hfile
    exact .inl hfile
  · obtain ⟨new, htasks, hnew⟩ := h.tasks
    rw [htasks] at hops
    rcases List.mem_append.mp hops with hold | hmem
    · exact .inr ⟨ops, hold, hwaits⟩
    · obtain ⟨earlier, later, rfl, -⟩ := hwaits
      exact absurd (List.mem_append_right earlier List.mem_cons_self)
        (hnew _ hmem ch key originator)

/-- Without a persistent chat the relay cannot make a client write. -/
theorem writesNothing_handle (h : cl.shared.pchat = none) (input : Input) :
    WritesNothing cl (cl.handle account input) := by
  cases input with
  | serverSync session fancyServer =>
      simp only [handle, handleServerSync]
      split
      next =>
        refine ⟨rfl, [[.sendKeyAnnounce, .resolveInitialChannel]], rfl, fun ops hops c k o => ?_⟩
        rw [List.mem_singleton.mp hops]
        simp
      next => exact .of_eq rfl rfl
  | userState session hash channelId =>
      simp only [handle, handleUserState]
      split
      next c =>
        split
        next =>
          simp only [handleOwnChannelChange, h, Option.isSome_none]
          exact .of_eq rfl rfl
        next =>
          split
          next =>
            simp only [checkKeyShareForChannel, h]
            exact .of_eq rfl rfl
          next => exact .of_eq rfl rfl
      next => exact .of_eq rfl rfl
  | userRemove session => exact .of_eq rfl rfl
  | channelState id pchatProtocol pchatKeyCustodians =>
      constructor
      · simp only [handle, handleChannelState]
        split <;> rfl
      · refine ⟨_, handleChannelState_tasks cl id pchatProtocol pchatKeyCustodians,
          fun ops hops c k o => ?_⟩
        split at hops
        next =>
          rw [List.mem_singleton.mp hops]
          simp
        next => exact absurd hops List.not_mem_nil
  | channelRemove id =>
      simp only [handle, handleChannelRemove, h, Option.isSome_none]
      exact .of_eq rfl rfl
  | keyRequest channelId requesterHash requestId =>
      simp only [handle, handleKeyRequest, h]
      exact .of_eq rfl rfl
  | keyHoldersList channelId holders => exact .of_eq rfl rfl
  | keyChallengeResult channelId passed =>
      simp only [handle, handleKeyChallengeResult]
      split
      next => exact .of_eq rfl rfl
      next =>
        split
        next =>
          refine ⟨rfl, [[.deletePersistedArchiveKey channelId]], rfl, fun ops hops c k o => ?_⟩
          rw [List.mem_singleton.mp hops]
          simp
        next => exact .of_eq rfl rfl
  | disconnected => exact .of_eq rfl rfl
  | dismissKeyShare channelId peerCertHash => exact .of_eq rfl rfl

theorem archiveKeysFile_execOp (bridgeLoads : Bool) (cl : Participant) (op : Op) :
    (cl.execOp account bridgeLoads op).archiveKeysFile =
      match op with
      | .persistArchiveKey c k o => Function.update cl.archiveKeysFile c (some (k, o))
      | .deletePersistedArchiveKey c => Function.update cl.archiveKeysFile c none
      | _ => cl.archiveKeysFile := by
  cases op with
  | ensureProtocolKey c mode | maybeDeriveArchiveKeyForJoin c | deriveAndStoreArchiveKey c
  | reportKeyHolder c =>
      simp only [execOp]
      split <;> rfl
  | selfGenerateKey c | deriveChannelKeyAsOriginator c =>
      simp only [execOp]
      split <;> rfl
  | _ => rfl

/-- Without a persistent chat a task writes only what was going to be written. -/
theorem saved_of_runTask (h : cl.shared.pchat = none) (bridgeLoads : Bool) (task : ℕ)
    (hsaved : (cl.runTask account bridgeLoads task).Saved ch key originator) :
    cl.Saved ch key originator := by
  unfold runTask at hsaved
  split at hsaved
  next op rest htask =>
    have hmem : op :: rest ∈ cl.tasks := List.mem_of_getElem? htask
    rcases hsaved with hfile | ⟨ops, hops, hwaits⟩
    · have hfile' : (cl.execOp account bridgeLoads op).archiveKeysFile ch =
          some (key, originator) := hfile
      rw [archiveKeysFile_execOp] at hfile'
      split at hfile'
      next c k o =>
        by_cases hch : ch = c
        · rw [hch, Function.update_self] at hfile'
          cases hfile'
          refine .inr ⟨_, hmem, [], rest, ?_, fun _ => List.not_mem_nil⟩
          rw [hch]
          rfl
        · rw [Function.update_of_ne hch] at hfile'
          exact .inl hfile'
      next c =>
        by_cases hch : ch = c
        · rw [hch, Function.update_self] at hfile'
          cases hfile'
        · rw [Function.update_of_ne hch] at hfile'
          exact .inl hfile'
      next => exact .inl hfile'
    · rcases List.mem_or_eq_of_mem_set hops with hold | rfl
      · exact .inr ⟨ops, hold, hwaits⟩
      · exact .inr ⟨_, hmem, waits_of_afterOp h bridgeLoads op rest hwaits⟩
  next => exact hsaved

/-- While there is no persistent chat, nothing new is saved. -/
theorem saved_of_step (h : cl.shared.pchat = none) (event : ClientEvent)
    (hsaved : (cl.step account event).Saved ch key originator) : cl.Saved ch key originator := by
  cases event with
  | input input => exact (writesNothing_handle h input).saved hsaved
  | keyAnnounce announce =>
      have hstep : cl.step account (.keyAnnounce announce) = cl := by
        simp only [step, handleKeyAnnounce, h]
      rwa [hstep] at hsaved
  | keyExchange responseOrder groupOrder hasPlaceholders exchange =>
      have hstep : cl.step account
          (.keyExchange responseOrder groupOrder hasPlaceholders exchange) = cl := by
        simp only [step, handleKeyExchange, h]
      rwa [hstep] at hsaved
  | approveKeyShare nonce now channelId peerCertHash =>
      have hwrites : WritesNothing cl
          (cl.approveKeyShare account nonce now channelId peerCertHash).1 := by
        simp only [approveKeyShare, retainKeyShares, h]
        split <;> exact .of_eq rfl rfl
      exact hwrites.saved hsaved
  | runTask bridgeLoads task => exact saved_of_runTask h bridgeLoads task hsaved

theorem saved_of_run {events : List ClientEvent}
    (h : Along (step account) (fun cl _ => cl.shared.pchat = none) cl events)
    (hsaved : (run (step account) cl events).Saved ch key originator) :
    cl.Saved ch key originator := by
  induction events generalizing cl with
  | nil => exact hsaved
  | cons event events ih => exact saved_of_step h.1 event (ih h.2 hsaved)

theorem keyManager_of_serverSync {session : UInt32} {fancyServer : Bool} {pchat : PchatState}
    (h : cl.shared.pchat = none)
    (hsync : (cl.handle account (.serverSync session fancyServer)).shared.pchat = some pchat) :
    pchat.keyManager = cl.restoreArchiveKeys account := by
  simp only [handle, handleServerSync] at hsync
  split at hsync
  next =>
    rw [← Option.some.inj hsync]
    rfl
  next => cases h.symm.trans hsync

theorem saved_of_restarts {pchat : PchatState} (h : cl.Restarts account pchat) {key' : ChannelKey}
    {trust' : KeyTrustLevel} (hkey : pchat.keyManager.archiveKeys ch = some (key', trust')) :
    account.identityDir = true ∧ trust' = .verified ∧
      cl.Saved ch key' (pchat.keyManager.channelOriginators ch) := by
  obtain ⟨events, session, fancyServer, hdown, hnone, hsync⟩ := h
  rw [keyManager_of_serverSync hnone hsync] at hkey ⊢
  unfold restoreArchiveKeys at hkey ⊢
  split at hkey
  next hdir =>
    obtain ⟨entry, hentry, heq⟩ := Option.map_eq_some_iff.mp hkey
    cases heq
    rw [if_pos hdir]
    dsimp only
    rw [hentry]
    have hsaved : (cl.handle account .disconnected).Saved ch entry.1 entry.2 :=
      saved_of_run hdown (.inl hentry)
    exact ⟨hdir, rfl, hsaved⟩
  next => cases hkey

/-! ## What a restart can restore -/

theorem shared_execOp_of_disconnected (h : cl.shared = {}) (op : Op) :
    (cl.execOp account false op).shared = {} := by
  obtain ⟨shared, file, tasks, accepted⟩ := cl
  cases h
  cases op with
  | ensureProtocolKey c mode | maybeDeriveArchiveKeyForJoin c | deriveAndStoreArchiveKey c
  | reportKeyHolder c =>
      simp only [execOp]
      split <;> rfl
  | _ => rfl

def goesOn (rest : List Op) : Op → List Op
  | .pchatInit c => .checkNeedsKeyOnJoin c :: rest
  | _ => rest

theorem afterOp_of_disconnected (h : cl.shared = {}) (rest : List Op) {op : Op}
    (hbridge : ∀ id, op ≠ .ensureSignalBridge id) :
    cl.afterOp account false op rest = goesOn rest op := by
  obtain ⟨shared, file, tasks, accepted⟩ := cl
  cases h
  cases op with
  | ensureSignalBridge id => exact absurd rfl (hbridge id)
  | deriveChannelKeyAsOriginator c =>
      simp only [afterOp, goesOn]
      exact if_neg fun hand => Bool.false_ne_true hand.2
  | _ => rfl

theorem runTask_of_disconnected (account : Account) (h : cl.shared = {}) {task : ℕ} {op : Op}
    {rest : List Op}
    (htask : cl.tasks[task]? = some (op :: rest)) (hbridge : ∀ id, op ≠ .ensureSignalBridge id) :
    (cl.runTask account false task).shared = {} ∧
      (cl.runTask account false task).tasks[task]? = some (goesOn rest op) := by
  obtain ⟨hlt, -⟩ := List.getElem?_eq_some_iff.mp htask
  unfold runTask
  rw [htask]
  dsimp only
  rw [afterOp_of_disconnected h rest hbridge]
  exact ⟨shared_execOp_of_disconnected h op, List.getElem?_set_self hlt⟩

/-- After a lost connection, a task can get past operations that do not load the library. -/
theorem exists_run_past (account : Account) (h : cl.shared = {}) {task : ℕ}
    {earlier later : List Op}
    (htask : cl.tasks[task]? = some (earlier ++ later))
    (hbridge : ∀ id, .ensureSignalBridge id ∉ earlier) :
    ∃ events, Along (step account) (fun cl _ => cl.shared.pchat = none) cl events ∧
      (run (step account) cl events).shared = {} ∧
      (run (step account) cl events).tasks[task]? = some later := by
  induction earlier generalizing cl with
  | nil => exact ⟨[], trivial, h, htask⟩
  | cons op earlier ih =>
      have hop : ∀ id, op ≠ .ensureSignalBridge id := by
        intro id heq
        exact hbridge id (heq ▸ List.mem_cons_self)
      have hearlier : ∀ id, .ensureSignalBridge id ∉ earlier :=
        fun id hid => hbridge id (List.mem_cons_of_mem op hid)
      have hnone : ∀ {cl : Participant}, cl.shared = {} → cl.shared.pchat = none := by
        intro cl hcl
        rw [hcl]
      obtain ⟨hshared, hnext⟩ := runTask_of_disconnected account h htask hop
      by_cases hinit : ∃ c, op = .pchatInit c
      · -- one operation more, which finds no persistent chat
        obtain ⟨c, rfl⟩ := hinit
        obtain ⟨hshared', hnext'⟩ := runTask_of_disconnected account hshared hnext
          fun _ heq => by cases heq
        obtain ⟨events, halong, hdown, htasks⟩ := ih hshared' hnext' hearlier
        exact ⟨.runTask false task :: .runTask false task :: events,
          ⟨hnone h, hnone hshared, halong⟩, hdown, htasks⟩
      · have hgoesOn : goesOn (earlier ++ later) op = earlier ++ later := by
          cases op with
          | pchatInit c => exact absurd ⟨c, rfl⟩ hinit
          | _ => rfl
        rw [List.append_eq, hgoesOn] at hnext
        obtain ⟨events, halong, hdown, htasks⟩ := ih hshared hnext hearlier
        exact ⟨.runTask false task :: events, ⟨hnone h, halong⟩, hdown, htasks⟩

/-- What is saved can be on the disk after a lost connection. -/
theorem exists_run_of_saved (account : Account) (h : cl.shared = {})
    (hsaved : cl.Saved ch key originator) :
    ∃ events, Along (step account) (fun cl _ => cl.shared.pchat = none) cl events ∧
      (run (step account) cl events).shared = {} ∧
      (run (step account) cl events).archiveKeysFile ch = some (key, originator) := by
  rcases hsaved with hfile | ⟨ops, hops, earlier, later, rfl, hbridge⟩
  · exact ⟨[], trivial, h, hfile⟩
  · obtain ⟨task, htask⟩ := List.mem_iff_getElem?.mp hops
    obtain ⟨events, halong, hdown, hnext⟩ := exists_run_past account h htask hbridge
    refine ⟨events ++ [.runTask false task], ?_, ?_, ?_⟩
    · refine along_append.mpr ⟨halong, ?_, trivial⟩
      show (run (step account) cl events).shared.pchat = none
      rw [hdown]
    · rw [run_append]
      exact (runTask_of_disconnected account hdown hnext fun _ hop => by cases hop).1
    · rw [run_append]
      show ((run (step account) cl events).runTask account false task).archiveKeysFile ch = _
      unfold runTask
      rw [hnext]
      exact Function.update_self ch _ _

theorem exists_restart_of_file (hdir : account.identityDir = true)
    (hfile : cl.archiveKeysFile ch = some (key, originator)) :
    ∃ pchat, ((cl.step account (.input (.userState 0 (some "") none))).handle account
        (.serverSync 0 true)).shared.pchat = some pchat ∧
      pchat.keyManager.archiveKeys ch = some (key, .verified) ∧
      pchat.keyManager.channelOriginators ch = originator := by
  refine ⟨{ keyManager := cl.restoreArchiveKeys account }, ?_, ?_, ?_⟩
  · have hguard : (((cl.step account (.input (.userState 0 (some "") none))).shared.users.lookup
        0).bind UserEntry.hash).isSome ∧ True := by
      show (((cl.shared.users.insert 0 _).lookup 0).bind UserEntry.hash).isSome ∧ True
      rw [AList.lookup_insert]
      exact ⟨rfl, trivial⟩
    simp only [handle, handleServerSync]
    rw [if_pos hguard]
    rfl
  · unfold restoreArchiveKeys
    rw [if_pos hdir]
    show (cl.archiveKeysFile ch).map _ = _
    rw [hfile]
    rfl
  · unfold restoreArchiveKeys
    rw [if_pos hdir]
    show (cl.archiveKeysFile ch).bind Prod.snd = _
    rw [hfile]
    rfl

theorem exists_restarts_of_saved (hdir : account.identityDir = true)
    (hsaved : cl.Saved ch key originator) :
    ∃ pchat, cl.Restarts account pchat ∧
      pchat.keyManager.archiveKeys ch = some (key, .verified) ∧
      pchat.keyManager.channelOriginators ch = originator := by
  have hdisconnected : (cl.handle account .disconnected).Saved ch key originator := hsaved
  obtain ⟨events, halong, hdown, hfile⟩ :=
    exists_run_of_saved account rfl hdisconnected
  have hnone : (run (step account) (cl.handle account .disconnected) events).shared.pchat =
      none := by
    rw [hdown]
  obtain ⟨pchat, hsync, hkey, horiginator⟩ := exists_restart_of_file hdir hfile
  refine ⟨pchat, ⟨events ++ [.input (.userState 0 (some "") none)], 0, true, ?_, ?_, ?_⟩, hkey,
    horiginator⟩
  · exact along_append.mpr ⟨halong, hnone, trivial⟩
  · rw [run_append]
    exact hnone
  · rw [run_append]
    exact hsync

/-! ## Trust -/

theorem trustRank_verified_le {trust : KeyTrustLevel} :
    trustRank .verified ≤ trustRank trust ↔ trust = .verified ∨ trust = .manuallyVerified := by
  cases trust <;> decide

theorem keepsTrust_iff_heldAsSaved (account : Account) (cl : Participant) :
    cl.KeepsTrust account ↔ cl.HeldAsSaved account := by
  constructor
  · intro hkeeps hdir ch key originator hsaved key' trust hheld
    obtain ⟨pchat, hrestarts, hkey, horiginator⟩ := exists_restarts_of_saved hdir hsaved
    obtain ⟨htrust, hown⟩ := hkeeps pchat hrestarts ch key' trust key .verified hheld hkey
    refine ⟨trustRank_verified_le.mp htrust, fun heq => hown ?_⟩
    rw [horiginator, heq]
  · intro hheld pchat hrestarts ch key trust key' trust' hkey hrestored
    obtain ⟨hdir, rfl, hsaved⟩ := saved_of_restarts hrestarts hrestored
    obtain ⟨htrust, hown⟩ := hheld hdir ch key' _ hsaved key trust hkey
    exact ⟨trustRank_verified_le.mpr htrust, hown⟩

/-- In every run, restarts keep the trust in the keys exactly if what is saved is no better
than them. -/
theorem keepsTrust_run_iff (account : Account) (events : List ClientEvent) :
    Along (step account) (fun cl _ => cl.KeepsTrust account) {} events ↔
      Along (step account) (fun cl _ => cl.HeldAsSaved account) {} events := by
  exact along_congr fun cl _ => keepsTrust_iff_heldAsSaved account cl

section Example

private def unaskedExchange : PchatKeyExchange where
  channelId := 7
  protocol := "FANCY_V1_FULL_ARCHIVE"
  encryptedKey := List.replicate 32 2
  senderHash := "bert"
  recipientHash := "anna"
  timestamp := 0
  signature := []
  epochFingerprint := List.replicate 8 2

private def receivesUnasked : List ClientEvent :=
  [.input (.userState 1 (some "anna") (some 0)), .input (.serverSync 1 true),
    .keyAnnounce (KeyManager.buildKeyAnnounce .plain "bert" 0),
    .keyExchange .listed .listed false unaskedExchange]

/-- An unverified key is verified after a restart. -/
theorem unverified_key_restored_verified :
    ¬∀ (account : Account) (events : List ClientEvent),
      (run (step account) {} events).KeepsTrust account := by
  intro h
  have hheld := (keepsTrust_iff_heldAsSaved _ _).mp (h annaAccount receivesUnasked)
  have hsaved : (run (step annaAccount) {} receivesUnasked).Saved 7 (.replicate 2) none := by
    refine .inr ⟨[.reportKeyHolder 7, .persistArchiveKey 7 (.replicate 2) none], ?_,
      [.reportKeyHolder 7], [], rfl, fun id hid => ?_⟩
    · exact List.mem_append_right _ (List.mem_singleton_self _)
    · cases List.mem_singleton.mp hid
  have htrust := (hheld rfl 7 (.replicate 2) none hsaved (.replicate 2) .unverified rfl).1
  exact absurd htrust (by decide)

end Example

end Participant

end FancyMumble.Client
