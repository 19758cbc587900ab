import FancyMumble.Lib.Settling
import FancyMumble.Messages.Offloading
import Mathlib.Data.Finset.Basic

/-!
# The offload manager

The user interface offloads a message some time after it left the view, and restores it when it
is shown again. The manager records which messages are offloaded as the answers of the backend
arrive, in any order.
-/

namespace FancyMumble.Messages.OffloadManager

open Lib.FirstMatch Lib.Runs Lib.Settling
open Messages.LocalCache (WriteOutcome nonceLen)
open Offloading

/-! ## The provider -/

structure MessageScope where
  scope : String
  scopeId : String
deriving DecidableEq

/-- What `LocalEncryptedProvider` asks the backend for. -/
inductive Call where
  | store (key : String) (ctx : MessageScope)
  | retrieve (key : String) (ctx : MessageScope)
  | retrieveMany (keys : List String) (ctx : MessageScope)
  | dispose
deriving DecidableEq

inductive Answer where
  | stored (messageId : String) (result : Except String Unit)
  | retrieved (messageId : String) (body : Option String)
  | retrievedMany (toRestore : List String) (results : List (String × String))
  | disposed

variable {platform : Platform}

structure Circumstances (platform : Platform) where
  rng : Option (Vector platform.Byte nonceLen) := none
  outcome : WriteOutcome := .complete
  io : Io := {}

/-- The backend executes the command of a call. Failures to retrieve are turned into `null` or
into an empty record. -/
def Call.execute (backend : SharedState platform) (given : Circumstances platform) :
    Call → SharedState platform × Answer
  | .store key ctx =>
      let (backend, result) :=
        backend.offloadMessage key ctx.scope ctx.scopeId given.rng given.outcome
      (backend, .stored key result)
  | .retrieve key ctx =>
      let (backend, result) := backend.loadOffloadedMessage key ctx.scope ctx.scopeId given.io
      (backend, .retrieved key result.toOption)
  | .retrieveMany keys ctx =>
      let (backend, result) :=
        backend.loadOffloadedMessagesBatch keys ctx.scope ctx.scopeId given.io
      (backend, .retrievedMany keys (result.toOption.getD []))
  | .dispose => (backend.clearOffloaded given.io, .disposed)

def Call.reject (e : String) : Call → Answer
  | .store key _ => .stored key (.error e)
  | .retrieve key _ => .retrieved key none
  | .retrieveMany keys _ => .retrievedMany keys []
  | .dispose => .disposed

/-! ## The manager -/

structure MessageOffloadManager where
  offloaded : Finset String := ∅
  loading : Finset String := ∅
  pendingOffloads : String → Option MessageScope := fun _ => none

def objectPrototype : List String :=
  ["constructor", "__defineGetter__", "__defineSetter__", "hasOwnProperty", "__lookupGetter__",
    "__lookupSetter__", "isPrototypeOf", "propertyIsEnumerable", "toString", "valueOf",
    "__proto__", "toLocaleString"]

def hasProperty (results : List (String × String)) (id : String) : Bool :=
  id ∈ results.map Prod.fst ∨ id ∈ objectPrototype

namespace MessageOffloadManager

def dispose : MessageOffloadManager × List Call := ({}, [.dispose])

variable (manager : MessageOffloadManager)

def scheduleOffload (messageId : String) (ctx : MessageScope) : MessageOffloadManager :=
  if messageId ∈ manager.offloaded ∨ (manager.pendingOffloads messageId).isSome then manager
  else
    { manager with
      pendingOffloads := Function.update manager.pendingOffloads messageId (some ctx) }

def fire (messageId : String) : MessageOffloadManager × List Call :=
  match manager.pendingOffloads messageId with
  | none => (manager, [])
  | some ctx =>
      ({ manager with pendingOffloads := Function.update manager.pendingOffloads messageId none },
        [.store messageId ctx])

def cancelOffload (messageId : String) : MessageOffloadManager :=
  { manager with pendingOffloads := Function.update manager.pendingOffloads messageId none }

def restore (messageId : String) (ctx : MessageScope) : MessageOffloadManager × List Call :=
  if messageId ∉ manager.offloaded then (manager, [])
  else ({ manager with loading := insert messageId manager.loading }, [.retrieve messageId ctx])

def restoreMany (messageIds : List String) (ctx : MessageScope) :
    MessageOffloadManager × List Call :=
  let toRestore := messageIds.filter fun id => id ∈ manager.offloaded ∧ id ∉ manager.loading
  if toRestore = [] then (manager, [])
  else
    ({ manager with loading := manager.loading ∪ toRestore.toFinset },
      [.retrieveMany toRestore ctx])

def answered : Answer → MessageOffloadManager
  | .stored messageId (.ok ()) =>
      { manager with offloaded := insert messageId manager.offloaded }
  | .stored _ (.error _) => manager
  | .retrieved messageId _ =>
      { manager with
        offloaded := manager.offloaded.erase messageId
        loading := manager.loading.erase messageId }
  | .retrievedMany toRestore results =>
      { manager with
        offloaded := manager.offloaded.filter fun id =>
          ¬(id ∈ toRestore ∧ hasProperty results id = true)
        loading := manager.loading \ toRestore.toFinset }
  | .disposed => manager

end MessageOffloadManager

/-! ## The user interface and the backend -/

inductive Request where
  | scheduleOffload (messageId : String) (ctx : MessageScope)
  | cancelOffload (messageId : String)
  | restore (messageId : String) (ctx : MessageScope)
  | restoreMany (messageIds : List String) (ctx : MessageScope)
  | dispose
deriving DecidableEq

/-- The manager with the calls and the answers that are under way, the latter in the order in
which they were given, and the backend. The messages whose last visibility event was
`cancelOffload` are recorded for the statements only. -/
structure Interface (platform : Platform) where
  manager : MessageOffloadManager := {}
  calls : List Call := []
  answers : List Answer := []
  backend : SharedState platform
  shown : Finset String := ∅

namespace Interface

variable (s : Interface platform)

def request : Request → Interface platform
  | .scheduleOffload messageId ctx =>
      { s with
        manager := s.manager.scheduleOffload messageId ctx
        shown := s.shown.erase messageId }
  | .cancelOffload messageId =>
      { s with
        manager := s.manager.cancelOffload messageId
        shown := insert messageId s.shown }
  | .restore messageId ctx =>
      let (manager, calls) := s.manager.restore messageId ctx
      { s with manager, calls := s.calls ++ calls }
  | .restoreMany messageIds ctx =>
      let (manager, calls) := s.manager.restoreMany messageIds ctx
      { s with manager, calls := s.calls ++ calls }
  | .dispose =>
      let (manager, calls) := MessageOffloadManager.dispose
      { s with manager, calls := s.calls ++ calls }

/-- What happens: requests that are made in one go, a timer, and calls and answers, in any
order. -/
inductive Event (platform : Platform) where
  | task (requests : List Request)
  | fire (messageId : String)
  | execute (i : ℕ) (given : Circumstances platform)
  | reject (i : ℕ) (e : String)
  | deliver (i : ℕ)

def step : Event platform → Interface platform
  | .task requests => requests.foldl request s
  | .fire messageId =>
      let (manager, calls) := s.manager.fire messageId
      { s with manager, calls := s.calls ++ calls }
  | .execute i given =>
      match s.calls[i]? with
      | none => s
      | some call =>
          let (backend, answer) := call.execute s.backend given
          { s with backend, calls := s.calls.eraseIdx i, answers := s.answers ++ [answer] }
  | .reject i e =>
      match s.calls[i]? with
      | none => s
      | some call =>
          { s with calls := s.calls.eraseIdx i, answers := s.answers ++ [call.reject e] }
  | .deliver i =>
      match s.answers[i]? with
      | none => s
      | some answer =>
          { s with manager := s.manager.answered answer, answers := s.answers.eraseIdx i }

end Interface

/-! ## Agreement -/

def Holds (backend : SharedState platform) (messageId : String) : Prop :=
  ∃ t, ∃ row ∈ backend.rows t, row.messageId = some messageId ∧ row.Away

namespace Interface

variable (s : Interface platform)

structure Quiet : Prop where
  timers : ∀ messageId, s.manager.pendingOffloads messageId = none
  calls : s.calls = []
  answers : s.answers = []

/-- When nothing is outstanding, what the manager takes for offloaded is offloaded, and no
message whose last visibility event was `cancelOffload` is. No body is lost at any time. -/
structure Agrees : Prop where
  offloaded : s.Quiet → ∀ id, id ∈ s.manager.offloaded ↔ Holds s.backend id
  shown : s.Quiet → ∀ id ∈ s.shown, ¬Holds s.backend id
  kept : s.backend.Intact

end Interface

/-! ## When it is kept -/

def Call.Retrieves (messageId : String) : Call → Prop
  | .retrieve key _ => messageId = key
  | .retrieveMany keys _ => messageId ∈ keys
  | .store .. | .dispose => False

def Answer.effect (messageId : String) : Answer → Option Bool
  | .stored key (.ok ()) => if messageId = key then some true else none
  | .stored _ (.error _) => none
  | .retrieved key _ => if messageId = key then some false else none
  | .retrievedMany toRestore results =>
      if messageId ∈ toRestore ∧ hasProperty results messageId = true then some false else none
  | .disposed => none

theorem MessageOffloadManager.mem_answered (manager : MessageOffloadManager) (answer : Answer)
    (id : String) :
    decide (id ∈ (manager.answered answer).offloaded) =
      (answer.effect id).getD (decide (id ∈ manager.offloaded)) := by
  cases answer with
  | stored key result =>
      cases result with
      | error e => rfl
      | ok =>
          unfold MessageOffloadManager.answered Answer.effect
          dsimp only
          by_cases hid : id = key <;> simp [hid]
  | retrieved key body =>
      unfold MessageOffloadManager.answered Answer.effect
      dsimp only
      by_cases hid : id = key <;> simp [hid]
  | retrievedMany toRestore results =>
      unfold MessageOffloadManager.answered Answer.effect
      dsimp only
      by_cases hid : id ∈ toRestore ∧ hasProperty results id = true
      · rw [if_pos hid]
        simp [hid]
      · rw [if_neg hid]
        exact decide_eq_decide.mpr (Finset.mem_filter.trans (and_iff_left hid))
  | disposed => rfl

def CancelledLast (messageId : String) (requests : List Request) : Prop :=
  ∃ before after, requests = before ++ .cancelOffload messageId :: after ∧
    ∀ ctx, .scheduleOffload messageId ctx ∉ after

/-- The request restores a message, one that is not being loaded for several at once. -/
def Request.Restores (loading : Finset String) (messageId : String) : Request → Prop
  | .restore id _ => messageId = id
  | .restoreMany ids _ => messageId ∈ ids ∧ messageId ∉ loading
  | _ => False

namespace Interface

variable (s : Interface platform)

/-- A message that is shown again is not being stored, and if it is offloaded it is restored. -/
def KeepsShown (requests : List Request) : Prop :=
  ∀ id, CancelledLast id requests →
    (∀ ctx, .store id ctx ∉ s.calls) ∧
    (Holds s.backend id → (∃ call ∈ s.calls, call.Retrieves id) ∨
      id ∈ s.manager.offloaded ∧
        ∃ before after request, requests = before ++ request :: after ∧ .dispose ∉ before ∧
          request.Restores s.manager.loading id)

/-- The bodies that a call does not give back: none that was to be restored is offloaded, except
by a batch, which is not recorded as restored then and is restored again if it is shown. Nothing
is offloaded when all is to be cleared. -/
def KeepsUnrestored (others : List Call) (found : List String) : Call → Prop
  | .store .. => True
  | .retrieve key _ => key ∉ found → ¬Holds s.backend key
  | .retrieveMany keys _ => ∀ id ∈ keys, id ∉ found → Holds s.backend id →
      id ∉ objectPrototype ∧ (id ∈ s.shown → ∃ call ∈ others, call.Retrieves id)
  | .dispose => ∀ id, ¬Holds s.backend id

/-- Bodies are given back to the messages they are of, and to all messages of these ids. -/
structure KeepsFound (given : Circumstances platform) (keys : List String) (ctx : MessageScope) :
    Prop where
  restored : s.backend.KeepsRestored given.io keys (setThread ctx.scope ctx.scopeId)
  unique : ∀ t, ∀ row ∈ s.backend.unrestored ((s.backend.found given.io keys).map Prod.fst)
      (setThread ctx.scope ctx.scopeId) t, row.Away → ∀ id ∈ row.messageId,
    id ∉ (s.backend.found given.io keys).map Prod.fst

def KeepsBodies (given : Circumstances platform) : Call → Prop
  | .store key ctx =>
      s.backend.KeepsTransparent (.offload key ctx.scope ctx.scopeId given.rng given.outcome) ∧
        ∀ t, findThread ctx.scope ctx.scopeId = .ok t →
          ∀ row ∈ first Row.messageId key (s.backend.rows t),
            startsWithPlaceholder row.body = true → row.Away
  | .retrieve key ctx => s.KeepsFound given [key] ctx
  | .retrieveMany keys ctx => s.KeepsFound given keys ctx
  | .dispose => True

def found (given : Circumstances platform) : Call → List String
  | .retrieve key _ => (s.backend.found given.io [key]).map Prod.fst
  | .retrieveMany keys _ => (s.backend.found given.io keys).map Prod.fst
  | .store .. | .dispose => []

/-- A message that is shown is not being stored and is restored, what is to be restored is, and
the answers for a message do not arrive so that the last one given is overtaken by one that says
otherwise. -/
def KeepsAgreement : Event platform → Prop
  | .task requests => s.KeepsShown requests
  | .fire _ => True
  | .execute i given => ∀ call ∈ s.calls[i]?,
      s.KeepsBodies given call ∧ s.KeepsUnrestored (s.calls.eraseIdx i) (s.found given call) call
  | .reject i _ => ∀ call ∈ s.calls[i]?, s.KeepsUnrestored (s.calls.eraseIdx i) [] call
  | .deliver i => ∀ id, ∀ set ∈ lastSet (Answer.effect id) (s.answers.eraseIdx i),
      lastSet (Answer.effect id) s.answers = some set

end Interface

/-! ## What the backend holds -/

section Holds

variable {backend backend' : SharedState platform} {id : String}

theorem not_holds_iff :
    ¬Holds backend id ↔
      ∀ t, ∀ row ∈ backend.rows t, row.messageId = some id → ¬row.Away := by
  unfold Holds
  push Not
  rfl

theorem holds_congr (h : ∀ t, backend'.rows t = backend.rows t) :
    Holds backend' id ↔ Holds backend id := by
  unfold Holds
  simp only [h]

variable (id) in
theorem holds_placeholder (h : backend.Intact) {t : Thread} {key : String} {row : Row}
    (hrow : first Row.messageId key (backend.rows t) = some row)
    (hstarts : startsWithPlaceholder row.body = false) {contentLen : ℕ}
    (hrows : ∀ t', backend'.rows t' =
      if t' = t then
        modifyFirst Row.messageId key (Row.setBody (placeholder key contentLen)) (backend.rows t)
      else backend.rows t') :
    Holds backend' id ↔ id = key ∨ Holds backend id := by
  obtain ⟨hkey, hmem⟩ := key_of_first hrow
  by_cases hid : id = key
  · subst hid
    refine iff_of_true ?_ (.inl rfl)
    by_contra hnot
    have hall := not_holds_iff.mp hnot t
    rw [hrows, if_pos rfl, forall_mem_modifyFirst] at hall
    refine hall.1 row hrow hkey fun heq => ?_
    have hshown := h.shown_of_not_placeholder hmem hstarts
    have hbody : placeholder id contentLen = row.body := heq.trans hshown.symm
    rw [← hbody, SharedState.startsWithPlaceholder_placeholder] at hstarts
    cases hstarts
  · rw [or_iff_right hid, ← not_iff_not, not_holds_iff, not_holds_iff]
    refine forall_congr' fun t' => ?_
    rw [hrows]
    by_cases ht : t' = t
    · subst ht
      rw [if_pos rfl, forall_mem_modifyFirst, forall_mem_iff key (backend.rows t')]
      refine and_congr_left fun _ => forall₂_congr fun row' hrow' => ?_
      have hother : row'.messageId ≠ some id := fun heq =>
        hid (Option.some.inj (heq.symm.trans (key_of_first hrow').1))
      exact iff_of_true (fun heq => absurd heq hother) fun heq => absurd heq hother
    · rw [if_neg ht]

variable (id) in
theorem holds_restored (h : backend.Intact) {io : Io} {keys : List String}
    {target : Option Thread} (hrestores : backend.Restores io keys target backend')
    (hkeeps : backend.KeepsRestored io keys target)
    (hunique : ∀ t, ∀ row ∈ backend.unrestored ((backend.found io keys).map Prod.fst) target t,
      row.Away → ∀ id ∈ row.messageId, id ∉ (backend.found io keys).map Prod.fst) :
    Holds backend' id ↔ Holds backend id ∧ id ∉ (backend.found io keys).map Prod.fst := by
  have hlatest := hkeeps.latest h
  -- the rows with the id that no body was given back to
  have hothers : ¬Holds backend' id ↔
      ∀ t, ∀ row ∈ backend.unrestored ((backend.found io keys).map Prod.fst) target t,
        row.messageId = some id → ¬row.Away := by
    rw [not_holds_iff]
    refine forall_congr' fun t => ?_
    rw [hrestores.rows]
    unfold SharedState.unrestored
    by_cases htarget : target = some t
    · rw [if_pos htarget, if_pos htarget]
      refine (forall_mem_modifyAll Row.messageId_setBody
        (SharedState.nodup_found _ _) _).trans (and_iff_right ?_)
      exact fun entry hentry row hrow _ haway => haway (hlatest entry hentry t htarget row hrow)
    · rw [if_neg htarget, if_neg htarget]
  by_cases hfound : id ∈ (backend.found io keys).map Prod.fst
  · refine iff_of_false ?_ fun hand => hand.2 hfound
    refine hothers.mpr fun t row hrow hid haway => ?_
    exact hunique t row hrow haway id hid hfound
  · rw [and_iff_left hfound, ← not_iff_not, hothers, not_holds_iff]
    refine forall_congr' fun t => ?_
    unfold SharedState.unrestored
    by_cases htarget : target = some t
    · rw [if_pos htarget, forall_mem_iff_all (SharedState.nodup_found io keys) (backend.rows t)]
      refine (and_iff_right fun key hkey row hrow hid => ?_).symm
      cases hid.symm.trans (key_of_first hrow).1
      exact absurd hkey hfound
    · rw [if_neg htarget]

theorem mem_of_mem_found {io : Io} {keys : List String}
    (h : id ∈ (backend.found io keys).map Prod.fst) : id ∈ keys := by
  obtain ⟨entry, hentry, rfl⟩ := List.mem_map.mp h
  obtain ⟨key, hkey, hmap⟩ := List.mem_filterMap.mp hentry
  obtain ⟨body, -, rfl⟩ := Option.map_eq_some_iff.mp hmap
  exact List.mem_dedup.mp hkey

end Holds

/-! ## What an answer says -/

/-- The answer says of every message what the backend holds after it, or nothing, and then the
backend holds what it held before. -/
def Answer.Tells (answer : Answer) (backend backend' : SharedState platform) : Prop :=
  ∀ id, match answer.effect id with
    | some set => Holds backend' id ↔ set = true
    | none => Holds backend' id ↔ Holds backend id

section Tells

variable {s : Interface platform} {others : List Call}

theorem tells_reject {call : Call} (e : String) (hrestored : s.KeepsUnrestored others [] call) :
    (call.reject e).Tells s.backend s.backend := by
  intro id
  cases call with
  | store | dispose => exact Iff.rfl
  | retrieve key ctx =>
      unfold Call.reject Answer.effect
      dsimp only
      by_cases hid : id = key
      · subst hid
        simp only [if_true]
        exact iff_of_false (hrestored List.not_mem_nil) Bool.false_ne_true
      · simp only [if_neg hid]
  | retrieveMany keys ctx =>
      unfold Call.reject Answer.effect hasProperty
      dsimp only
      split
      next set heffect =>
        split at heffect
        next hid =>
          cases heffect
          obtain ⟨hkey, hproperty⟩ := hid
          refine iff_of_false (fun hheld => ?_) Bool.false_ne_true
          refine (hrestored id hkey List.not_mem_nil hheld).1 ?_
          exact (of_decide_eq_true hproperty).resolve_left List.not_mem_nil
        next => cases heffect
      next => exact Iff.rfl

theorem tells_store (h : s.backend.Intact) (given : Circumstances platform) {key : String}
    {ctx : MessageScope} (hbodies : s.KeepsBodies given (.store key ctx)) :
    ((Call.store key ctx).execute s.backend given).1.Intact ∧
      ((Call.store key ctx).execute s.backend given).2.Tells s.backend
        ((Call.store key ctx).execute s.backend given).1 := by
  obtain ⟨hkeeps, hplaceholder⟩ := hbodies
  refine ⟨((SharedState.transparent_offload_iff h _ _).mpr hkeeps).intact, fun id => ?_⟩
  unfold Call.execute
  dsimp only
  obtain ⟨e, heq, -⟩ | ⟨t, row, ht, hrow, hcases⟩ :=
    s.backend.offloadMessage_cases key ctx.scope ctx.scopeId given.rng given.outcome
  · rw [heq]
    exact Iff.rfl
  · obtain ⟨hstarts, heq⟩ | ⟨hstarts, -, stored, hthreads, -, hresult⟩ := hcases
    · rw [heq]
      by_cases hid : id = key
      · subst hid
        have haway := hplaceholder t ht row hrow hstarts
        obtain ⟨hkey, hmem⟩ := key_of_first hrow
        simp only [Answer.effect, if_true]
        exact iff_of_true ⟨t, row, hmem, hkey, haway⟩ trivial
      · simp only [Answer.effect, if_neg hid]
    · have hrows (t' : Thread) : stored.rows t' = s.backend.rows t' :=
        congrArg (fun threads => (threads t').getD []) hthreads
      obtain ⟨e, heq⟩ | ⟨-, heq⟩ := hresult
      · rw [heq]
        exact holds_congr hrows
      · rw [heq]
        let away := modifyFirst Row.messageId key
          (Row.setBody (placeholder key row.body.utf8ByteSize))
        have haway (t' : Thread) : (stored.mapThread t away).rows t' =
            if t' = t then away (s.backend.rows t) else s.backend.rows t' := by
          rw [SharedState.rows_mapThread t t' rfl, hrows, hrows]
        have hholds := holds_placeholder id h hrow hstarts haway
        by_cases hid : id = key
        · simp only [Answer.effect, if_pos hid]
          exact hholds.trans (iff_of_true (.inl hid) trivial)
        · simp only [Answer.effect, if_neg hid]
          exact hholds.trans (or_iff_right hid)

theorem tells_retrieve (h : s.backend.Intact) (given : Circumstances platform) {key : String}
    {ctx : MessageScope} (hbodies : s.KeepsBodies given (.retrieve key ctx))
    (hrestored : s.KeepsUnrestored others (s.found given (.retrieve key ctx))
      (.retrieve key ctx)) :
    ((Call.retrieve key ctx).execute s.backend given).1.Intact ∧
      ((Call.retrieve key ctx).execute s.backend given).2.Tells s.backend
        ((Call.retrieve key ctx).execute s.backend given).1 := by
  obtain ⟨hkeeps, hunique⟩ := hbodies
  unfold Interface.found at hrestored
  unfold Call.execute
  dsimp only at hrestored ⊢
  obtain ⟨e, heq, hfound⟩ | ⟨backend', body, heq, hfound, hrestores⟩ :=
    s.backend.loadOffloadedMessage_cases key ctx.scope ctx.scopeId given.io
  · rw [heq]
    rw [hfound] at hrestored
    exact ⟨h, tells_reject e hrestored⟩
  · rw [heq]
    refine ⟨(hrestores.intact_iff h).mpr hkeeps, fun id => ?_⟩
    have hholds := holds_restored id h hrestores hkeeps hunique
    rw [hfound, List.map_singleton, List.mem_singleton] at hholds
    by_cases hid : id = key
    · simp only [Answer.effect, if_pos hid]
      exact hholds.trans (iff_of_false (fun hand => hand.2 hid) Bool.false_ne_true)
    · simp only [Answer.effect, if_neg hid]
      exact hholds.trans (and_iff_left hid)

theorem tells_retrieveMany (h : s.backend.Intact) (given : Circumstances platform)
    {keys : List String} {ctx : MessageScope}
    (hbodies : s.KeepsBodies given (.retrieveMany keys ctx))
    (hrestored : s.KeepsUnrestored others (s.found given (.retrieveMany keys ctx))
      (.retrieveMany keys ctx)) :
    ((Call.retrieveMany keys ctx).execute s.backend given).1.Intact ∧
      ((Call.retrieveMany keys ctx).execute s.backend given).2.Tells s.backend
        ((Call.retrieveMany keys ctx).execute s.backend given).1 := by
  obtain ⟨hkeeps, hunique⟩ := hbodies
  unfold Interface.found at hrestored
  unfold Call.execute
  dsimp only at hrestored ⊢
  obtain ⟨e, heq, hfound⟩ | ⟨backend', heq, hrestores⟩ :=
    s.backend.loadOffloadedMessagesBatch_cases ctx.scope ctx.scopeId keys given.io
  · rw [heq]
    rw [hfound] at hrestored
    exact ⟨h, tells_reject e hrestored⟩
  · rw [heq]
    refine ⟨(hrestores.intact_iff h).mpr hkeeps, fun id => ?_⟩
    have hholds := holds_restored id h hrestores hkeeps hunique
    unfold Answer.effect hasProperty
    dsimp only
    split
    next set heffect =>
      split at heffect
      next hid =>
        cases heffect
        obtain ⟨hkey, hproperty⟩ := hid
        refine hholds.trans (iff_of_false (fun ⟨hheld, hnot⟩ => ?_) Bool.false_ne_true)
        obtain hfound | hproto := of_decide_eq_true hproperty
        · exact hnot hfound
        · exact (hrestored id hkey hnot hheld).1 hproto
      next => cases heffect
    next heffect =>
      refine hholds.trans (and_iff_left fun hfound => ?_)
      split at heffect
      next => cases heffect
      next hid => exact hid ⟨mem_of_mem_found hfound, decide_eq_true (.inl hfound)⟩

theorem tells_execute (h : s.backend.Intact) (given : Circumstances platform) {call : Call}
    (hbodies : s.KeepsBodies given call)
    (hrestored : s.KeepsUnrestored others (s.found given call) call) :
    (call.execute s.backend given).1.Intact ∧
      (call.execute s.backend given).2.Tells s.backend (call.execute s.backend given).1 := by
  cases call with
  | store => exact tells_store h given hbodies
  | retrieve => exact tells_retrieve h given hbodies hrestored
  | retrieveMany => exact tells_retrieveMany h given hbodies hrestored
  | dispose =>
      refine ⟨(SharedState.intact_clearOffloaded_iff h given.io).mpr ?_, fun _ => Iff.rfl⟩
      intro t row hrow haway id hid
      exact absurd ⟨t, row, hrow, hid, haway⟩ (hrestored id)

theorem store_of_effect {backend : SharedState platform} {given : Circumstances platform}
    {call : Call} {id : String}
    (h : (call.execute backend given).2.effect id = some true) : ∃ ctx, call = .store id ctx := by
  cases call with
  | store key ctx =>
      unfold Call.execute at h
      dsimp only at h
      cases hresult :
        (backend.offloadMessage key ctx.scope ctx.scopeId given.rng given.outcome).2 with
      | error e =>
          rw [hresult] at h
          cases h
      | ok =>
          rw [hresult] at h
          unfold Answer.effect at h
          dsimp only at h
          split at h
          next hid => exact ⟨ctx, by rw [hid]⟩
          next => cases h
  | retrieve | retrieveMany =>
      unfold Call.execute Answer.effect at h
      dsimp only at h
      split at h <;> cases h
  | dispose => cases h

theorem effect_of_found {given : Circumstances platform} {call : Call} {id : String}
    (h : id ∈ s.found given call) : (call.execute s.backend given).2.effect id = some false := by
  cases call with
  | store | dispose => cases h
  | retrieve key ctx => exact if_pos (List.mem_singleton.mp (mem_of_mem_found h))
  | retrieveMany keys ctx =>
      unfold Interface.found at h
      unfold Call.execute
      dsimp only at h ⊢
      obtain ⟨e, -, hfound⟩ | ⟨backend', heq, -⟩ :=
        s.backend.loadOffloadedMessagesBatch_cases ctx.scope ctx.scopeId keys given.io
      · rw [hfound] at h
        cases h
      · rw [heq]
        exact if_pos ⟨mem_of_mem_found h, decide_eq_true (.inl h)⟩

end Tells

/-! ## The invariant -/

namespace Interface

def settledOffloaded (s : Interface platform) (id : String) : Bool :=
  settled (Answer.effect id) (decide (id ∈ s.manager.offloaded)) s.answers

structure Records (s : Interface platform) : Prop where
  kept : s.backend.Intact
  holds : ∀ id, s.settledOffloaded id = true → Holds s.backend id
  recorded : ∀ id, Holds s.backend id → s.settledOffloaded id = true ∨ .dispose ∈ s.calls
  untimed : ∀ id ∈ s.shown, s.manager.pendingOffloads id = none

/-- A message that is shown is not being stored, and if it is offloaded it is being restored. -/
structure Shows (s : Interface platform) : Prop where
  unstored : ∀ id ∈ s.shown, ∀ ctx, .store id ctx ∉ s.calls
  restored : ∀ id ∈ s.shown, Holds s.backend id → ∃ call ∈ s.calls, call.Retrieves id

theorem Records.agrees {s : Interface platform} (hrecords : s.Records) (hshows : s.Shows) :
    s.Agrees where
  offloaded hquiet id := by
    have hsettled : s.settledOffloaded id = decide (id ∈ s.manager.offloaded) := by
      unfold settledOffloaded
      rw [hquiet.answers, settled_nil]
    constructor
    · intro hmem
      exact hrecords.holds id (hsettled.trans (decide_eq_true hmem))
    · intro hheld
      obtain hrecorded | hdispose := hrecords.recorded id hheld
      · exact of_decide_eq_true (hsettled.symm.trans hrecorded)
      · rw [hquiet.calls] at hdispose
        cases hdispose
  shown hquiet id hid hheld := by
    obtain ⟨call, hcall, -⟩ := hshows.restored id hid hheld
    rw [hquiet.calls] at hcall
    cases hcall
  kept := hrecords.kept

/-! ### Requests -/

section Requests

variable (s : Interface platform) (asked : Request)

theorem backend_request : (s.request asked).backend = s.backend := by
  cases asked <;> rfl

theorem answers_request : (s.request asked).answers = s.answers := by
  cases asked <;> rfl

theorem calls_request : ∃ calls, (s.request asked).calls = s.calls ++ calls ∧
    ∀ id ctx, .store id ctx ∉ calls := by
  cases asked with
  | scheduleOffload | cancelOffload => exact ⟨[], (List.append_nil _).symm, by simp⟩
  | restore messageId ctx =>
      refine ⟨(s.manager.restore messageId ctx).2, rfl, fun id ctx => ?_⟩
      unfold MessageOffloadManager.restore
      split <;> simp
  | restoreMany messageIds ctx =>
      refine ⟨(s.manager.restoreMany messageIds ctx).2, rfl, fun id ctx => ?_⟩
      unfold MessageOffloadManager.restoreMany
      dsimp only
      split <;> simp
  | dispose => exact ⟨[.dispose], rfl, by simp⟩

theorem offloaded_request (h : asked ≠ .dispose) :
    (s.request asked).manager.offloaded = s.manager.offloaded := by
  cases asked with
  | scheduleOffload =>
      unfold Interface.request MessageOffloadManager.scheduleOffload
      dsimp only
      split <;> rfl
  | cancelOffload => rfl
  | restore =>
      unfold Interface.request MessageOffloadManager.restore
      dsimp only
      split <;> rfl
  | restoreMany =>
      unfold Interface.request MessageOffloadManager.restoreMany
      dsimp only
      split <;> rfl
  | dispose => exact absurd rfl h

theorem settledOffloaded_request (s : Interface platform) (asked : Request) :
    (s.request asked).settledOffloaded = s.settledOffloaded ∨
      (∀ id, (s.request asked).settledOffloaded id = true → s.settledOffloaded id = true) ∧
        .dispose ∈ (s.request asked).calls := by
  by_cases hdispose : asked = .dispose
  · subst hdispose
    refine .inr ⟨fun id hid => ?_, List.mem_append_right _ List.mem_cons_self⟩
    unfold settledOffloaded at hid ⊢
    rw [answers_request] at hid
    cases hlast : lastSet (Answer.effect id) s.answers with
    | none =>
        rw [settled_of_lastSet_none hlast] at hid
        cases hid
    | some set =>
        rw [settled_of_lastSet hlast] at hid ⊢
        exact hid
  · refine .inl (funext fun id => ?_)
    unfold settledOffloaded
    rw [answers_request, offloaded_request s asked hdispose]

theorem untimed_request {s : Interface platform}
    (h : ∀ id ∈ s.shown, s.manager.pendingOffloads id = none) (asked : Request) :
    ∀ id ∈ (s.request asked).shown, (s.request asked).manager.pendingOffloads id = none := by
  cases asked with
  | scheduleOffload messageId ctx =>
      intro id hid
      obtain ⟨hne, hid⟩ := Finset.mem_erase.mp hid
      unfold Interface.request MessageOffloadManager.scheduleOffload
      dsimp only
      split
      next => exact h id hid
      next => exact (Function.update_of_ne hne _ _).trans (h id hid)
  | cancelOffload messageId =>
      intro id hid
      unfold Interface.request MessageOffloadManager.cancelOffload
      dsimp only
      rw [Function.update_apply]
      split
      next => rfl
      next hne => exact h id (Finset.mem_of_mem_insert_of_ne hid hne)
  | restore =>
      unfold Interface.request MessageOffloadManager.restore
      dsimp only
      split <;> exact h
  | restoreMany =>
      unfold Interface.request MessageOffloadManager.restoreMany
      dsimp only
      split <;> exact h
  | dispose => exact fun _ _ => rfl

theorem Records.request {s : Interface platform} (h : s.Records) (asked : Request) :
    (s.request asked).Records := by
  have hbackend := backend_request s asked
  have hsettled := settledOffloaded_request s asked
  obtain ⟨calls, hcalls, -⟩ := calls_request s asked
  refine ⟨?_, fun id hid => ?_, fun id hheld => ?_, untimed_request h.untimed asked⟩
  · rw [hbackend]
    exact h.kept
  · rw [hbackend]
    obtain heq | ⟨hsub, -⟩ := hsettled
    · exact h.holds id (heq ▸ hid)
    · exact h.holds id (hsub id hid)
  · obtain heq | ⟨-, hdispose⟩ := hsettled
    · rw [heq, hcalls]
      rw [hbackend] at hheld
      exact (h.recorded id hheld).imp_right (List.mem_append_left _)
    · exact .inr hdispose

theorem mem_calls_request {call : Call} (h : call ∈ s.calls) : call ∈ (s.request asked).calls := by
  obtain ⟨calls, hcalls, -⟩ := calls_request s asked
  rw [hcalls]
  exact List.mem_append_left _ h

theorem loading_request {id : String} (h : id ∈ (s.request asked).manager.loading) :
    id ∈ s.manager.loading ∨ ∃ call ∈ (s.request asked).calls, call.Retrieves id := by
  cases asked with
  | scheduleOffload messageId ctx =>
      unfold Interface.request MessageOffloadManager.scheduleOffload at h
      dsimp only at h
      split at h <;> exact .inl h
  | cancelOffload => exact .inl h
  | restore messageId ctx =>
      unfold Interface.request MessageOffloadManager.restore at h ⊢
      dsimp only at h ⊢
      split at h
      next => exact .inl h
      next hmem =>
        rw [if_neg hmem]
        refine (Finset.mem_insert.mp h).symm.imp_right fun heq => ?_
        exact ⟨_, List.mem_append_right _ List.mem_cons_self, heq⟩
  | restoreMany messageIds ctx =>
      unfold Interface.request MessageOffloadManager.restoreMany at h ⊢
      dsimp only at h ⊢
      split at h
      next => exact .inl h
      next hne =>
        rw [if_neg hne]
        refine (Finset.mem_union.mp h).imp_right fun hmem => ?_
        exact ⟨_, List.mem_append_right _ List.mem_cons_self, List.mem_toFinset.mp hmem⟩
  | dispose => cases h

theorem retrieves_request {id : String} (hmem : id ∈ s.manager.offloaded)
    (h : asked.Restores s.manager.loading id) :
    ∃ call ∈ (s.request asked).calls, call.Retrieves id := by
  cases asked with
  | scheduleOffload | cancelOffload | dispose => exact h.elim
  | restore messageId ctx =>
      cases h
      unfold Interface.request MessageOffloadManager.restore
      dsimp only
      rw [if_neg (not_not.mpr hmem)]
      exact ⟨_, List.mem_append_right _ List.mem_cons_self, rfl⟩
  | restoreMany messageIds ctx =>
      obtain ⟨hid, hloading⟩ := h
      unfold Interface.request MessageOffloadManager.restoreMany
      dsimp only
      have hrestore : id ∈ messageIds.filter fun id =>
          id ∈ s.manager.offloaded ∧ id ∉ s.manager.loading :=
        List.mem_filter.mpr ⟨hid, decide_eq_true ⟨hmem, hloading⟩⟩
      rw [if_neg (List.ne_nil_of_mem hrestore)]
      exact ⟨_, List.mem_append_right _ List.mem_cons_self, hrestore⟩

end Requests

/-! ### Tasks -/

section Tasks

theorem backend_task (s : Interface platform) (requests : List Request) :
    (requests.foldl request s).backend = s.backend := by
  induction requests generalizing s with
  | nil => rfl
  | cons asked rest ih => exact (ih _).trans (backend_request s asked)

theorem mem_calls_task {s : Interface platform} {requests : List Request} {call : Call}
    (h : call ∈ s.calls) : call ∈ (requests.foldl request s).calls := by
  induction requests generalizing s with
  | nil => exact h
  | cons asked rest ih => exact ih (mem_calls_request s asked h)

theorem store_mem_calls_task {s : Interface platform} {requests : List Request} {id : String}
    {ctx : MessageScope} (h : .store id ctx ∈ (requests.foldl request s).calls) :
    .store id ctx ∈ s.calls := by
  induction requests generalizing s with
  | nil => exact h
  | cons asked rest ih =>
      obtain ⟨calls, hcalls, hstores⟩ := calls_request s asked
      have hmem := ih h
      rw [hcalls] at hmem
      exact (List.mem_append.mp hmem).resolve_right (hstores id ctx)

theorem shown_task {s : Interface platform} {requests : List Request} {id : String}
    (h : id ∈ (requests.foldl request s).shown) :
    CancelledLast id requests ∨
      id ∈ s.shown ∧ ∀ ctx, .scheduleOffload id ctx ∉ requests := by
  induction requests generalizing s with
  | nil => exact .inr ⟨h, fun _ => List.not_mem_nil⟩
  | cons asked rest ih =>
      obtain ⟨before, after, rfl, hafter⟩ | ⟨hshown, hrest⟩ := ih h
      · exact .inl ⟨asked :: before, after, rfl, hafter⟩
      · cases asked with
        | scheduleOffload messageId ctx =>
            obtain ⟨hne, hid⟩ := Finset.mem_erase.mp hshown
            refine .inr ⟨hid, fun ctx' hmem => ?_⟩
            obtain heq | hmem := List.mem_cons.mp hmem
            · cases heq
              exact hne rfl
            · exact hrest ctx' hmem
        | cancelOffload messageId =>
            obtain rfl | hid := Finset.mem_insert.mp hshown
            · exact .inl ⟨[], rest, rfl, hrest⟩
            · refine .inr ⟨hid, fun ctx hmem => ?_⟩
              exact hrest ctx ((List.mem_cons.mp hmem).resolve_left nofun)
        | restore | restoreMany | dispose =>
            refine .inr ⟨hshown, fun ctx hmem => ?_⟩
            exact hrest ctx ((List.mem_cons.mp hmem).resolve_left nofun)

theorem manager_task {s : Interface platform} {requests : List Request}
    (h : .dispose ∉ requests) (id : String) :
    (requests.foldl request s).manager.offloaded = s.manager.offloaded ∧
      (id ∈ (requests.foldl request s).manager.loading →
        id ∈ s.manager.loading ∨
          ∃ call ∈ (requests.foldl request s).calls, call.Retrieves id) := by
  induction requests generalizing s with
  | nil => exact ⟨rfl, .inl⟩
  | cons asked rest ih =>
      obtain ⟨hasked, hrest⟩ := List.ne_and_not_mem_of_not_mem_cons h
      obtain ⟨hoffloaded, hloading⟩ := ih (s := s.request asked) hrest
      refine ⟨hoffloaded.trans (offloaded_request s asked hasked.symm), fun hid => ?_⟩
      obtain hid | hcall := hloading hid
      · refine (loading_request s asked hid).imp_right ?_
        rintro ⟨call, hcall, hretrieves⟩
        exact ⟨call, mem_calls_task (s := s.request asked) hcall, hretrieves⟩
      · exact .inr hcall

theorem retrieves_task {s : Interface platform} {before after : List Request} {asked : Request}
    {id : String} (hmem : id ∈ s.manager.offloaded) (hbefore : .dispose ∉ before)
    (h : asked.Restores s.manager.loading id) :
    ∃ call ∈ ((before ++ asked :: after).foldl request s).calls, call.Retrieves id := by
  rw [List.foldl_append, List.foldl_cons]
  obtain ⟨hoffloaded, hloading⟩ := manager_task (s := s) hbefore id
  have hnow : (∃ call ∈ (before.foldl request s).calls, call.Retrieves id) ∨
      asked.Restores (before.foldl request s).manager.loading id := by
    cases asked with
    | scheduleOffload | cancelOffload | dispose => exact h.elim
    | restore => exact .inr h
    | restoreMany ids ctx =>
        by_cases hid : id ∈ (before.foldl request s).manager.loading
        · exact .inl ((hloading hid).resolve_left h.2)
        · exact .inr ⟨h.1, hid⟩
  obtain ⟨call, hcall, hretrieves⟩ | hrestores := hnow
  · exact ⟨call, mem_calls_task (mem_calls_request _ asked hcall), hretrieves⟩
  · obtain ⟨call, hcall, hretrieves⟩ :=
      retrieves_request (before.foldl request s) asked (hoffloaded ▸ hmem) hrestores
    exact ⟨call, mem_calls_task hcall, hretrieves⟩

theorem Records.task {s : Interface platform} (h : s.Records) (requests : List Request) :
    (requests.foldl Interface.request s).Records := by
  induction requests generalizing s with
  | nil => exact h
  | cons asked rest ih => exact ih (h.request asked)

theorem Shows.task {s : Interface platform} (h : s.Shows) {requests : List Request}
    (hkeeps : s.KeepsShown requests) : (requests.foldl request s).Shows where
  unstored id hid ctx hmem := by
    have hstore := store_mem_calls_task hmem
    obtain hcancelled | ⟨hshown, -⟩ := shown_task hid
    · exact (hkeeps id hcancelled).1 ctx hstore
    · exact h.unstored id hshown ctx hstore
  restored id hid hheld := by
    rw [backend_task] at hheld
    have hunderway (hcall : ∃ call ∈ s.calls, call.Retrieves id) :
        ∃ call ∈ (requests.foldl request s).calls, call.Retrieves id := by
      obtain ⟨call, hcall, hretrieves⟩ := hcall
      exact ⟨call, mem_calls_task hcall, hretrieves⟩
    obtain hcancelled | ⟨hshown, -⟩ := shown_task hid
    · obtain hcall | ⟨hmem, before, after, asked, rfl, hbefore, hrestores⟩ :=
        (hkeeps id hcancelled).2 hheld
      · exact hunderway hcall
      · exact retrieves_task hmem hbefore hrestores
    · exact hunderway (h.restored id hshown hheld)

end Tasks

/-! ### Calls and answers -/

section Answers

variable {s : Interface platform}

theorem settledOffloaded_answer (s : Interface platform) (backend : SharedState platform)
    (calls : List Call) (answer : Answer) (id : String) :
    ({ s with backend, calls, answers := s.answers ++ [answer] } :
      Interface platform).settledOffloaded id =
        (answer.effect id).getD (s.settledOffloaded id) :=
  settled_concat

theorem Records.answer (h : s.Records) {i : ℕ} {call : Call} (hcall : s.calls[i]? = some call)
    {backend : SharedState platform} {answer : Answer} (hkept : backend.Intact)
    (htells : answer.Tells s.backend backend)
    (hdispose : call = .dispose → ∀ id, ¬Holds backend id) :
    ({ s with backend, calls := s.calls.eraseIdx i, answers := s.answers ++ [answer] } :
      Interface platform).Records := by
  refine ⟨hkept, fun id hid => ?_, fun id hheld => ?_, h.untimed⟩
  · have htold := htells id
    rw [settledOffloaded_answer] at hid
    cases heffect : answer.effect id with
    | none =>
        rw [heffect] at htold hid
        exact htold.mpr (h.holds id hid)
    | some set =>
        rw [heffect] at htold hid
        exact htold.mpr hid
  · have htold := htells id
    rw [settledOffloaded_answer]
    cases heffect : answer.effect id with
    | none =>
        rw [heffect] at htold
        refine (h.recorded id (htold.mp hheld)).imp_right fun hmem => ?_
        refine mem_eraseIdx_of_ne hcall hmem fun heq => ?_
        exact hdispose heq.symm id hheld
    | some set =>
        rw [heffect] at htold
        exact .inl (htold.mp hheld)

theorem Shows.answer (h : s.Shows) {i : ℕ} {call : Call} (hcall : s.calls[i]? = some call)
    {found : List String} (hrestored : s.KeepsUnrestored (s.calls.eraseIdx i) found call)
    {backend : SharedState platform} {answer : Answer}
    (hheld : ∀ id, Holds backend id →
      Holds s.backend id ∧ id ∉ found ∨ ∃ ctx, call = .store id ctx) :
    ({ s with backend, calls := s.calls.eraseIdx i, answers := s.answers ++ [answer] } :
      Interface platform).Shows := by
  refine ⟨fun id hid ctx hmem => ?_, fun id hid hholds => ?_⟩
  · exact h.unstored id hid ctx (List.eraseIdx_subset hmem)
  · obtain ⟨hold, hfound⟩ | ⟨ctx, rfl⟩ := hheld id hholds
    · by_cases hretrieves : call.Retrieves id
      · cases call with
        | store | dispose => exact hretrieves.elim
        | retrieve key ctx =>
            cases hretrieves
            exact absurd hold (hrestored hfound)
        | retrieveMany keys ctx => exact (hrestored id hretrieves hfound hold).2 hid
      · obtain ⟨other, hother, hagain⟩ := h.restored id hid hold
        refine ⟨other, mem_eraseIdx_of_ne hcall hother ?_, hagain⟩
        rintro rfl
        exact hretrieves hagain
    · exact absurd (List.mem_of_getElem? hcall) (h.unstored id hid ctx)

theorem Records.deliver (h : s.Records) {i : ℕ} {answer : Answer}
    (hanswer : s.answers[i]? = some answer) (hkeeps : s.KeepsAgreement (.deliver i)) :
    ({ s with manager := s.manager.answered answer, answers := s.answers.eraseIdx i } :
      Interface platform).Records := by
  have hsettled (id : String) : ({ s with
        manager := s.manager.answered answer, answers := s.answers.eraseIdx i } :
      Interface platform).settledOffloaded id = s.settledOffloaded id := by
    unfold settledOffloaded
    rw [← settled_eraseIdx hanswer (hkeeps id)]
    refine congrArg (settled (Answer.effect id) · (s.answers.eraseIdx i)) ?_
    exact s.manager.mem_answered answer id
  refine ⟨h.kept, fun id hid => ?_, fun id hheld => ?_, fun id hid => ?_⟩
  · exact h.holds id (hsettled id ▸ hid)
  · exact (h.recorded id hheld).imp_left (hsettled id).trans
  · refine Eq.trans ?_ (h.untimed id hid)
    cases answer with
    | stored key result => cases result <;> rfl
    | retrieved | retrievedMany | disposed => rfl

end Answers

theorem records_and_shows_fire {s : Interface platform} (hrecords : s.Records)
    (hshows : s.Shows) (messageId : String) :
    (s.step (.fire messageId)).Records ∧ (s.step (.fire messageId)).Shows := by
  unfold Interface.step MessageOffloadManager.fire
  dsimp only
  cases hpending : s.manager.pendingOffloads messageId with
  | none =>
      dsimp only
      rw [List.append_nil]
      exact ⟨hrecords, hshows⟩
  | some ctx =>
      refine ⟨⟨hrecords.kept, hrecords.holds, fun id hheld => ?_, fun id hid => ?_⟩,
        fun id hid ctx' hmem => ?_, fun id hid hheld => ?_⟩
      · exact (hrecords.recorded id hheld).imp_right (List.mem_append_left _)
      · refine (Function.update_apply ..).trans ?_
        split
        next => rfl
        next => exact hrecords.untimed id hid
      · obtain hmem | hmem := List.mem_append.mp hmem
        · exact hshows.unstored id hid ctx' hmem
        · cases List.mem_singleton.mp hmem
          cases hpending.symm.trans (hrecords.untimed _ hid)
      · obtain ⟨call, hcall, hretrieves⟩ := hshows.restored id hid hheld
        exact ⟨call, List.mem_append_left _ hcall, hretrieves⟩

/-- Every step that meets the condition keeps the invariant. -/
theorem records_and_shows_step {s : Interface platform} (hrecords : s.Records) (hshows : s.Shows)
    (event : Event platform) (hkeeps : s.KeepsAgreement event) :
    (s.step event).Records ∧ (s.step event).Shows := by
  cases event with
  | task requests => exact ⟨hrecords.task requests, hshows.task hkeeps⟩
  | fire messageId => exact records_and_shows_fire hrecords hshows messageId
  | execute i given =>
      unfold Interface.step
      dsimp only
      cases hcall : s.calls[i]? with
      | none => exact ⟨hrecords, hshows⟩
      | some call =>
          obtain ⟨hbodies, hrestored⟩ := hkeeps call hcall
          obtain ⟨hkept, htells⟩ := tells_execute hrecords.kept given hbodies hrestored
          refine ⟨hrecords.answer hcall hkept htells ?_,
            hshows.answer hcall hrestored fun id hheld => ?_⟩
          · rintro rfl id hheld
            exact hrestored id hheld
          · have htold := htells id
            cases heffect : (call.execute s.backend given).2.effect id with
            | none =>
                rw [heffect] at htold
                refine .inl ⟨htold.mp hheld, fun hfound => ?_⟩
                cases heffect.symm.trans (effect_of_found hfound)
            | some set =>
                rw [heffect] at htold
                cases htold.mp hheld
                exact .inr (store_of_effect heffect)
  | reject i e =>
      unfold Interface.step
      dsimp only
      cases hcall : s.calls[i]? with
      | none => exact ⟨hrecords, hshows⟩
      | some call =>
          have hrestored := hkeeps call hcall
          refine ⟨hrecords.answer hcall hrecords.kept (tells_reject e hrestored) ?_,
            hshows.answer hcall hrestored fun id hheld => .inl ⟨hheld, List.not_mem_nil⟩⟩
          rintro rfl id hheld
          exact hrestored id hheld
  | deliver i =>
      unfold Interface.step
      dsimp only
      cases hanswer : s.answers[i]? with
      | none => exact ⟨hrecords, hshows⟩
      | some answer => exact ⟨hrecords.deliver hanswer hkeeps, hshows.unstored, hshows.restored⟩

/-- In every run from messages that all show their bodies, the manager agrees with the backend in
every state, if shown messages are restored and not being stored, what is to be restored is, and
no answer that was given last is overtaken by one that says otherwise. -/
theorem quiet_agrees_run {backend : SharedState platform}
    (hshown : ∀ t, ∀ row ∈ backend.rows t, ¬row.Away) {events : List (Event platform)}
    (h : Along step KeepsAgreement { backend } events) :
    Along step (fun s event => (s.step event).Agrees) { backend } events := by
  have hstep (s : Interface platform) (event : Event platform) (hs : s.Records ∧ s.Shows)
      (hkeeps : s.KeepsAgreement event) : (s.step event).Records ∧ (s.step event).Shows :=
    records_and_shows_step hs.1 hs.2 event hkeeps
  refine along_of_invariant hstep (fun s event hs hkeeps => ?_) ⟨⟨?_, ?_, ?_, ?_⟩, ?_, ?_⟩ h
  · have hnext := hstep s event hs hkeeps
    exact hnext.1.agrees hnext.2
  · exact fun t row hrow haway => absurd haway (hshown t row hrow)
  · exact fun _ hid => nomatch hid
  · rintro id ⟨t, row, hrow, -, haway⟩
    exact absurd haway (hshown t row hrow)
  · exact fun _ _ => rfl
  · exact fun _ hid => absurd hid (Finset.notMem_empty _)
  · exact fun _ hid => absurd hid (Finset.notMem_empty _)

section Example

private def general : MessageScope := ⟨"channel", "0"⟩

private def oneMessage : SharedState sealingPlatform where
  threads t := if t = .channel 0 then some [.new (some "id") "body"] else none
  offloadStore := some {}

private theorem shown_oneMessage (t : Thread) (row : Row) (h : row ∈ oneMessage.rows t) :
    ¬row.Away := by
  unfold SharedState.rows oneMessage at h
  dsimp only at h
  split at h
  next =>
    cases List.mem_singleton.mp h
    exact not_not.mpr rfl
  next => cases h

private def sealedWell : Circumstances sealingPlatform where
  rng := some (.replicate nonceLen (.text ""))

private def awayRow : Row := ⟨some "id", placeholder "id" 4, "body"⟩

/-- The backend after the message has been offloaded. -/
private def oneAway : SharedState sealingPlatform :=
  ((Call.store "id" general).execute oneMessage sealedWell).1

private theorem rows_oneAway (t : Thread) :
    oneAway.rows t = if t = .channel 0 then [awayRow] else [] := by
  change (Function.update oneMessage.threads (.channel 0) (some [awayRow]) t).getD [] = _
  rw [Function.update_apply]
  unfold oneMessage
  dsimp only
  split <;> rfl

/-- The file of the one message is the only one that is read, and no other row is away. -/
private theorem keepsFound_oneAway {manager : MessageOffloadManager} {calls : List Call}
    {answers : List Answer} {shown : Finset String} :
    KeepsFound ⟨manager, calls, answers, oneAway, shown⟩ sealedWell ["id"] general := by
  have hunrestored (t : Thread) (row : Row) :
      row ∉ oneAway.unrestored ["id"] (some (.channel 0)) t := by
    unfold SharedState.unrestored
    split
    next ht =>
      cases ht
      exact List.not_mem_nil
    next ht =>
      rw [rows_oneAway, if_neg fun heq => ht (congrArg some heq.symm)]
      exact List.not_mem_nil
  refine ⟨⟨fun entry hentry t ht row hrow => ?_, fun t row hrow => ?_⟩, fun t row hrow => ?_⟩
  · cases List.mem_singleton.mp (show entry ∈ [("id", "body")] from hentry)
    cases ht
    cases (show some awayRow = some row from hrow)
    have haway : placeholder "id" 4 ≠ "body" := by decide
    exact .inl haway
  · exact absurd hrow (hunrestored t row)
  · exact absurd hrow (hunrestored t row)

/-- A message leaves the view and is offloaded, comes into view again and is restored. -/
theorem quiet_agrees_run_example :
    Along step (fun s event => (s.step event).Agrees) { backend := oneMessage }
      [.task [.scheduleOffload "id" general], .fire "id", .execute 0 sealedWell, .deliver 0,
        .task [.cancelOffload "id", .restore "id" general], .execute 0 sealedWell,
        .deliver 0] := by
  refine quiet_agrees_run shown_oneMessage ⟨?_, trivial, ?_, ?_, ?_, ?_, ?_, trivial⟩
  · rintro id ⟨before, after, heq, -⟩
    have hmem : Request.cancelOffload id ∈ [Request.scheduleOffload "id" general] := by
      rw [heq]
      exact List.mem_append_right _ List.mem_cons_self
    cases List.mem_singleton.mp hmem
  · rintro call ⟨⟩
    refine ⟨⟨fun t ht row hrow => ?_, fun t ht row hrow hstarts => ?_⟩, trivial⟩
    · cases ht
      cases hrow
      exact fun _ _ _ t' other hother haway => absurd haway (shown_oneMessage t' other hother)
    · cases ht
      cases hrow
      cases hstarts
  · exact fun id set hset => nomatch hset
  · rintro id ⟨before, after, heq, -⟩
    have hmem : Request.cancelOffload id ∈
        [.cancelOffload "id", Request.restore "id" general] := by
      rw [heq]
      exact List.mem_append_right _ List.mem_cons_self
    obtain heq | hmem := List.mem_cons.mp hmem
    · cases heq
      refine ⟨fun _ => List.not_mem_nil, fun _ => .inr ⟨?_, ?_⟩⟩
      · exact Finset.mem_insert_self "id" ∅
      · exact ⟨[.cancelOffload "id"], [], _, rfl, by decide, rfl⟩
    · cases List.mem_singleton.mp hmem
  · rintro call ⟨⟩
    exact ⟨keepsFound_oneAway, fun hfound => absurd List.mem_cons_self hfound⟩
  · exact fun id set hset => nomatch hset

/-- A message comes into view again while it is being stored. -/
theorem shown_message_offloaded :
    ¬∀ (platform : Platform) (backend : SharedState platform),
      (∀ t, ∀ row ∈ backend.rows t, ¬row.Away) → ∀ events : List (Event platform),
        Along step (fun s event => (s.step event).Agrees) { backend } events := by
  intro h
  have hruns := h sealingPlatform oneMessage shown_oneMessage
    [.task [.scheduleOffload "id" general], .fire "id", .task [.cancelOffload "id"],
      .execute 0 sealedWell, .deliver 0]
  have hagrees := hruns.2.2.2.2.1
  refine hagrees.shown ⟨fun id => ?_, rfl, rfl⟩ "id" (Finset.mem_insert_self _ _) ?_
  · change Function.update (Function.update (Function.update (fun _ => none) "id" (some general))
      "id" none) "id" none id = none
    rw [Function.update_idem, Function.update_idem, Function.update_apply]
    split <;> rfl
  · have haway : placeholder "id" 4 ≠ "body" := by decide
    exact ⟨.channel 0, ⟨some "id", placeholder "id" 4, "body"⟩, List.mem_cons_self, rfl, haway⟩

end Example

end Interface

end FancyMumble.Messages.OffloadManager
