import FancyMumble.Lib.Runs
import FancyMumble.Lib.Tally
import Mathlib.Algebra.Order.Ring.Rat
import Mathlib.Data.Nat.Cast.Order.Ring

/-!
# Polls

Polls and votes are plugin data that the members of a channel send each other. The interface
keeps the polls by their ids and the latest vote of each voter, and counts the selected
options when it shows a poll.
-/

namespace FancyMumble.Interface

open Lib.Runs Lib.Tally

structure PollPayload where
  id : String
  question : String
  options : List String
  multiple : Bool
  creator : UInt32
  creatorName : String
  createdAt : String
  channelId : Option UInt32
deriving DecidableEq

structure PollVotePayload where
  pollId : String
  selected : List ℚ
  voter : UInt32
  voterName : String

structure PollMessage where
  senderSession : UInt32
  senderName : String
  body : String
  channelId : UInt32
  isOwn : Bool

/-- What the interface knows of polls: the two module maps, and what the store has of them.
`latest` is the last vote that each voter has cast in each poll. -/
structure PollState where
  users : List (UInt32 × String) := []
  ownSession : Option UInt32 := none
  voteStore : String → List PollVotePayload := fun _ => []
  pollStore : String → Option PollPayload := fun _ => none
  polls : String → Option PollPayload := fun _ => none
  pollMessages : List PollMessage := []
  latest : String → UInt32 → Option PollVotePayload := fun _ _ => none

/-- What happens to polls. The sender session of plugin data is absent only in what the server
sends itself. -/
inductive PollEvent where
  | users (users : List (UInt32 × String)) (ownSession : Option UInt32)
  | pollReceived (senderSession : Option UInt32) (poll : PollPayload)
  | voteReceived (senderSession : Option UInt32) (vote : PollVotePayload)
  | pollCreated (poll : PollPayload)
  | voteCast (pollId : String) (selected : List ℚ)

/-! ## Counting -/

def countIndex (counts : List ℕ) (idx : ℚ) : List ℕ :=
  if 0 ≤ idx ∧ idx < counts.length then
    if idx.isInt then counts.modify idx.num.toNat (· + 1) else counts
  else counts

def voteCounts (poll : PollPayload) (votes : List PollVotePayload) : List ℕ :=
  votes.foldl (fun counts v => v.selected.foldl countIndex counts)
    (List.replicate poll.options.length 0)

@[simp] theorem length_countIndex (counts : List ℕ) (idx : ℚ) :
    (countIndex counts idx).length = counts.length := by
  unfold countIndex
  split
  · split
    · exact List.length_modify _ _ _
    · rfl
  · rfl

theorem getElem?_countIndex {counts : List ℕ} {i : ℕ} (hi : i < counts.length) (idx : ℚ) :
    (countIndex counts idx)[i]? = counts[i]?.map (· + if idx = i then 1 else 0) := by
  by_cases hidx : idx = i
  · subst hidx
    have hrange : (0 : ℚ) ≤ i ∧ (i : ℚ) < counts.length :=
      ⟨Nat.cast_nonneg i, Nat.cast_lt.mpr hi⟩
    have hint : (i : ℚ).isInt := by simp [Rat.isInt]
    have hnum : (i : ℚ).num.toNat = i := by simp
    simp only [countIndex, if_pos hrange, if_pos hint, hnum, List.getElem?_modify_eq, if_true]
    rfl
  · have hsame : ∀ f : ℕ → ℕ, idx.isInt = true → 0 ≤ idx →
        (counts.modify idx.num.toNat f)[i]? = counts[i]? := by
      intro f hint hpos
      refine List.getElem?_modify_ne _ _ fun heq => hidx ?_
      have hnum : (idx.num.toNat : ℤ) = idx.num := Int.toNat_of_nonneg (Rat.num_nonneg.mpr hpos)
      calc
        idx = idx.num := (Rat.eq_num_of_isInt hint)
        _ = ((idx.num.toNat : ℤ) : ℚ) := by rw [hnum]
        _ = i := by rw [heq, Int.cast_natCast]
    simp only [if_neg hidx, Nat.add_zero, Option.map_id']
    unfold countIndex
    split
    next hrange =>
      split
      next hint => exact hsame _ hint hrange.1
      next => rfl
    next => rfl

theorem length_foldl_countIndex (selected : List ℚ) (counts : List ℕ) :
    (selected.foldl countIndex counts).length = counts.length := by
  induction selected generalizing counts with
  | nil => rfl
  | cons idx selected ih => rw [List.foldl_cons, ih, length_countIndex]

theorem getElem?_foldl_countIndex (selected : List ℚ) {counts : List ℕ} {i : ℕ}
    (hi : i < counts.length) :
    (selected.foldl countIndex counts)[i]? = counts[i]?.map (· + selected.count (i : ℚ)) := by
  induction selected generalizing counts with
  | nil => simp
  | cons idx selected ih =>
      rw [List.foldl_cons, ih (by rwa [length_countIndex]), getElem?_countIndex hi,
        Option.map_map, List.count_cons]
      congr 1
      funext n
      simp only [Function.comp_apply, beq_iff_eq]
      omega

theorem getElem?_voteCounts {poll : PollPayload} {i : ℕ} (hi : i < poll.options.length)
    (votes : List PollVotePayload) :
    (voteCounts poll votes)[i]? = some (tally PollVotePayload.selected (i : ℚ) votes) := by
  have hgo : ∀ counts : List ℕ, i < counts.length →
      (votes.foldl (fun counts v => v.selected.foldl countIndex counts) counts)[i]? =
        counts[i]?.map (· + tally PollVotePayload.selected (i : ℚ) votes) := by
    induction votes with
    | nil =>
        intro counts _
        simp [tally]
    | cons v votes ih =>
        intro counts hcounts
        rw [List.foldl_cons, ih _ (by rwa [length_foldl_countIndex]),
          getElem?_foldl_countIndex _ hcounts, Option.map_map]
        congr 1
        funext n
        simp only [Function.comp_apply, tally, List.map_cons, List.sum_cons]
        omega
  rw [voteCounts, hgo _ (by rwa [List.length_replicate]),
    List.getElem?_eq_getElem (by rwa [List.length_replicate])]
  simp

/-! ## Registering -/

namespace PollState

variable (s : PollState)

def nameOf (session : UInt32) : Option String :=
  (s.users.find? fun user => user.1 = session).map Prod.snd

def registerVote (vote : PollVotePayload) : PollState :=
  { s with
    voteStore := Function.update s.voteStore vote.pollId
      (cast PollVotePayload.voter (s.voteStore vote.pollId) vote)
    latest := Function.update s.latest vote.pollId
      (Function.update (s.latest vote.pollId) vote.voter (some vote)) }

/-- `addPoll`, with `registerPoll`. A poll whose id is in a message already gets no other one. -/
def addPoll (poll : PollPayload) (isOwn : Bool) : PollState :=
  { s with
    pollStore := Function.update s.pollStore poll.id (some poll)
    polls := Function.update s.polls poll.id (some poll)
    pollMessages :=
      if ∃ m ∈ s.pollMessages, poll.id.toList <:+: m.body.toList then s.pollMessages
      else
        s.pollMessages ++
          [{ senderSession := poll.creator
             senderName := if poll.creatorName.isEmpty then "Unknown" else poll.creatorName
             body := "<!-- FANCY_POLL:" ++ poll.id ++ " -->"
             channelId := poll.channelId.getD 0
             isOwn }] }

def received (senderSession : Option UInt32) (poll : PollPayload) : PollPayload :=
  let creator := senderSession.getD poll.creator
  { poll with creator, creatorName := (s.nameOf creator).getD poll.creatorName }

def receivedVote (senderSession : Option UInt32) (vote : PollVotePayload) : PollVotePayload :=
  let voter := senderSession.getD vote.voter
  { vote with voter, voterName := (s.nameOf voter).getD vote.voterName }

def created (poll : PollPayload) : PollPayload :=
  { poll with
    creator := s.ownSession.getD 0
    creatorName := (s.ownSession.bind s.nameOf).getD "" }

def ownVote (pollId : String) (selected : List ℚ) : PollVotePayload where
  pollId
  selected
  voter := s.ownSession.getD 0
  voterName := (s.ownSession.bind s.nameOf).getD ""

def step : PollEvent → PollState
  | .users users ownSession => { s with users, ownSession }
  | .pollReceived senderSession poll => s.addPoll (s.received senderSession poll) false
  | .voteReceived senderSession vote => s.registerVote (s.receivedVote senderSession vote)
  | .pollCreated poll => s.addPoll (s.created poll) true
  | .voteCast pollId selected => s.registerVote (s.ownVote pollId selected)

def shown (id : String) : Option PollPayload := (s.polls id).or (s.pollStore id)

def sender : PollEvent → Option UInt32
  | .users _ _ => none
  | .pollReceived senderSession _ | .voteReceived senderSession _ => senderSession
  | .pollCreated _ | .voteCast _ _ => some (s.ownSession.getD 0)

/-! ## Integrity -/

structure CountedOnce (poll : PollPayload) : Prop where
  /-- The count of an option is the number of voters whose latest vote selects it. -/
  tally : ∀ i < poll.options.length, (voteCounts poll (s.voteStore poll.id))[i]? =
    some (supporters PollVotePayload.selected (i : ℚ) (s.latest poll.id)).ncard
  /-- In a single-choice poll, a voter counts for one option. -/
  single : poll.multiple = false → ∀ voter vote, s.latest poll.id voter = some vote →
    ∀ i < poll.options.length, ∀ j < poll.options.length,
      (i : ℚ) ∈ vote.selected → (j : ℚ) ∈ vote.selected → i = j

/-- The polls are counted as they should be, and the event leaves the polls of others than its
sender as they are. -/
structure Integrity (e : PollEvent) : Prop where
  counted : ∀ id poll, (s.step e).shown id = some poll → (s.step e).CountedOnce poll
  kept : ∀ sender, s.sender e = some sender → ∀ id poll, s.shown id = some poll →
    sender ≠ poll.creator → ∃ poll', (s.step e).shown id = some poll' ∧
      poll'.question = poll.question ∧ poll'.options = poll.options ∧
      poll'.creator = poll.creator

/-- A vote names each option of a poll at most once, and at most one of a single-choice one. -/
structure Fair (poll : PollPayload) (vote : PollVotePayload) : Prop where
  once : ∀ i < poll.options.length, vote.selected.count (i : ℚ) ≤ 1
  single : poll.multiple = false → ∀ i < poll.options.length, ∀ j < poll.options.length,
    (i : ℚ) ∈ vote.selected → (j : ℚ) ∈ vote.selected → i = j

def FitsVotes (poll : PollPayload) : Prop := ∀ vote ∈ s.voteStore poll.id, Fair poll vote

def OwnId (sender : Option UInt32) (id : String) : Prop :=
  ∀ session, sender = some session → ∀ poll, s.shown id = some poll → session = poll.creator

/-- A vote is fair to the poll that it is for, and a poll fits its votes and has an id that
is not used for a poll of another user. -/
def Honest : PollEvent → Prop
  | .users _ _ => True
  | .pollReceived senderSession poll =>
      s.FitsVotes poll ∧ s.OwnId senderSession poll.id
  | .pollCreated poll => s.FitsVotes poll ∧ s.OwnId (some (s.ownSession.getD 0)) poll.id
  | .voteReceived _ vote => ∀ poll, s.shown vote.pollId = some poll → Fair poll vote
  | .voteCast pollId selected => ∀ poll, s.shown pollId = some poll →
      Fair poll (s.ownVote pollId selected)

variable {s}

structure Kept (s : PollState) : Prop where
  holds : ∀ id, Holds PollVotePayload.voter (s.voteStore id) (s.latest id)
  id_eq : ∀ id poll, s.shown id = some poll → poll.id = id

theorem kept_start : Kept {} where
  holds _ := holds_nil
  id_eq := by intro id poll h; cases h

theorem countedOnce_iff (h : s.Kept) (poll : PollPayload) :
    s.CountedOnce poll ↔ s.FitsVotes poll := by
  have hholds := h.holds poll.id
  have htally : ∀ i < poll.options.length,
      ((voteCounts poll (s.voteStore poll.id))[i]? =
        some (supporters PollVotePayload.selected (i : ℚ) (s.latest poll.id)).ncard ↔
      ∀ vote ∈ s.voteStore poll.id, vote.selected.count (i : ℚ) ≤ 1) := by
    intro i hi
    rw [getElem?_voteCounts hi, Option.some.injEq]
    exact tally_eq_ncard_supporters_iff hholds
  constructor
  · intro hcounted vote hvote
    refine ⟨fun i hi => (htally i hi).mp (hcounted.tally i hi) vote hvote, fun hsingle => ?_⟩
    exact hcounted.single hsingle vote.voter vote ((hholds.mem_iff vote).mp hvote)
  · intro hfits
    refine ⟨fun i hi => (htally i hi).mpr fun vote hvote => (hfits vote hvote).once i hi, ?_⟩
    intro hsingle voter vote hvote
    have hmem : vote ∈ s.voteStore poll.id :=
      (hholds.mem_iff vote).mpr (hholds.voter_eq voter vote hvote ▸ hvote)
    exact (hfits vote hmem).single hsingle

/-! ## One event -/

section Steps

variable {vote : PollVotePayload} {poll : PollPayload} {isOwn : Bool}

theorem shown_addPoll (id : String) :
    (s.addPoll poll isOwn).shown id = if id = poll.id then some poll else s.shown id := by
  simp only [shown, addPoll, Function.update_apply]
  split <;> simp

theorem kept_registerVote (h : s.Kept) : (s.registerVote vote).Kept where
  holds := by
    intro id
    simp only [registerVote, Function.update_apply]
    split
    next heq =>
      subst heq
      exact (h.holds _).cast vote
    next => exact h.holds id
  id_eq := h.id_eq

theorem kept_addPoll (h : s.Kept) : (s.addPoll poll isOwn).Kept where
  holds := h.holds
  id_eq := by
    intro id poll' hpoll
    rw [shown_addPoll] at hpoll
    split at hpoll
    next heq => cases hpoll; exact heq.symm
    next => exact h.id_eq id poll' hpoll

theorem kept_step (h : s.Kept) (e : PollEvent) : (s.step e).Kept := by
  cases e with
  | users users ownSession => exact ⟨h.holds, h.id_eq⟩
  | pollReceived senderSession poll => exact kept_addPoll h
  | voteReceived senderSession vote => exact kept_registerVote h
  | pollCreated poll => exact kept_addPoll h
  | voteCast pollId selected => exact kept_registerVote h

def AllFit (s : PollState) : Prop := ∀ id poll, s.shown id = some poll → s.FitsVotes poll

theorem counted_iff (h : s.Kept) :
    (∀ id poll, s.shown id = some poll → s.CountedOnce poll) ↔ s.AllFit :=
  forall₃_congr fun _ poll _ => countedOnce_iff h poll

theorem allFit_registerVote_iff (hkept : s.Kept) (h : s.AllFit) :
    (s.registerVote vote).AllFit ↔
      ∀ poll, s.shown vote.pollId = some poll → Fair poll vote := by
  constructor
  · intro hfit poll hpoll
    have hid := hkept.id_eq _ poll hpoll
    refine hfit vote.pollId poll hpoll vote ?_
    simp only [registerVote, hid, Function.update_self]
    exact List.mem_append_right _ (List.mem_singleton_self vote)
  · intro hfair id poll hpoll v hv
    simp only [registerVote, Function.update_apply] at hv
    split at hv
    next heq =>
      rcases List.mem_append.mp hv with hbefore | hnew
      · exact h id poll hpoll v (heq ▸ (List.mem_filter.mp hbefore).1)
      · obtain rfl := List.mem_singleton.mp hnew
        refine hfair poll ?_
        rw [← heq, hkept.id_eq id poll hpoll]
        exact hpoll
    next => exact h id poll hpoll v hv

theorem allFit_addPoll_iff (h : s.AllFit) :
    (s.addPoll poll isOwn).AllFit ↔ s.FitsVotes poll := by
  constructor
  · intro hfit
    exact hfit poll.id poll (by rw [shown_addPoll, if_pos rfl])
  · intro hfits id poll' hpoll
    rw [shown_addPoll] at hpoll
    split at hpoll
    next => cases hpoll; exact hfits
    next => exact h id poll' hpoll

theorem ownId_iff {sender : Option UInt32} (hsender : ∀ session, sender = some session →
      poll.creator = session) :
    (∀ session, sender = some session → ∀ id poll', s.shown id = some poll' →
      session ≠ poll'.creator → ∃ poll'', (s.addPoll poll isOwn).shown id = some poll'' ∧
        poll''.question = poll'.question ∧ poll''.options = poll'.options ∧
        poll''.creator = poll'.creator) ↔ s.OwnId sender poll.id := by
  constructor
  · intro hkept session hsession poll' hpoll'
    by_contra hother
    obtain ⟨poll'', hpoll'', -, -, hcreator⟩ :=
      hkept session hsession poll.id poll' hpoll' hother
    rw [shown_addPoll, if_pos rfl] at hpoll''
    cases hpoll''
    exact hother ((hsender session hsession).symm.trans hcreator)
  · intro hown session hsession id poll' hpoll' hother
    refine ⟨poll', ?_, rfl, rfl, rfl⟩
    rw [shown_addPoll, if_neg, hpoll']
    rintro rfl
    exact hother (hown session hsession poll' hpoll')

theorem fair_receivedVote_iff {senderSession : Option UInt32} :
    Fair poll (s.receivedVote senderSession vote) ↔ Fair poll vote :=
  ⟨fun h => ⟨h.once, h.single⟩, fun h => ⟨h.once, h.single⟩⟩

theorem fitsVotes_received_iff {senderSession : Option UInt32} :
    s.FitsVotes (s.received senderSession poll) ↔ s.FitsVotes poll :=
  forall₂_congr fun _ _ => ⟨fun h => ⟨h.once, h.single⟩, fun h => ⟨h.once, h.single⟩⟩

theorem fitsVotes_created_iff : s.FitsVotes (s.created poll) ↔ s.FitsVotes poll :=
  forall₂_congr fun _ _ => ⟨fun h => ⟨h.once, h.single⟩, fun h => ⟨h.once, h.single⟩⟩

end Steps

theorem integrity_iff {e : PollEvent} :
    s.Integrity e ↔
      (∀ id poll, (s.step e).shown id = some poll → (s.step e).CountedOnce poll) ∧
      ∀ sender, s.sender e = some sender → ∀ id poll, s.shown id = some poll →
        sender ≠ poll.creator → ∃ poll', (s.step e).shown id = some poll' ∧
          poll'.question = poll.question ∧ poll'.options = poll.options ∧
          poll'.creator = poll.creator :=
  ⟨fun h => ⟨h.counted, h.kept⟩, fun h => ⟨h.1, h.2⟩⟩

theorem integrity_iff_honest (hkept : s.Kept) (h : s.AllFit) (e : PollEvent) :
    s.Integrity e ↔ s.Honest e := by
  rw [integrity_iff, counted_iff (kept_step hkept e)]
  cases e with
  | users users ownSession => exact iff_of_true ⟨h, nofun⟩ trivial
  | pollReceived senderSession poll =>
      refine and_congr ((allFit_addPoll_iff h).trans fitsVotes_received_iff) (ownId_iff ?_)
      rintro session rfl
      rfl
  | pollCreated poll =>
      refine and_congr ((allFit_addPoll_iff h).trans fitsVotes_created_iff) (ownId_iff ?_)
      rintro session hsession
      exact Option.some.inj hsession
  | voteReceived senderSession vote =>
      refine Iff.trans (and_iff_left ?_) ((allFit_registerVote_iff hkept h).trans
        (forall₂_congr fun _ _ => fair_receivedVote_iff))
      intro sender _ id poll hpoll _
      exact ⟨poll, hpoll, rfl, rfl, rfl⟩
  | voteCast pollId selected =>
      refine Iff.trans (and_iff_left ?_) (allFit_registerVote_iff hkept h)
      intro sender _ id poll hpoll _
      exact ⟨poll, hpoll, rfl, rfl, rfl⟩

/-- Polls are counted and kept as they should be exactly in the runs of honest events. -/
theorem integrity_run_iff (events : List PollEvent) :
    Along step Integrity {} events ↔ Along step Honest {} events :=
  along_iff_of_invariant
    (fun s e (hs : s.Kept ∧ s.AllFit) => integrity_iff_honest hs.1 hs.2 e)
    (fun s e (hs : s.Kept ∧ s.AllFit) hhonest =>
      ⟨kept_step hs.1 e, (counted_iff (kept_step hs.1 e)).mp
        ((integrity_iff_honest hs.1 hs.2 e).mpr hhonest).counted⟩)
    ⟨kept_start, nofun⟩

section Example

private def pollExample : PollPayload where
  id := "poll"
  question := "Tea or coffee?"
  options := ["tea", "coffee"]
  multiple := false
  creator := 0
  creatorName := ""
  createdAt := ""
  channelId := some 0

private def stuffedExample : List PollEvent :=
  [.pollReceived (some 1) pollExample,
    .voteReceived (some 2) { pollId := "poll", selected := [0, 0], voter := 0, voterName := "" }]

/-- One voter counts twice for an option. -/
theorem voter_counted_twice : ¬∀ events : List PollEvent, Along step Integrity {} events := by
  intro h
  have hintegrity := (h stuffedExample).2.1
  have hkept := kept_step (kept_step kept_start (stuffedExample.head nofun))
    (stuffedExample.getLast nofun)
  have hfits := (counted_iff hkept).mp hintegrity.counted "poll" _ rfl
  have hfair := hfits _ (List.mem_singleton_self _)
  exact absurd (hfair.once 0 (by decide)) (by decide)

end Example

end PollState

end FancyMumble.Interface
