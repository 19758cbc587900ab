import FancyMumble.Lib.Decimal
import FancyMumble.Lib.Grouping
import FancyMumble.Lib.Runs
import FancyMumble.Persistent.Types

/-!
# The file of archive keys

Each operation on the file reads it, changes the map that it holds, truncates the file and
writes the map back. Tasks perform such operations side by side.
-/

namespace FancyMumble.Client

open Lib.Grouping Lib.Runs Persistent

def bytesToHex (bytes : List UInt8) : String :=
  String.ofList (bytes.flatMap fun b =>
    [Nat.digitChar (b.toNat / 16), Nat.digitChar (b.toNat % 16)])

structure PersistedArchiveKey where
  keyHex : String
  originator : Option String
deriving DecidableEq

abbrev ArchiveKeys := AList fun _ : String => PersistedArchiveKey

structure SerdeJson where
  Symbol : Type
  toStringPretty : List ((_ : String) × PersistedArchiveKey) → Except String (List Symbol)
  fromStr : List Symbol → Except String (List ((_ : String) × PersistedArchiveKey))

structure SerdeJson.Lawful (json : SerdeJson) : Prop where
  roundTrip : ∀ entries, ∃ text,
    json.toStringPretty entries = .ok text ∧ json.fromStr text = .ok entries

inductive FileOp where
  | persistArchiveKey (channelId : UInt32) (key : ChannelKey) (originator : Option String)
  | deletePersistedArchiveKey (channelId : UInt32)
deriving DecidableEq

def entryKey (channelId : UInt32) : String := toString channelId.toNat

theorem entryKey_inj {c c' : UInt32} : entryKey c = entryKey c' ↔ c = c' := by
  constructor
  · intro h
    have hdigits : Nat.toDigits 10 c.toNat = Nat.toDigits 10 c'.toNat :=
      String.ofList_injective h
    have hparse := congrArg (Decimal.parse (2 ^ 32)) hdigits
    rw [Decimal.parse_toDigits c.toNat_lt, Decimal.parse_toDigits c'.toNat_lt] at hparse
    exact UInt32.toNat_inj.mp (Option.some.inj hparse)
  · exact congrArg entryKey

namespace FileOp

def channelId : FileOp → UInt32
  | persistArchiveKey channelId _ _ => channelId
  | deletePersistedArchiveKey channelId => channelId

def outcome : FileOp → Option PersistedArchiveKey
  | persistArchiveKey _ key originator => some ⟨bytesToHex key.bytes, originator⟩
  | deletePersistedArchiveKey _ => none

def update (keys : ArchiveKeys) : FileOp → Option ArchiveKeys
  | persistArchiveKey channelId key originator =>
      some (keys.insert (entryKey channelId) ⟨bytesToHex key.bytes, originator⟩)
  | deletePersistedArchiveKey channelId =>
      if (keys.lookup (entryKey channelId)).isSome then some (keys.erase (entryKey channelId))
      else none

theorem lookup_update {op : FileOp} {keys keys' : ArchiveKeys} (h : op.update keys = some keys') :
    keys'.lookup (entryKey op.channelId) = op.outcome := by
  cases op with
  | persistArchiveKey channelId key originator =>
      cases h
      exact AList.lookup_insert _
  | deletePersistedArchiveKey channelId =>
      dsimp only [update] at h
      split at h
      next =>
        rw [← Option.some.inj h]
        exact AList.lookup_erase _ _
      next => cases h

theorem outcome_of_update_eq_none {op : FileOp} {keys : ArchiveKeys} (h : op.update keys = none) :
    op.outcome = none := by
  cases op with
  | persistArchiveKey channelId key originator => cases h
  | deletePersistedArchiveKey channelId => rfl

end FileOp

inductive FileTask (json : SerdeJson) where
  | issued (op : FileOp)
  /-- It has read the file; `keys` is to be written. -/
  | read (op : FileOp) (keys : ArchiveKeys)
  /-- It has truncated the file. -/
  | truncated (op : FileOp) (keys : ArchiveKeys) (text : List json.Symbol)
  | finished (op : FileOp)

/-- The file, and the operations on it in the order in which they were issued. The map that
was written last is recorded for the statements only. -/
structure KeyFile (json : SerdeJson) where
  file : Option (List json.Symbol)
  tasks : List (FileTask json) := []
  written : ArchiveKeys

inductive FileEvent where
  | issue (op : FileOp)
  /-- The next step of an operation; a map is written in any order. -/
  | advance (i : ℕ) (order : HashOrder)

def readKeys (json : SerdeJson) (file : Option (List json.Symbol)) : ArchiveKeys :=
  match file with
  | none => ∅
  | some text =>
      match json.fromStr text with
      | .ok entries => insertAll ∅ entries
      | .error _ => ∅

variable {json : SerdeJson}

namespace FileTask

def op : FileTask json → FileOp
  | issued op | read op _ | truncated op _ _ | finished op => op

def finished? : FileTask json → Option FileOp
  | finished op => some op
  | _ => none

def isTruncated : FileTask json → Bool
  | truncated .. => true
  | _ => false

end FileTask

namespace KeyFile

def new (file : Option (List json.Symbol)) : KeyFile json where
  file
  written := readKeys json file

def step (s : KeyFile json) : FileEvent → KeyFile json
  | .issue op => { s with tasks := s.tasks ++ [.issued op] }
  | .advance i order =>
      match s.tasks[i]? with
      | some (.issued op) =>
          match op.update (readKeys json s.file) with
          | some keys => { s with tasks := s.tasks.set i (.read op keys) }
          | none => { s with tasks := s.tasks.set i (.finished op) }
      | some (.read op keys) =>
          match json.toStringPretty (order.visit keys.entries) with
          | .ok text =>
              { s with file := some [], tasks := s.tasks.set i (.truncated op keys text) }
          | .error _ => { s with tasks := s.tasks.set i (.finished op) }
      | some (.truncated op keys text) =>
          -- written over what other operations have written since the truncation
          { file := some (text ++ (s.file.getD []).drop text.length)
            tasks := s.tasks.set i (.finished op)
            written := keys }
      | _ => s

/-! ## The last operation on a channel -/

def lastOf (channelId : UInt32) (ops : List FileOp) : Option FileOp :=
  ops.reverse.find? fun op => op.channelId = channelId

def lastOutcome (before : ArchiveKeys) (ops : List FileOp) (channelId : UInt32) :
    Option PersistedArchiveKey :=
  match lastOf channelId ops with
  | some op => op.outcome
  | none => before.lookup (entryKey channelId)

def finishedOps (tasks : List (FileTask json)) : List FileOp := tasks.filterMap FileTask.finished?

/-- The file holds the outcome of the last operation on each channel: of those that have
finished, when no write is in progress, and in the end of those that were issued. -/
structure HoldsLast (before : ArchiveKeys) (s : KeyFile json) : Prop where
  settled : (∀ task ∈ s.tasks, task.isTruncated = false) → ∀ channelId,
    (readKeys json s.file).lookup (entryKey channelId) =
      lastOutcome before (finishedOps s.tasks) channelId
  final : (∀ task ∈ s.tasks, task.finished?.isSome) → ∀ channelId,
    (readKeys json s.file).lookup (entryKey channelId) =
      lastOutcome before (s.tasks.map FileTask.op) channelId

/-- The operation is not too late: what has finished on its channel was issued before, or has
the same outcome. -/
def NotLate (s : KeyFile json) (i : ℕ) (op : FileOp) : Prop :=
  ∀ later, lastOf op.channelId (finishedOps (s.tasks.drop (i + 1))) = some later →
    later.outcome = op.outcome

/-- An operation writes what was last written, except for the entry of its channel, over
nothing longer, and not too late. A deletion that finds no entry ends without a write. -/
def Undisturbed (s : KeyFile json) : FileEvent → Prop
  | .issue _ => True
  | .advance i _ =>
      (∀ op, s.tasks[i]? = some (.issued op) → op.update (readKeys json s.file) = none →
        s.written.lookup (entryKey op.channelId) = none ∨
          (lastOf op.channelId (finishedOps (s.tasks.drop (i + 1)))).isSome) ∧
      ∀ op keys text, s.tasks[i]? = some (.truncated op keys text) →
        (∀ channelId ≠ op.channelId,
          keys.lookup (entryKey channelId) = s.written.lookup (entryKey channelId)) ∧
        s.NotLate i op ∧ (s.file.getD []).length ≤ text.length

theorem lastOf_append (channelId : UInt32) (ops later : List FileOp) :
    lastOf channelId (ops ++ later) = (lastOf channelId later).or (lastOf channelId ops) := by
  unfold lastOf
  rw [List.reverse_append, List.find?_append]

theorem lastOf_cons (channelId : UInt32) (op : FileOp) (later : List FileOp) :
    lastOf channelId (op :: later) =
      (lastOf channelId later).or (if op.channelId = channelId then some op else none) := by
  rw [← List.singleton_append, lastOf_append]
  congr 1
  unfold lastOf
  rw [List.reverse_singleton, List.find?_singleton]
  simp

theorem finishedOps_append (tasks later : List (FileTask json)) :
    finishedOps (tasks ++ later) = finishedOps tasks ++ finishedOps later :=
  List.filterMap_append

theorem finishedOps_eq_map {tasks : List (FileTask json)}
    (h : ∀ task ∈ tasks, task.finished?.isSome) : finishedOps tasks = tasks.map FileTask.op := by
  induction tasks with
  | nil => rfl
  | cons task tasks ih =>
      have hrest := ih fun t ht => h t (List.mem_cons_of_mem task ht)
      have hfinished := h task List.mem_cons_self
      cases task with
      | finished op =>
          unfold finishedOps at hrest ⊢
          rw [List.filterMap_cons, List.map_cons, hrest]
          rfl
      | issued op => cases hfinished
      | read op keys => cases hfinished
      | truncated op keys text => cases hfinished

theorem finishedOps_split {tasks : List (FileTask json)} {i : ℕ} {task : FileTask json}
    (h : tasks[i]? = some task) (hnot : task.finished? = none) :
    finishedOps tasks = finishedOps (tasks.take i) ++ finishedOps (tasks.drop (i + 1)) := by
  obtain ⟨hi, hget⟩ := List.getElem?_eq_some_iff.mp h
  calc
    finishedOps tasks = finishedOps (tasks.take i ++ tasks.drop i) := by
      rw [List.take_append_drop]
    _ = finishedOps (tasks.take i) ++ finishedOps (tasks.drop i) := finishedOps_append _ _
    _ = _ := by
      rw [List.drop_eq_getElem_cons hi, hget]
      congr 1
      unfold finishedOps
      rw [List.filterMap_cons, hnot]

theorem finishedOps_set {tasks : List (FileTask json)} {i : ℕ} {task : FileTask json}
    (h : tasks[i]? = some task) (next : FileTask json) :
    finishedOps (tasks.set i next) = finishedOps (tasks.take i) ++
      (next.finished?.toList ++ finishedOps (tasks.drop (i + 1))) := by
  obtain ⟨hi, -⟩ := List.getElem?_eq_some_iff.mp h
  rw [List.set_eq_take_append_cons_drop, if_pos hi, finishedOps_append]
  congr 1
  unfold finishedOps
  rw [List.filterMap_cons]
  cases next.finished? with
  | none => rfl
  | some op => rfl

theorem finishedOps_set_of_not_finished {tasks : List (FileTask json)} {i : ℕ}
    {task next : FileTask json} (h : tasks[i]? = some task) (hnot : task.finished? = none)
    (hnext : next.finished? = none) : finishedOps (tasks.set i next) = finishedOps tasks := by
  rw [finishedOps_set h, finishedOps_split h hnot, hnext]
  rfl

theorem lastOutcome_set (before : ArchiveKeys) {tasks : List (FileTask json)} {i : ℕ}
    {task : FileTask json} (h : tasks[i]? = some task) (hnot : task.finished? = none)
    (op : FileOp) (channelId : UInt32) :
    lastOutcome before (finishedOps (tasks.set i (.finished op))) channelId =
      if channelId = op.channelId ∧
          lastOf op.channelId (finishedOps (tasks.drop (i + 1))) = none then op.outcome
      else lastOutcome before (finishedOps tasks) channelId := by
  unfold lastOutcome
  have hset : finishedOps (tasks.set i (.finished op)) =
      finishedOps (tasks.take i) ++ (op :: finishedOps (tasks.drop (i + 1))) := finishedOps_set h _
  rw [hset, finishedOps_split h hnot, lastOf_append, lastOf_append, lastOf_cons]
  by_cases hchannel : channelId = op.channelId
  · rw [hchannel, if_pos rfl]
    cases lastOf op.channelId (finishedOps (tasks.drop (i + 1))) with
    | none => simp
    | some later => simp
  · rw [if_neg fun hop : op.channelId = channelId => hchannel hop.symm, Option.or_none,
      if_neg fun hand => hchannel hand.1]

/-! ## What the steps keep -/

/-- What a task is about to write has the outcome of its operation, and its text reads back. -/
def SoundTask : FileTask json → Prop
  | .read op keys => keys.lookup (entryKey op.channelId) = op.outcome
  | .truncated op keys text =>
      keys.lookup (entryKey op.channelId) = op.outcome ∧
        ∀ key, (readKeys json (some text)).lookup key = keys.lookup key
  | _ => True

structure Sound (before : ArchiveKeys) (s : KeyFile json) : Prop where
  written : ∀ channelId,
    s.written.lookup (entryKey channelId) = lastOutcome before (finishedOps s.tasks) channelId
  file : (∀ task ∈ s.tasks, task.isTruncated = false) → ∀ channelId,
    (readKeys json s.file).lookup (entryKey channelId) = s.written.lookup (entryKey channelId)
  tasks : ∀ task ∈ s.tasks, SoundTask task

theorem sound_new (file : Option (List json.Symbol)) :
    Sound (readKeys json file) (new file) where
  written := fun _ => rfl
  file := fun _ _ => rfl
  tasks := fun _ htask => absurd htask List.not_mem_nil

variable {before : ArchiveKeys} {s : KeyFile json}

theorem Sound.mem_tasks_set (h : Sound before s) {i : ℕ} {next : FileTask json}
    (hnext : SoundTask next) : ∀ task ∈ s.tasks.set i next, SoundTask task := by
  intro task htask
  rcases List.mem_or_eq_of_mem_set htask with hold | rfl
  · exact h.tasks task hold
  · exact hnext

theorem isTruncated_of_set {tasks : List (FileTask json)} {i : ℕ} {task next : FileTask json}
    (hi : tasks[i]? = some task) (hold : task.isTruncated = false)
    (h : ∀ t ∈ tasks.set i next, t.isTruncated = false) : ∀ t ∈ tasks, t.isTruncated = false := by
  intro t ht
  obtain ⟨j, hj⟩ := List.mem_iff_getElem?.mp ht
  by_cases hij : i = j
  · rw [← hij, hi] at hj
    rw [← Option.some.inj hj]
    exact hold
  · have hset : (tasks.set i next)[j]? = some t := by
      rw [List.getElem?_set_ne hij]
      exact hj
    exact h t (List.mem_of_getElem? hset)

theorem lookup_readKeys_of_toStringPretty (hjson : json.Lawful) {order : HashOrder}
    {keys : ArchiveKeys} {text : List json.Symbol}
    (h : json.toStringPretty (order.visit keys.entries) = .ok text) (key : String) :
    (readKeys json (some text)).lookup key = keys.lookup key := by
  obtain ⟨text', hwrite, hread⟩ := hjson.roundTrip (order.visit keys.entries)
  rw [h] at hwrite
  cases hwrite
  unfold readKeys
  dsimp only
  rw [hread]
  exact (lookup_insertAll_visit order ∅ keys key).trans (Option.or_none)

theorem Sound.set_read (h : Sound before s) {i : ℕ} {task next : FileTask json}
    (hi : s.tasks[i]? = some task) (hnot : task.finished? = none)
    (hold : task.isTruncated = false) (hnext : next.finished? = none)
    (hsound : SoundTask next) : Sound before { s with tasks := s.tasks.set i next } where
  written := by
    rw [finishedOps_set_of_not_finished hi hnot hnext]
    exact h.written
  file := fun hnone => h.file (isTruncated_of_set hi hold hnone)
  tasks := h.mem_tasks_set hsound

theorem Sound.finish_deletion (h : Sound before s) {i : ℕ} {op : FileOp}
    (hi : s.tasks[i]? = some (.issued op)) (houtcome : op.outcome = none)
    (hwritten : s.written.lookup (entryKey op.channelId) = none ∨
      (lastOf op.channelId (finishedOps (s.tasks.drop (i + 1)))).isSome) :
    Sound before { s with tasks := s.tasks.set i (.finished op) } where
  written := by
    intro channelId
    dsimp only
    rw [lastOutcome_set before hi rfl]
    split
    next hlast =>
      rw [hlast.1, houtcome]
      rcases hwritten with hnone | hsome
      · exact hnone
      · rw [hlast.2] at hsome
        cases hsome
    next => exact h.written channelId
  file := fun hnone => h.file (isTruncated_of_set hi rfl hnone)
  tasks := h.mem_tasks_set trivial

theorem Sound.finish_write (h : Sound before s) {i : ℕ} {op : FileOp} {keys : ArchiveKeys}
    {text : List json.Symbol} (hi : s.tasks[i]? = some (.truncated op keys text))
    (hothers : ∀ channelId ≠ op.channelId,
      keys.lookup (entryKey channelId) = s.written.lookup (entryKey channelId))
    (hlate : s.NotLate i op) (hlength : (s.file.getD []).length ≤ text.length) :
    Sound before
      { file := some (text ++ (s.file.getD []).drop text.length)
        tasks := s.tasks.set i (.finished op)
        written := keys } := by
  obtain ⟨hown, hreads⟩ := h.tasks _ (List.mem_of_getElem? hi)
  constructor
  · intro channelId
    dsimp only
    rw [lastOutcome_set before hi rfl]
    split
    next hlast =>
      rw [hlast.1]
      exact hown
    next hnot =>
      by_cases hchannel : channelId = op.channelId
      · -- an operation that was issued later has finished, with this outcome
        rw [hchannel]
        cases hlater : lastOf op.channelId (finishedOps (s.tasks.drop (i + 1))) with
        | none => exact absurd ⟨hchannel, hlater⟩ hnot
        | some later =>
            have hsame := hlate later hlater
            have hsplit := finishedOps_split hi rfl
            unfold lastOutcome
            rw [hsplit, lastOf_append, hlater, hown]
            exact hsame.symm
      · rw [hothers channelId hchannel]
        exact h.written channelId
  · intro _ channelId
    dsimp only
    rw [List.drop_eq_nil_of_le hlength, List.append_nil]
    exact hreads _
  · exact h.mem_tasks_set trivial

theorem Sound.step (h : Sound before s) (hjson : json.Lawful) {event : FileEvent}
    (hundisturbed : s.Undisturbed event) : Sound before (s.step event) := by
  cases event with
  | issue op =>
      have hfinished : finishedOps (s.tasks ++ [.issued op]) = finishedOps s.tasks := by
        rw [finishedOps_append]
        exact List.append_nil _
      constructor
      · intro channelId
        show s.written.lookup (entryKey channelId) =
          lastOutcome before (finishedOps (s.tasks ++ [.issued op])) channelId
        rw [hfinished]
        exact h.written channelId
      · intro hnone
        exact h.file fun task htask => hnone task (List.mem_append_left _ htask)
      · intro task htask
        rcases List.mem_append.mp htask with hold | hnew
        · exact h.tasks task hold
        · rw [List.mem_singleton.mp hnew]
          trivial
  | advance i order =>
      obtain ⟨hdeletion, hwrite⟩ := hundisturbed
      unfold KeyFile.step
      dsimp only
      split
      next op hi =>
        split
        next keys hupdate =>
          exact h.set_read hi rfl rfl rfl (FileOp.lookup_update hupdate)
        next hupdate =>
          exact h.finish_deletion hi (FileOp.outcome_of_update_eq_none hupdate)
            (hdeletion op hi hupdate)
      next op keys hi =>
        split
        next text htext =>
          have hown : keys.lookup (entryKey op.channelId) = op.outcome :=
            h.tasks _ (List.mem_of_getElem? hi)
          have htasks : SoundTask (.truncated op keys text) :=
            ⟨hown, lookup_readKeys_of_toStringPretty hjson htext⟩
          obtain ⟨hlt, -⟩ := List.getElem?_eq_some_iff.mp hi
          constructor
          · intro channelId
            dsimp only
            rw [finishedOps_set_of_not_finished hi rfl rfl]
            exact h.written channelId
          · intro hnone
            have htruncated := hnone (.truncated op keys text) (List.mem_set hlt _)
            cases htruncated
          · exact h.mem_tasks_set htasks
        next e he =>
          obtain ⟨text, hok, -⟩ := hjson.roundTrip (order.visit keys.entries)
          rw [he] at hok
          cases hok
      next op keys text hi =>
        obtain ⟨hothers, hlate, hlength⟩ := hwrite op keys text hi
        exact h.finish_write hi hothers hlate hlength
      next => exact h

theorem Sound.holdsLast (h : Sound before s) : HoldsLast before s where
  settled := fun hnone channelId => (h.file hnone channelId).trans (h.written channelId)
  final := by
    intro hfinished channelId
    have hnone : ∀ task ∈ s.tasks, task.isTruncated = false := by
      intro task htask
      have hsome := hfinished task htask
      cases task with
      | finished op => rfl
      | issued op => cases hsome
      | read op keys => cases hsome
      | truncated op keys text => cases hsome
    rw [← finishedOps_eq_map hfinished]
    exact (h.file hnone channelId).trans (h.written channelId)

/-- Over every interleaving of undisturbed operations the file holds the outcome of the last
one on each channel. -/
theorem holdsLast_run (hjson : json.Lawful) (file : Option (List json.Symbol))
    (events : List FileEvent) (h : Along step Undisturbed (new file) events) :
    HoldsLast (readKeys json file) (run step (new file) events) := by
  have hsound : Sound (readKeys json file) (run step (new file) events) :=
    invariant_run (fun _ _ hs hundisturbed => hs.step hjson hundisturbed) (sound_new file) h
  exact hsound.holdsLast

section Example

private def symbolicJson : SerdeJson where
  Symbol := List ((_ : String) × PersistedArchiveKey)
  toStringPretty := fun entries => .ok [entries]
  fromStr
    | [entries] => .ok entries
    | _ => .error "trailing characters"

private theorem lawful_symbolicJson : symbolicJson.Lawful where
  roundTrip := fun entries => ⟨[entries], rfl, rfl⟩

private def joinedChannels : List FileEvent :=
  [.issue (.persistArchiveKey 1 (.replicate 1) none),
    .issue (.persistArchiveKey 2 (.replicate 2) none)]

private def nextStep (i : ℕ) : FileEvent := .advance i .listed

private def noFile : Option (List symbolicJson.Symbol) := none

theorem holdsLast_run_example :
    HoldsLast (readKeys symbolicJson noFile) (run step (new noFile) (joinedChannels ++
      [nextStep 0, nextStep 0, nextStep 0, nextStep 1, nextStep 1, nextStep 1])) := by
  refine holdsLast_run lawful_symbolicJson noFile _ ⟨trivial, trivial, ?_⟩
  refine ⟨⟨?_, ?_⟩, ⟨?_, ?_⟩, ⟨?_, ?_⟩, ⟨?_, ?_⟩, ⟨?_, ?_⟩, ⟨?_, ?_⟩, trivial⟩
  · intro op hop hnone
    cases hop
    cases hnone
  · intro op keys text htask
    cases htask
  · intro op hop
    cases hop
  · intro op keys text htask
    cases htask
  · intro op hop
    cases hop
  · intro op keys text htask
    cases htask
    refine ⟨fun channelId hchannel => ?_, fun later hlater => ?_, Nat.zero_le _⟩
    · exact AList.lookup_insert_ne fun hkey => hchannel (entryKey_inj.mp hkey)
    · cases hlater
  · intro op hop hnone
    cases hop
    cases hnone
  · intro op keys text htask
    cases htask
  · intro op hop
    cases hop
  · intro op keys text htask
    cases htask
  · intro op hop
    cases hop
  · intro op keys text htask
    cases htask
    refine ⟨fun channelId hchannel => ?_, fun later hlater => ?_, Nat.zero_le _⟩
    · have hread := lookup_insertAll_visit .listed (∅ : ArchiveKeys)
        ((∅ : ArchiveKeys).insert (entryKey 1) ⟨bytesToHex (ChannelKey.replicate 1).bytes, none⟩)
        (entryKey channelId)
      rw [AList.lookup_empty, Option.or_none] at hread
      exact (AList.lookup_insert_ne fun hkey => hchannel (entryKey_inj.mp hkey)).trans hread
    · cases hlater

/-- Both operations read the file before either one writes it: the first key is lost. -/
theorem overlapping_operations_lose_key :
    ¬∀ (json : SerdeJson), json.Lawful → ∀ (file : Option (List json.Symbol))
      (events : List FileEvent),
      HoldsLast (readKeys json file) (run step (new file) events) := by
  intro h
  have hholds := h symbolicJson lawful_symbolicJson noFile
    (joinedChannels ++ [nextStep 0, nextStep 1, nextStep 0, nextStep 0, nextStep 1, nextStep 1])
  have hkey := hholds.final (by decide) 1
  exact absurd hkey (by decide)

end Example

end KeyFile

end FancyMumble.Client
