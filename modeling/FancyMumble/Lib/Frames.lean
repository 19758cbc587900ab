import Mathlib.Tactic.TypeStar

/-!
# Frames in a stream of chunks

A decoder takes at most one frame off the front of a buffer. The loop around it reads
one more chunk whenever the decoder asks for more. `Delimits` says what a decoder has to
do on the frames of a stream; from it the loop gives back what was framed, wherever the
stream was cut.
-/

namespace FancyMumble.Lib.Frames

variable {α β ε : Type*}

/-- Take one frame off the front of the buffer: the item, `none` when more bytes are
needed, or an error; with the buffer that is left. -/
abbrev Decoder (α β ε : Type*) := List β → Except ε (Option α) × List β

/-- Decode, and read one more chunk as long as more is needed. An empty read, like the
end of the reads, is the end of the stream. -/
def next (decode : Decoder α β ε) (closed : ε) :
    List β → List (List β) → Except ε α × List β × List (List β)
  | buf, [] =>
      match decode buf with
      | (.error e, rest) => (.error e, rest, [])
      | (.ok (some item), rest) => (.ok item, rest, [])
      | (.ok none, rest) => (.error closed, rest, [])
  | buf, chunk :: reads =>
      match decode buf with
      | (.error e, rest) => (.error e, rest, chunk :: reads)
      | (.ok (some item), rest) => (.ok item, rest, chunk :: reads)
      | (.ok none, rest) =>
          if chunk.length = 0 then (.error closed, rest, reads)
          else next decode closed (rest ++ chunk) reads

/-- Call `next` until it fails, at most `calls` times: the items, the error that ended
the loop, and what is left of the buffer and of the reads. -/
def collect (decode : Decoder α β ε) (closed : ε) :
    Nat → List β → List (List β) → List α × Option ε × List β × List (List β)
  | 0, buf, reads => ([], none, buf, reads)
  | calls + 1, buf, reads =>
      match next decode closed buf reads with
      | (.error e, buf, reads) => ([], some e, buf, reads)
      | (.ok item, buf, reads) =>
          let (items, rest) := collect decode closed calls buf reads
          (item :: items, rest)

/-- On the frames of the items with `P` the decoder gives the item and leaves what
follows the frame; on less than a frame it asks for more and leaves the buffer alone. -/
structure Delimits (decode : Decoder α β ε) (frame : α → List β) (P : α → Prop) : Prop where
  whole : ∀ item, P item → ∀ rest, decode (frame item ++ rest) = (.ok (some item), rest)
  part : ∀ item, P item → ∀ buf, buf <+: frame item → buf ≠ frame item →
    decode buf = (.ok none, buf)
  nothing : decode [] = (.ok none, [])

variable {decode : Decoder α β ε} {closed : ε} {frame : α → List β} {P : α → Prop}

theorem next_of_whole {buf rest : List β} {item : α} {reads : List (List β)}
    (h : decode buf = (.ok (some item), rest)) :
    next decode closed buf reads = (.ok item, rest, reads) := by
  cases reads with
  | nil => simp only [next, h]
  | cons chunk reads => simp only [next, h]

theorem next_of_part {buf chunk : List β} {reads : List (List β)}
    (h : decode buf = (.ok none, buf)) (hchunk : chunk ≠ []) :
    next decode closed buf (chunk :: reads) = next decode closed (buf ++ chunk) reads := by
  have hlength : chunk.length ≠ 0 := fun hzero => hchunk (List.length_eq_zero_iff.mp hzero)
  rw [next, h]
  exact if_neg hlength

theorem whole_or_part {buf tail frame rest : List β} (h : buf ++ tail = frame ++ rest) :
    (∃ left, buf = frame ++ left ∧ left ++ tail = rest) ∨ (buf <+: frame ∧ buf ≠ frame) := by
  rcases List.append_eq_append_iff.mp h with ⟨left, hframe, htail⟩ | ⟨left, hbuf, hrest⟩
  · by_cases hleft : left = []
    · subst hleft
      refine Or.inl ⟨[], ?_, ?_⟩
      · rw [hframe, List.append_nil, List.append_nil]
      · simpa using htail
    · refine Or.inr ⟨⟨left, hframe.symm⟩, ?_⟩
      intro hsame
      rw [hsame] at hframe
      exact hleft (List.append_right_eq_self.mp hframe.symm)
  · exact Or.inl ⟨left, hbuf, hrest.symm⟩

theorem next_frame (closed : ε) (hdelimits : Delimits decode frame P) {item : α}
    (hitem : P item) {rest : List β} {reads : List (List β)} {buf : List β}
    (hreads : [] ∉ reads)
    (h : buf ++ reads.flatten = frame item ++ rest) :
    ∃ buf' reads', next decode closed buf reads = (.ok item, buf', reads') ∧
      buf' ++ reads'.flatten = rest ∧ [] ∉ reads' := by
  induction reads generalizing buf with
  | nil =>
      rcases whole_or_part h with ⟨left, hbuf, hleft⟩ | ⟨hpart, hne⟩
      · rw [hbuf, next_of_whole (hdelimits.whole item hitem left)]
        exact ⟨left, [], rfl, hleft, hreads⟩
      · -- without reads the buffer is the stream, and it is no shorter than the frame
        have hlength := congrArg List.length h
        have hle := hpart.length_le
        simp only [List.flatten_nil, List.append_nil, List.length_append] at hlength
        exact absurd (hpart.eq_of_length (by omega)) hne
  | cons chunk reads ih =>
      have hchunk : chunk ≠ [] := fun heq => hreads (by simp [heq])
      have hreads' : [] ∉ reads := fun hmem => hreads (List.mem_cons_of_mem chunk hmem)
      rcases whole_or_part h with ⟨left, hbuf, hleft⟩ | ⟨hpart, hne⟩
      · rw [hbuf, next_of_whole (hdelimits.whole item hitem left)]
        exact ⟨left, chunk :: reads, rfl, hleft, hreads⟩
      · rw [next_of_part (hdelimits.part item hitem buf hpart hne) hchunk]
        apply ih hreads'
        rw [List.append_assoc, ← List.flatten_cons, h]

theorem next_nothing (hdelimits : Delimits decode frame P) {buf : List β}
    {reads : List (List β)} (hreads : [] ∉ reads) (h : buf ++ reads.flatten = []) :
    next decode closed buf reads = (.error closed, [], []) := by
  rw [List.append_eq_nil_iff] at h
  cases reads with
  | nil => rw [h.1, next, hdelimits.nothing]
  | cons chunk reads =>
      have hchunk : chunk = [] := (List.append_eq_nil_iff.mp h.2).1
      exact absurd (by simp [hchunk]) hreads

theorem collect_frames (hdelimits : Delimits decode frame P) {items : List α}
    (hitems : ∀ item ∈ items, P item) {buf : List β} {reads : List (List β)}
    (hreads : [] ∉ reads) (h : buf ++ reads.flatten = items.flatMap frame) {calls : Nat}
    (hcalls : items.length < calls) :
    collect decode closed calls buf reads = (items, some closed, [], []) := by
  induction items generalizing buf reads calls with
  | nil =>
      obtain ⟨calls, rfl⟩ := Nat.exists_eq_add_of_lt hcalls
      rw [collect, next_nothing hdelimits hreads h]
  | cons item items ih =>
      obtain ⟨buf', reads', hnext, hrest, hreads'⟩ :=
        next_frame closed hdelimits (hitems item List.mem_cons_self) hreads
          (h.trans List.flatMap_cons)
      cases calls with
      | zero => omega
      | succ calls =>
          rw [collect, hnext]
          have htail := ih (fun other hmem => hitems other (List.mem_cons_of_mem item hmem))
            hreads' hrest (Nat.lt_of_succ_lt_succ hcalls)
          simp only [htail]

end FancyMumble.Lib.Frames
