import FancyMumble.Lib.Templates

/-!
# The files of recordings

A recording is written to a file whose name comes from a template of the user. The names that the
template asks for, of the host, of the user and of the channel, are put in as they are.
-/

namespace FancyMumble.Client.RecordingFiles

open Lib.Occurrences Lib.Templates

/-! ## Templates -/

inductive Placeholder where
  | date
  | time
  | datetime
  | host
  | user
  | channel
deriving DecidableEq

namespace Placeholder

def all : List Placeholder := [.date, .time, .datetime, .host, .user, .channel]

def name : Placeholder → String
  | .date => "date"
  | .time => "time"
  | .datetime => "datetime"
  | .host => "host"
  | .user => "user"
  | .channel => "channel"

def inner (p : Placeholder) : List Char := p.name.toList ++ ['\x7d']

def text (p : Placeholder) : List Char := '\x7b' :: p.inner

def marks : Marks Char Placeholder where
  keys := all
  mem_keys p := by cases p <;> decide
  text := text
  opening := '\x7b'
  inner := inner
  text_eq _ := rfl
  opening_notMem p := by cases p <;> decide
  eq_of_prefix p q := by cases p <;> cases q <;> decide

end Placeholder

/-- The current date and time, as `chrono` formats them. -/
structure Clock where
  date : List Char
  time : List Char
  datetime : List Char
  ne_nil : date ≠ [] ∧ time ≠ [] ∧ datetime ≠ []
  written : ∀ c ∈ date ++ time ++ datetime, c ∈ "0123456789-_".toList

/-- The names that the server and the session give. -/
structure Names where
  host : List Char
  user : List Char
  channel : List Char

def expandFilenameTemplate (clock : Clock) (template : List Char) (names : Names) : List Char :=
  let text := replaceAll Placeholder.date.text clock.date template
  let text := replaceAll Placeholder.time.text clock.time text
  let text := replaceAll Placeholder.datetime.text clock.datetime text
  let text := replaceAll Placeholder.host.text names.host text
  let text := replaceAll Placeholder.user.text names.user text
  replaceAll Placeholder.channel.text names.channel text

def valueOf (clock : Clock) (names : Names) : Placeholder → List Char
  | .date => clock.date
  | .time => clock.time
  | .datetime => clock.datetime
  | .host => names.host
  | .user => names.user
  | .channel => names.channel

def expandOnce (clock : Clock) (template : List Char) (names : Names) : List Char :=
  expand (valueOf clock names) (scan Placeholder.marks template)

/-- In the template with the host put in, the user's placeholder stands only where the template
has it, and so does the channel's in the template with the host and the user put in. -/
structure NotAgain (template : List Char) (names : Names) : Prop where
  user : Exact Placeholder.marks .user (fill .host names.host (scan Placeholder.marks template))
  channel : Exact Placeholder.marks .channel
    (fill .user names.user (fill .host names.host (scan Placeholder.marks template)))

theorem foreign_clock {text : List Char} (hne : text ≠ [])
    (htext : ∀ c ∈ text, c ∈ "0123456789-_".toList) (p : Placeholder) :
    Foreign Placeholder.marks p text := by
  have hall : ∀ c ∈ "0123456789-_".toList, ∀ p ∈ Placeholder.all, c ∉ p.text :=
    forall_of_all (by decide)
  exact ⟨hne, fun c hc => hall c (htext c hc) p (Placeholder.marks.mem_keys p)⟩

def fillClock (clock : Clock) (tokens : List (Token Char Placeholder)) :
    List (Token Char Placeholder) :=
  fill .datetime clock.datetime (fill .time clock.time (fill .date clock.date tokens))

theorem exact_fillClock (clock : Clock) {p : Placeholder} {tokens : List (Token Char Placeholder)}
    (h : Exact Placeholder.marks p tokens) :
    Exact Placeholder.marks p (fillClock clock tokens) := by
  have hwritten := clock.written
  simp only [List.forall_mem_append] at hwritten
  have hdate : Exact Placeholder.marks p (fill .date clock.date tokens) :=
    exact_fill (foreign_clock clock.ne_nil.1 hwritten.1.1 p) h
  have htime : Exact Placeholder.marks p (fill .time clock.time (fill .date clock.date tokens)) :=
    exact_fill (foreign_clock clock.ne_nil.2.1 hwritten.1.2 p) hdate
  exact exact_fill (foreign_clock clock.ne_nil.2.2 hwritten.2 p) htime

theorem fill_fillClock (clock : Clock) {p : Placeholder} (hdate : p ≠ .date) (htime : p ≠ .time)
    (hdatetime : p ≠ .datetime) (value : List Char) (tokens : List (Token Char Placeholder)) :
    fill p value (fillClock clock tokens) = fillClock clock (fill p value tokens) := by
  unfold fillClock
  rw [fill_comm hdatetime, fill_comm htime, fill_comm hdate]

theorem replaceAll_text {p : Placeholder} {tokens : List (Token Char Placeholder)}
    (h : Exact Placeholder.marks p tokens) (value : List Char) :
    replaceAll p.text value (flatten Placeholder.marks tokens) =
      flatten Placeholder.marks (fill p value tokens) :=
  replaceAll_flatten h value

theorem replaceAll_clock (clock : Clock) (template : List Char) :
    replaceAll Placeholder.datetime.text clock.datetime
        (replaceAll Placeholder.time.text clock.time
          (replaceAll Placeholder.date.text clock.date template)) =
      flatten Placeholder.marks (fillClock clock (scan Placeholder.marks template)) := by
  have hwritten := clock.written
  simp only [List.forall_mem_append] at hwritten
  have hexact : ∀ p, Exact Placeholder.marks p (scan Placeholder.marks template) :=
    fun p => exact_scan p template
  have hdate : ∀ p, Exact Placeholder.marks p
      (fill .date clock.date (scan Placeholder.marks template)) :=
    fun p => exact_fill (foreign_clock clock.ne_nil.1 hwritten.1.1 p) (hexact p)
  have htime : ∀ p, Exact Placeholder.marks p
      (fill .time clock.time (fill .date clock.date (scan Placeholder.marks template))) :=
    fun p => exact_fill (foreign_clock clock.ne_nil.2.1 hwritten.1.2 p) (hdate p)
  have hscan : flatten Placeholder.marks (scan Placeholder.marks template) = template :=
    flatten_scan template
  nth_rewrite 1 [← hscan]
  rw [replaceAll_text (hexact _), replaceAll_text (hdate _), replaceAll_text (htime _)]
  rfl

def fillAll (clock : Clock) (names : Names) (tokens : List (Token Char Placeholder)) :
    List (Token Char Placeholder) :=
  fill .channel names.channel (fill .user names.user (fill .host names.host
    (fillClock clock tokens)))

theorem flatten_fillAll (clock : Clock) (names : Names)
    (tokens : List (Token Char Placeholder)) :
    flatten Placeholder.marks (fillAll clock names tokens) =
      expand (valueOf clock names) tokens := by
  have hnone : ∀ p, .hole p ∉ fillAll clock names tokens := by
    intro p hmem
    simp only [fillAll, fillClock, hole_mem_fill] at hmem
    cases p <;> simp at hmem
  have hexpand := expand_fill (valueOf clock names)
  rw [flatten_eq_expand (valueOf clock names) hnone]
  calc expand (valueOf clock names) (fillAll clock names tokens)
      = expand (valueOf clock names) (fill .user names.user (fill .host names.host
          (fillClock clock tokens))) := hexpand Placeholder.channel _
    _ = expand (valueOf clock names) (fill .host names.host (fillClock clock tokens)) :=
        hexpand Placeholder.user _
    _ = expand (valueOf clock names) (fillClock clock tokens) := hexpand Placeholder.host _
    _ = expand (valueOf clock names) (fill .time clock.time (fill .date clock.date tokens)) :=
        hexpand Placeholder.datetime _
    _ = expand (valueOf clock names) (fill .date clock.date tokens) := hexpand Placeholder.time _
    _ = expand (valueOf clock names) tokens := hexpand Placeholder.date _

theorem expandFilenameTemplate_eq (clock : Clock) {template : List Char} {names : Names}
    (h : NotAgain template names) :
    expandFilenameTemplate clock template names = expandOnce clock template names := by
  have hhost : Exact Placeholder.marks .host
      (fillClock clock (scan Placeholder.marks template)) :=
    exact_fillClock clock (exact_scan Placeholder.host template)
  have huser := exact_fillClock clock h.user
  have hchannel := exact_fillClock clock h.channel
  rw [← fill_fillClock clock (by decide) (by decide) (by decide)] at huser hchannel
  rw [← fill_fillClock clock (by decide) (by decide) (by decide)] at hchannel
  unfold expandFilenameTemplate
  dsimp only
  rw [replaceAll_clock, replaceAll_text hhost, replaceAll_text huser, replaceAll_text hchannel]
  exact flatten_fillAll clock names _

/-! ## Paths -/

inductive Component where
  | rootDir
  | curDir
  | parentDir
  | normal (name : List Char)
deriving DecidableEq

def Component.ofPart (part : List Char) : List Component :=
  if part = [] ∨ part = ['.'] then []
  else if part = ['.', '.'] then [.parentDir]
  else [.normal part]

def Component.ofFirst (separated : Bool) (part : List Char) : List Component :=
  if part = [] then (if separated then [.rootDir] else [])
  else if part = ['.'] then [.curDir]
  else ofPart part

def components (path : List Char) : List Component :=
  match path.splitOn '/' with
  | [] => []
  | part :: parts => Component.ofFirst (parts ≠ []) part ++ parts.flatMap Component.ofPart

def join (dir path : List Char) : List Char :=
  if path.head? = some '/' then path
  else if dir = [] ∨ dir.getLast? = some '/' then dir ++ path
  else dir ++ '/' :: path

def wav : List Char := ".wav".toList

def addExtension (expanded : List Char) : List Char :=
  if wav <:+ expanded then expanded else expanded ++ wav

def filePath (directory : List Char) (clock : Clock) (template : List Char) (names : Names) :
    List Char :=
  join directory (addExtension (expandFilenameTemplate clock template names))

/-! ## Places -/

def place (path : List Char) : List Component := (components path).filter (· ≠ .curDir)

def root (path : List Char) : List Component := if path.head? = some '/' then [.rootDir] else []

def steps (path : List Char) : List Component := (path.splitOn '/').flatMap Component.ofPart

theorem mem_ofPart_iff {c : Component} {part : List Char} :
    c ∈ Component.ofPart part ↔ (c = .parentDir ∧ part = ['.', '.']) ∨
      (c = .normal part ∧ part ≠ [] ∧ part ≠ ['.'] ∧ part ≠ ['.', '.']) := by
  unfold Component.ofPart
  split_ifs with hnone hparent
  · grind
  · grind
  · grind

theorem filter_ofPart (part : List Char) :
    (Component.ofPart part).filter (· ≠ .curDir) = Component.ofPart part := by
  rw [List.filter_eq_self]
  intro c hc
  rcases mem_ofPart_iff.mp hc with ⟨rfl, -⟩ | ⟨rfl, -⟩
  · rfl
  · exact decide_eq_true (by simp)

theorem filter_flatMap_ofPart (parts : List (List Char)) :
    (parts.flatMap Component.ofPart).filter (· ≠ .curDir) = parts.flatMap Component.ofPart := by
  rw [List.filter_flatMap]
  exact List.flatMap_congr fun part _ => filter_ofPart part

theorem filter_ofFirst (separated : Bool) {part : List Char} (hpart : part ≠ []) :
    (Component.ofFirst separated part).filter (· ≠ .curDir) = Component.ofPart part := by
  rw [Component.ofFirst, if_neg hpart]
  by_cases hcur : part = ['.']
  · rw [if_pos hcur, Component.ofPart, if_pos (.inr hcur)]
    rfl
  · rw [if_neg hcur]
    exact filter_ofPart part

theorem place_eq (path : List Char) : place path = root path ++ steps path := by
  unfold place components steps root
  cases path with
  | nil => rfl
  | cons c path =>
      have hparts : path.splitOn '/' ≠ [] := List.splitOn_ne_nil _ _
      rw [List.splitOn_cons_eq_if_modifyHead, List.head?_cons]
      by_cases hc : c = '/'
      · rw [if_pos (beq_iff_eq.mpr hc), if_pos (congrArg some hc)]
        dsimp only
        rw [List.filter_append, filter_flatMap_ofPart, Component.ofFirst, if_pos rfl,
          if_pos (decide_eq_true hparts), List.flatMap_cons]
        rfl
      · rw [if_neg (fun h => hc (beq_iff_eq.mp h)), if_neg (fun h => hc (Option.some.inj h))]
        cases hsplit : path.splitOn '/' with
        | nil => exact absurd hsplit hparts
        | cons part parts =>
            rw [List.modifyHead_cons]
            dsimp only
            rw [List.filter_append, filter_flatMap_ofPart, filter_ofFirst _ (List.cons_ne_nil _ _),
              List.flatMap_cons, List.nil_append]

theorem steps_append_cons (front back : List Char) :
    steps (front ++ '/' :: back) = steps front ++ steps back := by
  unfold steps
  rw [List.splitOn_append_cons_self, List.flatMap_append]

theorem steps_of_notMem {text : List Char} (h : '/' ∉ text) :
    steps text = Component.ofPart text := by
  unfold steps
  rw [List.splitOn_eq_singleton h, List.flatMap_singleton]

theorem root_append {front : List Char} (h : front ≠ []) (back : List Char) :
    root (front ++ back) = root front := by
  unfold root
  rw [List.head?_append_of_ne_nil _ h]

theorem place_join (dir path : List Char) :
    place (join dir path) =
      (if path.head? = some '/' then [.rootDir] else place dir) ++ steps path := by
  unfold join
  by_cases habsolute : path.head? = some '/'
  · rw [if_pos habsolute, if_pos habsolute, place_eq, root, if_pos habsolute]
  · rw [if_neg habsolute, if_neg habsolute]
    cases dir using List.reverseRecOn with
    | nil =>
        rw [if_pos (.inl rfl), List.nil_append, place_eq, root, if_neg habsolute]
        rfl
    | append_singleton front c =>
        have hne : front ++ [c] ≠ [] := by simp
        by_cases hc : c = '/'
        · subst hc
          have hdir : steps (front ++ ['/']) = steps front := by
            rw [steps_append_cons]
            exact List.append_nil _
          rw [if_pos (.inr List.getLast?_concat), place_eq, place_eq, root_append hne, hdir,
            List.append_assoc, List.append_assoc, List.singleton_append, steps_append_cons]
        · have hlast : ¬((front ++ [c] = []) ∨ (front ++ [c]).getLast? = some '/') := by
            rw [List.getLast?_concat, Option.some.injEq]
            exact fun h => h.elim hne hc
          rw [if_neg hlast, place_eq, place_eq, root_append hne, steps_append_cons,
            List.append_assoc]

/-! ## The place a template designates -/

/-- A part of a template between separators of its own, and whether a name belongs to it. -/
structure Part where
  text : List Char
  named : Bool
deriving DecidableEq

def Part.components (self : Part) : List Component :=
  if self.named then (if self.text = [] then [] else [.normal self.text])
  else Component.ofPart self.text

def written (parts : List Part) : List Char := ['/'].intercalate (parts.map Part.text)

def Absolute : List Part → Prop
  | [] => False
  | part :: parts => part.named = false ∧ part.text = [] ∧ parts ≠ []

instance decidableAbsolute : DecidablePred Absolute
  | [] => inferInstanceAs (Decidable False)
  | part :: parts => inferInstanceAs (Decidable (part.named = false ∧ part.text = [] ∧ parts ≠ []))

def designated (directory : List Char) (parts : List Part) : List Component :=
  (if Absolute parts then [.rootDir] else place directory) ++ parts.flatMap Part.components

/-- The names fit into the parts that they belong to. -/
structure Fit (directory : List Char) (parts : List Part) : Prop where
  whole : ∀ part ∈ parts, part.named = true →
    '/' ∉ part.text ∧ part.text ≠ ['.'] ∧ part.text ≠ ['.', '.']
  first : ∀ part, parts.head? = some part → part.named = true → part.text = [] →
    place directory = [.rootDir]

theorem steps_written {parts : List Part} (h : parts ≠ []) :
    steps (written parts) = parts.flatMap fun part => steps part.text := by
  induction parts with
  | nil => exact absurd rfl h
  | cons part parts ih =>
      unfold written
      cases parts with
      | nil =>
          rw [List.map_singleton, List.intercalate_singleton, List.flatMap_singleton]
      | cons next parts =>
          rw [List.map_cons, List.map_cons, List.intercalate_cons_cons, List.append_assoc,
            List.singleton_append, steps_append_cons, List.flatMap_cons,
            ← ih (List.cons_ne_nil _ _)]
          rfl

theorem of_normal_mem_steps {path name : List Char} (h : .normal name ∈ steps path) :
    '/' ∉ name ∧ name ≠ ['.'] ∧ name ≠ ['.', '.'] := by
  obtain ⟨part, hpart, hname⟩ := List.mem_flatMap.mp h
  rcases mem_ofPart_iff.mp hname with ⟨hparent, -⟩ | ⟨hnormal, -, hcur, hparent⟩
  · cases hparent
  · obtain rfl := Component.normal.inj hnormal
    exact ⟨notMem_of_mem_splitOn hpart, hcur, hparent⟩

theorem of_normal_mem_place {path name : List Char} (h : .normal name ∈ place path) :
    '/' ∉ name ∧ name ≠ ['.'] ∧ name ≠ ['.', '.'] := by
  rw [place_eq, List.mem_append] at h
  rcases h with hroot | hsteps
  · unfold root at hroot
    split_ifs at hroot
    · simp at hroot
    · cases hroot
  · exact of_normal_mem_steps hsteps

theorem steps_text {part : Part} (hown : part.named = false → '/' ∉ part.text)
    (hname : part.named = true → '/' ∉ part.text ∧ part.text ≠ ['.'] ∧ part.text ≠ ['.', '.']) :
    steps part.text = part.components := by
  unfold Part.components
  cases hnamed : part.named with
  | false =>
      rw [steps_of_notMem (hown hnamed)]
      rfl
  | true =>
      obtain ⟨hslash, hcur, hparent⟩ := hname hnamed
      rw [steps_of_notMem hslash, if_pos rfl, Component.ofPart]
      by_cases htext : part.text = []
      · rw [if_pos htext, if_pos (.inl htext)]
      · rw [if_neg htext, if_neg (not_or.mpr ⟨htext, hcur⟩), if_neg hparent]

theorem head_written {part : Part} {parts : List Part} (h : '/' ∉ part.text) :
    (written (part :: parts)).head? = some '/' ↔ part.text = [] ∧ parts ≠ [] := by
  unfold written
  cases parts with
  | nil =>
      rw [List.map_singleton, List.intercalate_singleton]
      constructor
      · intro hhead
        exact absurd (List.mem_of_mem_head? hhead) h
      · exact fun hempty => absurd rfl hempty.2
  | cons next parts =>
      rw [List.map_cons, List.map_cons, List.intercalate_cons_cons, List.append_assoc]
      constructor
      · intro hhead
        refine ⟨?_, List.cons_ne_nil _ _⟩
        by_contra htext
        rw [List.head?_append_of_ne_nil _ htext] at hhead
        exact h (List.mem_of_mem_head? hhead)
      · rintro ⟨htext, -⟩
        rw [htext]
        rfl

/-- The place of the file is the one that the template designates exactly where the names fit. -/
theorem place_join_written_iff (directory : List Char) {part : Part} {parts : List Part}
    (hown : ∀ p ∈ part :: parts, p.named = false → '/' ∉ p.text)
    (hlast : parts = [] → part.text ≠ []) :
    place (join directory (written (part :: parts))) = designated directory (part :: parts) ↔
      Fit directory (part :: parts) := by
  have hsteps := steps_written (List.cons_ne_nil part parts)
  have hcomponents : (∀ p ∈ part :: parts, p.named = true →
      '/' ∉ p.text ∧ p.text ≠ ['.'] ∧ p.text ≠ ['.', '.']) →
      steps (written (part :: parts)) = (part :: parts).flatMap Part.components := by
    intro hwhole
    rw [hsteps]
    exact List.flatMap_congr fun p hp => steps_text (hown p hp) (hwhole p hp)
  rw [place_join]
  unfold designated
  constructor
  · intro hplace
    have hwhole : ∀ p ∈ part :: parts, p.named = true →
        '/' ∉ p.text ∧ p.text ≠ ['.'] ∧ p.text ≠ ['.', '.'] := by
      intro p hp hnamed
      by_cases htext : p.text = []
      · rw [htext]
        decide
      · have hdesignated : .normal p.text ∈ (part :: parts).flatMap Part.components := by
          refine List.mem_flatMap.mpr ⟨p, hp, ?_⟩
          rw [Part.components, if_pos hnamed, if_neg htext]
          exact List.mem_singleton_self _
        have hmem := hplace.symm ▸ List.mem_append_right _ hdesignated
        rcases List.mem_append.mp hmem with hbase | hpath
        · split_ifs at hbase
          · simp at hbase
          · exact of_normal_mem_place hbase
        · exact of_normal_mem_steps hpath
    refine ⟨hwhole, ?_⟩
    intro p hp hnamed htext
    obtain rfl : part = p := Option.some.inj hp
    have hslash := (hwhole part List.mem_cons_self hnamed).1
    have hparts : parts ≠ [] := fun hnil => hlast hnil htext
    rw [hcomponents hwhole, if_pos ((head_written hslash).mpr ⟨htext, hparts⟩), if_neg] at hplace
    · exact (List.append_cancel_right hplace).symm
    · exact fun habsolute => Bool.false_ne_true (habsolute.1.symm.trans hnamed)
  · intro hfit
    rw [hcomponents hfit.whole]
    refine congrArg (· ++ _) ?_
    have hslash : '/' ∉ part.text := by
      cases hnamed : part.named with
      | false => exact hown part List.mem_cons_self hnamed
      | true => exact (hfit.whole part List.mem_cons_self hnamed).1
    by_cases hhead : (written (part :: parts)).head? = some '/'
    · obtain ⟨htext, hparts⟩ := (head_written hslash).mp hhead
      rw [if_pos hhead]
      cases hnamed : part.named with
      | false => rw [if_pos ⟨hnamed, htext, hparts⟩]
      | true =>
          have habsolute : ¬Absolute (part :: parts) :=
            fun h => Bool.false_ne_true (h.1.symm.trans hnamed)
          rw [if_neg habsolute, hfit.first part rfl hnamed htext]
    · have habsolute : ¬Absolute (part :: parts) :=
        fun h => hhead ((head_written hslash).mpr h.2)
      rw [if_neg hhead, if_neg habsolute]

/-! ## The parts of a template -/

def isName : Token Char Placeholder → Bool
  | .element _ => false
  | .hole .host => true
  | .hole .user => true
  | .hole .channel => true
  | .hole _ => false
  | .filled _ => true

def separates : Token Char Placeholder → Bool
  | .element c => c = '/'
  | _ => false

def Part.of (clock : Clock) (names : Names) (tokens : List (Token Char Placeholder)) : Part where
  text := expand (valueOf clock names) tokens
  named := tokens.any isName

def extend : List Part → List Part
  | [] => []
  | [part] => [{ part with text := addExtension part.text }]
  | part :: next :: parts => part :: extend (next :: parts)

def partsOf (clock : Clock) (template : List Char) (names : Names) : List Part :=
  extend (((scan Placeholder.marks template).splitOnP separates).map (Part.of clock names))

theorem wav_suffix_iff (front back : List Char) : wav <:+ front ++ '/' :: back ↔ wav <:+ back := by
  constructor
  · intro hwav
    have hwhole : '/' :: back <:+ front ++ '/' :: back := List.suffix_append _ _
    rcases List.suffix_or_suffix_of_suffix hwav hwhole with h | h
    · rcases List.suffix_cons_iff.mp h with heq | hback
      · have hslash : '/' ∈ wav := heq ▸ List.mem_cons_self
        exact absurd hslash (by decide)
      · exact hback
    · have hslash : '/' ∈ wav := h.mem List.mem_cons_self
      exact absurd hslash (by decide)
  · intro hwav
    exact hwav.trans ((List.suffix_cons _ _).trans (List.suffix_append _ _))

theorem addExtension_append (front back : List Char) :
    addExtension (front ++ '/' :: back) = front ++ '/' :: addExtension back := by
  unfold addExtension
  by_cases hwav : wav <:+ back
  · rw [if_pos ((wav_suffix_iff _ _).mpr hwav), if_pos hwav]
  · rw [if_neg fun h => hwav ((wav_suffix_iff _ _).mp h), if_neg hwav, List.append_assoc,
      List.cons_append]

theorem addExtension_ne_nil (text : List Char) : addExtension text ≠ [] := by
  unfold addExtension
  by_cases hwav : wav <:+ text
  · rw [if_pos hwav]
    rintro rfl
    exact absurd (List.suffix_nil.mp hwav) (by decide)
  · rw [if_neg hwav]
    intro hnil
    exact absurd (List.append_eq_nil_iff.mp hnil).2 (by decide)

theorem slash_notMem_addExtension {text : List Char} (h : '/' ∉ text) :
    '/' ∉ addExtension text := by
  unfold addExtension
  by_cases hwav : wav <:+ text
  · rwa [if_pos hwav]
  · rw [if_neg hwav, List.mem_append]
    exact fun hmem => hmem.elim h (by decide)

theorem written_extend {parts : List Part} (h : parts ≠ []) :
    written (extend parts) = addExtension (written parts) := by
  induction parts with
  | nil => exact absurd rfl h
  | cons part parts ih =>
      cases parts with
      | nil =>
          unfold written extend
          rw [List.map_singleton, List.map_singleton, List.intercalate_singleton,
            List.intercalate_singleton]
      | cons next parts =>
          have hcons : ∀ rest, rest ≠ [] →
              written (part :: rest) = part.text ++ '/' :: written rest := by
            intro rest hrest
            have hmap : rest.map Part.text ≠ [] := by simpa using hrest
            unfold written
            rw [List.map_cons, List.intercalate_cons_of_ne_nil hmap, List.append_assoc,
              List.singleton_append]
          have hextend : extend (next :: parts) ≠ [] := by
            cases parts <;> exact List.cons_ne_nil _ _
          rw [extend, hcons _ hextend, ih (List.cons_ne_nil _ _), hcons _ (List.cons_ne_nil _ _),
            addExtension_append]

theorem written_partsOf (clock : Clock) (template : List Char) (names : Names) :
    written (partsOf clock template names) =
      addExtension (expandOnce clock template names) := by
  have hne : ((scan Placeholder.marks template).splitOnP separates).map (Part.of clock names) ≠
      [] := by
    simp
  have hseparates : ∀ token, separates token = true →
      Token.expand (valueOf clock names) token = ['/'] := by
    intro token htoken
    cases token with
    | element c => rw [Token.expand, of_decide_eq_true htoken]
    | hole p => cases htoken
    | filled text => cases htoken
  rw [partsOf, written_extend hne, written, List.map_map]
  exact congrArg addExtension (intercalate_flatMap_splitOnP hseparates _)

theorem slash_notMem_of_not_named {clock : Clock} {names : Names}
    {tokens : List (Token Char Placeholder)} (hnone : ∀ token ∈ tokens, separates token = false)
    (hnamed : (Part.of clock names tokens).named = false) :
    '/' ∉ (Part.of clock names tokens).text := by
  have hwritten : '/' ∉ clock.date ++ clock.time ++ clock.datetime := by
    intro hmem
    exact absurd (clock.written _ hmem) (by decide)
  rw [List.mem_append, List.mem_append, not_or, not_or] at hwritten
  obtain ⟨⟨hdate, htime⟩, hdatetime⟩ := hwritten
  intro hmem
  obtain ⟨token, htoken, hslash⟩ := List.mem_flatMap.mp hmem
  have hname : isName token = false := by
    have hall := List.any_eq_false.mp hnamed token htoken
    simpa using hall
  cases token with
  | element c =>
      have hc : c ≠ '/' := of_decide_eq_false (hnone _ htoken)
      exact hc (List.mem_singleton.mp hslash).symm
  | filled text => cases hname
  | hole p =>
      cases p with
      | date => exact hdate hslash
      | time => exact htime hslash
      | datetime => exact hdatetime hslash
      | host => cases hname
      | user => cases hname
      | channel => cases hname

theorem slash_notMem_extend {parts : List Part}
    (h : ∀ part ∈ parts, part.named = false → '/' ∉ part.text) :
    ∀ part ∈ extend parts, part.named = false → '/' ∉ part.text := by
  induction parts with
  | nil => exact h
  | cons part parts ih =>
      rw [List.forall_mem_cons] at h
      cases parts with
      | nil =>
          intro p hp hnamed
          obtain rfl := List.mem_singleton.mp hp
          exact slash_notMem_addExtension (h.1 hnamed)
      | cons next parts => exact List.forall_mem_cons.mpr ⟨h.1, ih h.2⟩

theorem place_filePath_iff (directory : List Char) (clock : Clock) {template : List Char}
    {names : Names} (hagain : NotAgain template names) :
    place (filePath directory clock template names) =
        designated directory (partsOf clock template names) ↔
      Fit directory (partsOf clock template names) := by
  rw [filePath, expandFilenameTemplate_eq clock hagain, ← written_partsOf]
  have hown : ∀ part ∈ partsOf clock template names, part.named = false → '/' ∉ part.text := by
    refine slash_notMem_extend fun part hpart hnamed => ?_
    obtain ⟨tokens, htokens, rfl⟩ := List.mem_map.mp hpart
    exact slash_notMem_of_not_named (of_mem_splitOnP htokens) hnamed
  cases hparts : partsOf clock template names with
  | nil =>
      have hwritten := written_partsOf clock template names
      rw [hparts] at hwritten
      exact absurd hwritten.symm (addExtension_ne_nil _)
  | cons part parts =>
      rw [hparts] at hown
      refine place_join_written_iff directory hown ?_
      rintro rfl
      have hwritten := written_partsOf clock template names
      rw [hparts, written, List.map_singleton, List.intercalate_singleton] at hwritten
      rw [hwritten]
      exact addExtension_ne_nil _

end FancyMumble.Client.RecordingFiles
