import FancyMumble.Lib.Json

/-!
# Profiles in comments

The comment of a user holds the profile as JSON in an HTML comment, and the bio behind it. The
profile is not escaped for its place.
-/

namespace FancyMumble.Interface.ProfileFormat

open Lib Lib.Json Lib.Occurrences

/-! ## Profiles -/

/-- The properties of an object, in the order in which they were set. -/
structure Ordered {ε : Type} (key : ε → String) where
  entries : List ε
  distinct : (entries.map key).Nodup

inductive BannerEntry where
  | color (value : Text)
  | image (value : Text)

def BannerEntry.key : BannerEntry → String
  | .color _ => "color"
  | .image _ => "image"

inductive GlowEntry (ν : Type) where
  | color (value : Text)
  | size (value : ν)

def GlowEntry.key {ν : Type} : GlowEntry ν → String
  | .color _ => "color"
  | .size _ => "size"

inductive NameStyleEntry (ν : Type) where
  | font (value : Text)
  | color (value : Text)
  | gradient (start stop : Text)
  | glow (value : Ordered (@GlowEntry.key ν))
  | bold (value : Bool)
  | italic (value : Bool)

def NameStyleEntry.key {ν : Type} : NameStyleEntry ν → String
  | .font _ => "font"
  | .color _ => "color"
  | .gradient _ _ => "gradient"
  | .glow _ => "glow"
  | .bold _ => "bold"
  | .italic _ => "italic"

inductive ProfileEntry (ν : Type) where
  | v
  | decoration (value : Text)
  | nameplate (value : Text)
  | effect (value : Text)
  | banner (value : Ordered BannerEntry.key)
  | nameStyle (value : Ordered (@NameStyleEntry.key ν))
  | cardBackground (value : Text)
  | cardBackgroundCustom (value : Text)
  | themeColors (value : List Text)
  | cardGlass (value : Bool)
  | avatarBorder (value : Text)
  | avatarBorderCustom (value : Text)
  | status (value : Text)

def ProfileEntry.key {ν : Type} : ProfileEntry ν → String
  | .v => "v"
  | .decoration _ => "decoration"
  | .nameplate _ => "nameplate"
  | .effect _ => "effect"
  | .banner _ => "banner"
  | .nameStyle _ => "nameStyle"
  | .cardBackground _ => "cardBackground"
  | .cardBackgroundCustom _ => "cardBackgroundCustom"
  | .themeColors _ => "themeColors"
  | .cardGlass _ => "cardGlass"
  | .avatarBorder _ => "avatarBorder"
  | .avatarBorderCustom _ => "avatarBorderCustom"
  | .status _ => "status"

def FancyProfile (ν : Type) : Type := Ordered (@ProfileEntry.key ν)

/-- The numbers of JavaScript, with the number 1. -/
structure Numbers (ν : Type) extends NumberFormat ν where
  one : ν
  keeps_one : toNumberFormat.Keeps one

variable {ν : Type}

def Ordered.toValue {ε : Type} {key : ε → String} (self : Ordered key) (value : ε → Value ν) :
    Value ν :=
  .object (self.entries.map fun entry => (ascii (key entry), value entry))

def BannerEntry.toValue : BannerEntry → Value ν
  | .color value | .image value => .string value

def GlowEntry.toValue : GlowEntry ν → Value ν
  | .color value => .string value
  | .size value => .number value

def NameStyleEntry.toValue : NameStyleEntry ν → Value ν
  | .font value | .color value => .string value
  | .gradient start stop => .array [.string start, .string stop]
  | .glow value => value.toValue GlowEntry.toValue
  | .bold value | .italic value => .bool value

variable (js : Numbers ν)

def ProfileEntry.toValue : ProfileEntry ν → Value ν
  | .v => .number js.one
  | .decoration value | .nameplate value | .effect value | .cardBackground value
  | .cardBackgroundCustom value | .avatarBorder value | .avatarBorderCustom value
  | .status value => .string value
  | .banner value => value.toValue BannerEntry.toValue
  | .nameStyle value => value.toValue NameStyleEntry.toValue
  | .themeColors value => .array (value.map .string)
  | .cardGlass value => .bool value

def FancyProfile.toValue (self : FancyProfile ν) : Value ν :=
  Ordered.toValue self (ProfileEntry.toValue js)

/-! ## Comments -/

def fancyPrefix : Text := ascii "<!--FANCY:"

def fancySuffix : Text := ascii "-->"

/-- `{ ...profile, v: 1 }`: a version that is there keeps its place, and else it comes last. -/
def FancyProfile.payload (self : FancyProfile ν) : FancyProfile ν :=
  if h : "v" ∈ self.entries.map ProfileEntry.key then self
  else
    ⟨self.entries ++ [.v], by
      rw [List.map_append, List.nodup_append]
      refine ⟨self.distinct, by simp, fun a ha b hb heq => h ?_⟩
      have hv : a = "v" := heq.trans (List.mem_singleton.mp hb)
      exact hv ▸ ha⟩

def serializeProfile (profile : FancyProfile ν) (bio : Text) : Text :=
  let json := stringify js.toNumberFormat (profile.payload.toValue js)
  let marker := fancyPrefix ++ json ++ fancySuffix
  if bio = [] then marker else marker ++ unit '\n' :: bio

def dropNewline : Text → Text
  | [] => []
  | c :: text => if c = unit '\n' then text else c :: text

def parseComment (comment : Text) : Value ν × Text :=
  if fancyPrefix <+: comment then
    match indexOf fancySuffix (comment.drop fancyPrefix.length) with
    | none => (.null, comment)
    | some index =>
        let stop := fancyPrefix.length + index
        let json := (comment.take stop).drop fancyPrefix.length
        let bio := dropNewline (comment.drop (stop + fancySuffix.length))
        match parse js.toNumberFormat json with
        | some profile => (profile, bio)
        | none => (.null, comment)
  else (.null, comment)

/-! ## Marked comments -/

/-- A comment that begins like one with a profile: JSON in a marker, and text behind it. -/
structure MarkedAs (comment json rest : Text) : Prop where
  parts : comment = fancyPrefix ++ (json ++ (fancySuffix ++ rest))
  first : indexOf fancySuffix (json ++ (fancySuffix ++ rest)) = some json.length

/-- A comment that is taken for one with a profile. -/
def Marked (comment : Text) : Prop :=
  ∃ json rest profile, MarkedAs comment json rest ∧ parse js.toNumberFormat json = some profile

variable {comment json rest : Text}

theorem parseComment_of_markedAs (h : MarkedAs comment json rest) :
    parseComment js comment =
      match parse js.toNumberFormat json with
      | some profile => (profile, dropNewline rest)
      | none => (.null, comment) := by
  have hbegins : fancyPrefix <+: comment := by
    rw [h.parts]
    exact List.prefix_append _ _
  have hdrop : comment.drop fancyPrefix.length = json ++ (fancySuffix ++ rest) := by
    rw [h.parts, List.drop_left]
  have hjson : (comment.take (fancyPrefix.length + json.length)).drop fancyPrefix.length =
      json := by
    rw [List.drop_take, hdrop, Nat.add_sub_cancel_left, List.take_left]
  have hrest : comment.drop (fancyPrefix.length + json.length + fancySuffix.length) = rest := by
    rw [Nat.add_assoc, ← List.drop_drop, hdrop, ← List.drop_drop, List.drop_left, List.drop_left]
  unfold parseComment
  rw [if_pos hbegins, hdrop, h.first]
  dsimp only
  rw [hjson, hrest]

theorem parseComment_of_not_markedAs (h : ∀ json rest, ¬MarkedAs comment json rest) :
    parseComment js comment = (.null, comment) := by
  unfold parseComment
  split
  · next hbegins =>
      obtain ⟨text, rfl⟩ := hbegins
      rw [List.drop_left]
      cases hindex : indexOf fancySuffix text with
      | none => rfl
      | some index =>
          obtain ⟨rest, hrest⟩ := prefix_drop_of_indexOf hindex
          have hparts : text = text.take index ++ (fancySuffix ++ rest) := by
            rw [hrest, List.take_append_drop]
          have hlength : (text.take index).length = index := by
            have hsome := congrArg List.length hrest
            rw [List.length_append, List.length_drop] at hsome
            have hthree : fancySuffix.length = 3 := rfl
            rw [List.length_take]
            omega
          refine absurd ⟨?_, ?_⟩ (h (text.take index) rest)
          · rw [← hparts]
          · rw [← hparts, hindex, hlength]
  · rfl

theorem length_dropNewline (text : Text) : text.length ≤ (dropNewline text).length + 1 := by
  unfold dropNewline
  split
  · exact Nat.zero_le _
  · split
    · exact le_rfl
    · exact Nat.le_succ _

theorem length_dropNewline_le (text : Text) : (dropNewline text).length ≤ text.length := by
  unfold dropNewline
  split
  · exact le_rfl
  · split
    · exact Nat.le_succ _
    · exact le_rfl

theorem bio_eq_comment_iff (comment : Text) :
    (parseComment js comment).2 = comment ↔ ¬Marked js comment := by
  constructor
  · rintro hsame ⟨json, rest, profile, hmarked, hparse⟩
    rw [parseComment_of_markedAs js hmarked, hparse] at hsame
    have hlength := congrArg List.length hsame
    have hrest := length_dropNewline_le rest
    rw [hmarked.parts] at hlength
    simp only [List.length_append] at hlength
    have hthree : fancySuffix.length = 3 := rfl
    omega
  · intro hunmarked
    by_cases hmarked : ∃ json rest, MarkedAs comment json rest
    · obtain ⟨json, rest, hmarked⟩ := hmarked
      rw [parseComment_of_markedAs js hmarked]
      cases hparse : parse js.toNumberFormat json with
      | none => rfl
      | some profile => exact absurd ⟨json, rest, profile, hmarked, hparse⟩ hunmarked
    · push Not at hmarked
      rw [parseComment_of_not_markedAs js hmarked]

/-! ## Round trips -/

theorem inner_fancySuffix : Inner fancySuffix where
  plain := forall_of_all (by decide)
  head := by
    rintro c ⟨⟩
    decide
  separators := forall_of_all (by decide)
  mark := ⟨unit '>', by decide, by decide⟩

def tail (bio : Text) : Text := if bio = [] then [] else unit '\n' :: bio

theorem dropNewline_tail (bio : Text) : dropNewline (tail bio) = bio := by
  unfold tail
  split
  · next hnil =>
      rw [hnil]
      rfl
  · rw [dropNewline, if_pos rfl]

theorem length_tail (bio : Text) : bio.length ≤ (tail bio).length := by
  have hlength := length_dropNewline_le (tail bio)
  rwa [dropNewline_tail] at hlength

theorem serializeProfile_eq (profile : FancyProfile ν) (bio : Text) :
    serializeProfile js profile bio =
      fancyPrefix ++ (stringify js.toNumberFormat (profile.payload.toValue js) ++
        (fancySuffix ++ tail bio)) := by
  unfold serializeProfile tail
  split
  · simp
  · simp

theorem markedAs_serializeProfile {profile : FancyProfile ν} (bio : Text)
    (h : ∀ text ∈ texts (profile.payload.toValue js), ¬fancySuffix <:+: text) :
    MarkedAs (serializeProfile js profile bio)
      (stringify js.toNumberFormat (profile.payload.toValue js)) (tail bio) := by
  refine ⟨serializeProfile_eq js profile bio, ?_⟩
  have hjson : ¬fancySuffix <:+: stringify js.toNumberFormat (profile.payload.toValue js) := by
    rw [infix_stringify_iff js.toNumberFormat inner_fancySuffix]
    rintro ⟨text, htext, hoccurs⟩
    exact h text htext hoccurs
  obtain ⟨front, hfront⟩ : ∃ front,
      stringify js.toNumberFormat (profile.payload.toValue js) = front ++ [unit '\x7d'] :=
    exists_stringify_object js.toNumberFormat _
  rw [hfront] at hjson ⊢
  have hnot : ¬fancySuffix <:+: front := fun h => hjson (h.trans (List.infix_append' [] _ _))
  rw [List.append_assoc, List.singleton_append, indexOf_append (by decide) (by decide) hnot]
  simp

/-- A profile whose texts do not close the comment and whose numbers JSON keeps. -/
structure Storable (profile : FancyProfile ν) : Prop where
  texts : ∀ text ∈ texts (profile.payload.toValue js), ¬fancySuffix <:+: text
  numbers : ∀ x ∈ numbers (profile.payload.toValue js), js.Keeps x

theorem parseComment_serializeProfile {profile : FancyProfile ν} (h : Storable js profile)
    (bio : Text) :
    parseComment js (serializeProfile js profile bio) = (profile.payload.toValue js, bio) := by
  rw [parseComment_of_markedAs js (markedAs_serializeProfile js bio h.texts), parse_stringify,
    dropNewline_tail, (stored_eq_iff js.toNumberFormat _).mpr h.numbers]

theorem length_lt_of_infix {json bio rest json' : Text} (h : fancySuffix <:+: json)
    (hmarked : MarkedAs (fancyPrefix ++ (json ++ (fancySuffix ++ tail bio))) json' rest) :
    bio.length < (dropNewline rest).length := by
  have hthree : fancySuffix.length = 3 := rfl
  -- the first suffix comes no later than the one in the JSON
  obtain ⟨front, back, rfl⟩ := h
  have hparts := List.append_cancel_left hmarked.parts
  have hthere : fancySuffix <+:
      (front ++ fancySuffix ++ back ++ (fancySuffix ++ tail bio)).drop front.length := by
    rw [List.append_assoc, List.append_assoc, List.drop_left]
    exact List.prefix_append _ _
  have hinside : front.length ≤
      (front ++ fancySuffix ++ back ++ (fancySuffix ++ tail bio)).length := by
    simp only [List.length_append]
    omega
  obtain ⟨index, hindex, hfirst⟩ := exists_indexOf_le hinside hthere
  rw [hparts, hmarked.first] at hfirst
  cases hfirst
  have hlength := congrArg List.length hparts
  simp only [List.length_append] at hlength
  have htail := length_tail bio
  have hrest := length_dropNewline rest
  omega

/-- Profile and bio come back exactly when the profile is storable. -/
theorem parseComment_serializeProfile_iff (profile : FancyProfile ν) (bio : Text) :
    parseComment js (serializeProfile js profile bio) = (profile.payload.toValue js, bio) ↔
      Storable js profile := by
  refine ⟨fun hsame => ?_, fun h => parseComment_serializeProfile js h bio⟩
  have htexts : ∀ text ∈ texts (profile.payload.toValue js), ¬fancySuffix <:+: text := by
    by_contra hoccurs
    push Not at hoccurs
    rw [← infix_stringify_iff js.toNumberFormat inner_fancySuffix] at hoccurs
    rw [serializeProfile_eq] at hsame
    by_cases hmarked : ∃ json rest, MarkedAs (fancyPrefix ++
        (stringify js.toNumberFormat (profile.payload.toValue js) ++
          (fancySuffix ++ tail bio))) json rest
    · obtain ⟨json, rest, hmarked⟩ := hmarked
      have hlong := length_lt_of_infix hoccurs hmarked
      rw [parseComment_of_markedAs js hmarked] at hsame
      cases hparse : parse js.toNumberFormat json with
      | some read =>
          rw [hparse] at hsame
          rw [(Prod.mk.inj hsame).2] at hlong
          exact lt_irrefl _ hlong
      | none =>
          rw [hparse] at hsame
          exact absurd (Prod.mk.inj hsame).1 (by rintro ⟨⟩)
    · push Not at hmarked
      rw [parseComment_of_not_markedAs js hmarked] at hsame
      exact absurd (Prod.mk.inj hsame).1 (by rintro ⟨⟩)
  refine ⟨htexts, ?_⟩
  rw [parseComment_of_markedAs js (markedAs_serializeProfile js bio htexts),
    parse_stringify] at hsame
  exact (stored_eq_iff js.toNumberFormat _).mp (Prod.mk.inj hsame).1

/-- Which profiles come back, and which comments are shown as they are. -/
theorem comments_iff :
    (∀ profile bio, parseComment js (serializeProfile js profile bio) =
        (profile.payload.toValue js, bio) ↔ Storable js profile) ∧
      ∀ comment, (parseComment js comment).2 = comment ↔ ¬Marked js comment :=
  ⟨parseComment_serializeProfile_iff js, bio_eq_comment_iff js⟩

def digits : Numbers (Fin 10) where
  isFinite _ := true
  toText n := [48 + n.val.toUInt16]
  ofText text := Fin.ofNat 10 ((text.headD 48).toNat - 48)
  readNumber_toText n _ rest hrest := by
    have hdigit : ∀ n : Fin 10, isDigit (48 + n.val.toUInt16) = true := by decide
    exact readNumber_digit (hdigit n) hrest
  one := 1
  keeps_one := ⟨rfl, by decide⟩

def closing : FancyProfile (Fin 10) where
  entries := [.v, .status (ascii "-->")]
  distinct := by decide

/-- It does not come back. -/
theorem closing_is_lost :
    parseComment digits (serializeProfile digits closing []) ≠
      (closing.toValue digits, []) := by
  intro hsame
  have hstorable := (parseComment_serializeProfile_iff digits closing []).mp hsame
  exact hstorable.texts (ascii "-->") (by decide) (List.infix_refl _)

end FancyMumble.Interface.ProfileFormat
