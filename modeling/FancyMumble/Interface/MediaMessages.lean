import FancyMumble.Lib.Json
import Mathlib.Algebra.Order.Ring.Rat

/-!
# Media messages

Images and videos are sent as HTML with a data URL. An image that is too large for the server is
encoded again, with a quality and a scale that are searched for.
-/

namespace FancyMumble.Interface.MediaMessages

open Lib.Json Lib.Occurrences

/-- The numbers of JavaScript, as far as the search for a scale and a quality computes with
them. -/
structure Numbers (ν : Type) where
  /-- 1, 0.1, 0.7, 0.95 and 0.01 -/
  one : ν
  lowQuality : ν
  goodQuality : ν
  topQuality : ν
  fallbackScale : ν
  /-- `(lo + hi) / 2` -/
  mid : ν → ν → ν
  /-- `Math.min(0.95, Math.sqrt(budget / length) * 1.1)` -/
  estScale : ℕ → ℕ → ν
  /-- `probe >= 0.005` -/
  worthProbing : ν → Bool
  /-- `probe * 0.5` -/
  half : ν → ν
  /-- `Math.min(1, lo * 3)` -/
  upper : ν → ν
  /-- `hi - lo < 0.002` -/
  close : ν → ν → Bool

/-- How a picture is encoded by scale and quality, if at all. A data URL is not empty. -/
structure Encoder (ν : Type) where
  encode : ν → ν → Option Text
  encode_ne_nil : ∀ scale quality r, encode scale quality = some r → r ≠ []

/-- What the browser makes of a picture. It may have no data URL, or no width and height. -/
structure Picture (ν : Type) extends Encoder ν where
  dataUrl : Option Text
  size : Option (ℕ × ℕ)

/-- A file, with the frame that stands for a video. -/
structure File (ν : Type) where
  type : Text
  name : Text
  picture : Picture ν
  frame : Option (Picture ν)

inductive MediaKind where
  | image | gif | video
deriving DecidableEq

def mediaKind (mime : Text) : Option MediaKind :=
  if mime = ascii "image/gif" then some .gif
  else if ascii "image/" <+: mime then some .image
  else if ascii "video/" <+: mime then some .video
  else none

/-- A data URL, and whether its length has been compared with what there is room for. -/
structure Fitted where
  url : Text
  checked : Bool

/-! ## The search -/

section Search

variable {ν : Type} (num : Numbers ν) (encode : ν → ν → Option Text) (budget : ℕ)

def qualityLoop (scale : ν) : ℕ → ν → ν → Text → Option Text
  | 0, _, _, best => some best
  | iterations + 1, lo, hi, best =>
      (encode scale (num.mid lo hi)).bind fun r =>
        if r.length ≤ budget then qualityLoop scale iterations (num.mid lo hi) hi r
        else qualityLoop scale iterations lo (num.mid lo hi) best

def bestQualityAt (scale qMin qMax : ν) (iterations : ℕ) : Option (Option Text) :=
  (encode scale qMin).bind fun best =>
    if best.length > budget then some none
    else (qualityLoop num encode budget scale iterations qMin qMax best).map some

def probeLoop : ℕ → ν → Option (Option (Text × ν))
  | 0, _ => some none
  | i + 1, probe =>
      if num.worthProbing probe then
        (encode probe num.goodQuality).bind fun r =>
          if r.length ≤ budget then some (some (r, probe)) else probeLoop i (num.half probe)
      else some none

def scaleLoop : ℕ → ν → ν → Text → Option (Text × ν)
  | 0, lo, _, best => some (best, lo)
  | i + 1, lo, hi, best =>
      if num.close hi lo then some (best, lo)
      else
        (encode (num.mid lo hi) num.goodQuality).bind fun r =>
          if r.length ≤ budget then scaleLoop i (num.mid lo hi) hi r
          else scaleLoop i lo (num.mid lo hi) best

def scaleDown : Option Fitted :=
  (encode num.one num.lowQuality).bind fun lowQ =>
    (probeLoop num encode budget 15 (num.estScale budget lowQ.length)).bind fun probed =>
      match probed.filter (fun found => found.1 ≠ []) with
      | none =>
          (encode num.fallbackScale num.lowQuality).map fun r => { url := r, checked := false }
      | some (bestScaled, lo) =>
          (scaleLoop num encode budget 12 lo (num.upper lo) bestScaled).bind fun (best, lo) =>
            (bestQualityAt num encode budget lo num.goodQuality num.topQuality 6).map fun finalQ =>
              { url := finalQ.getD best, checked := true }

def search : Option Fitted :=
  (bestQualityAt num encode budget num.one num.lowQuality num.topQuality 8).bind fun fullRes =>
    match fullRes.filter (fun r => r ≠ []) with
    | some r => some { url := r, checked := true }
    | none => scaleDown num encode budget

end Search

section Sending

variable {ν : Type} (num : Numbers ν)

def guarded (maxBytes : ℕ) : ℕ := if maxBytes < 5000 then 131072 else maxBytes

def fitImage (file : Picture ν) (maxBytes : ℕ) : Option Fitted :=
  file.dataUrl.bind fun dataUrl =>
    if dataUrl.length ≤ guarded maxBytes then some { url := dataUrl, checked := true }
    else
      file.size.bind fun (srcW, srcH) =>
        if srcW = 0 ∨ srcH = 0 then none
        else search num file.encode (guarded maxBytes - 100)

def fitVideo (file : File ν) (maxBytes : ℕ) : Option (Fitted × MediaKind) :=
  file.picture.dataUrl.bind fun dataUrl =>
    if dataUrl.length ≤ maxBytes then some ({ url := dataUrl, checked := true }, .video)
    else
      file.frame.bind fun frame =>
        (fitImage num frame maxBytes).map fun fitted => (fitted, .image)

def escapeAttr (s : Text) : Text :=
  replaceAll (ascii ">") (ascii "&gt;") <|
    replaceAll (ascii "<") (ascii "&lt;") <|
      replaceAll (ascii "\"") (ascii "&quot;") <|
        replaceAll (ascii "&") (ascii "&amp;") s

def mediaToHtml (dataUrl : Text) (kind : MediaKind) (fileName : Text) : Text :=
  match kind with
  | .image | .gif =>
      ascii "<img src=\"" ++ dataUrl ++ ascii "\" alt=\"" ++ escapeAttr fileName ++ ascii "\" />"
  | .video =>
      ascii "<video src=\"" ++ dataUrl ++ ascii "\" controls>" ++ escapeAttr fileName ++
        ascii "</video>"

structure ServerConfig where
  maxMessageLength : ℕ
  maxImageMessageLength : ℕ

def ServerConfig.maxBytes (config : ServerConfig) : ℕ :=
  if config.maxImageMessageLength > 0 then config.maxImageMessageLength
  else config.maxMessageLength

/-- What becomes of a file: it is not a medium, its preparation is reported as failed, or its HTML
is handed to the send path. -/
inductive Outcome where
  | unsupported
  | failed
  | handed (html : Text) (checked : Bool)

def fileName (file : File ν) : Text :=
  if file.name = [] then ascii "clipboard.png" else file.name

def prepare (file : File ν) (maxBytes : ℕ) : MediaKind → Option (Fitted × MediaKind)
  | .image => (fitImage num file.picture maxBytes).map fun fitted => (fitted, .image)
  | .video => fitVideo num file maxBytes
  | .gif =>
      file.picture.dataUrl.bind fun dataUrl =>
        if dataUrl.length > maxBytes then
          (fitImage num file.picture maxBytes).map fun fitted => (fitted, .image)
        else some ({ url := dataUrl, checked := true }, .gif)

def sendMediaFile (config : ServerConfig) (file : File ν) : Outcome :=
  match mediaKind file.type with
  | none => .unsupported
  | some kind =>
      match prepare num file config.maxBytes kind with
      | none => .failed
      | some (fitted, sendKind) =>
          .handed (mediaToHtml fitted.url sendKind (fileName file)) fitted.checked

/-- What is handed on is within the limit, and has been checked. -/
def Fits (config : ServerConfig) : Outcome → Prop
  | .handed html checked => html.length ≤ config.maxBytes ∧ checked = true
  | _ => True

/-! ## Originals and encodings -/

def overhead (kind : MediaKind) (file : File ν) : ℕ := (mediaToHtml [] kind (fileName file)).length

inductive Source (ν : Type) where
  | original (url : Text) (kind : MediaKind)
  | encoded (picture : Picture ν)
  | nothing

def imageSource (file : Picture ν) (maxBytes : ℕ) : Source ν :=
  match file.dataUrl with
  | none => .nothing
  | some dataUrl =>
      if dataUrl.length ≤ guarded maxBytes then .original dataUrl .image
      else
        match file.size with
        | none => .nothing
        | some (srcW, srcH) => if srcW = 0 ∨ srcH = 0 then .nothing else .encoded file

def source (file : File ν) (maxBytes : ℕ) : Source ν :=
  match mediaKind file.type with
  | none => .nothing
  | some .image => imageSource file.picture maxBytes
  | some .gif =>
      match file.picture.dataUrl with
      | none => .nothing
      | some dataUrl =>
          if dataUrl.length ≤ maxBytes then .original dataUrl .gif
          else imageSource file.picture maxBytes
  | some .video =>
      match file.picture.dataUrl with
      | none => .nothing
      | some dataUrl =>
          if dataUrl.length ≤ maxBytes then .original dataUrl .video
          else
            match file.frame with
            | none => .nothing
            | some frame => imageSource frame maxBytes

def probes : ℕ → ν → List ν
  | 0, _ => []
  | i + 1, probe => if num.worthProbing probe then probe :: probes i (num.half probe) else []

def NothingFits (encode : ν → ν → Option Text) (budget : ℕ) : Prop :=
  ∃ lowQ, encode num.one num.lowQuality = some lowQ ∧ budget < lowQ.length ∧
    (∀ probe ∈ probes num 15 (num.estScale budget lowQ.length),
      ∃ r, encode probe num.goodQuality = some r ∧ budget < r.length) ∧
    encode num.fallbackScale num.lowQuality ≠ none

def Picture.withEncoder (picture : Picture ν) (encoder : Encoder ν) : Picture ν :=
  { picture with toEncoder := encoder }

def File.withEncoder (file : File ν) (encoder : Encoder ν) : File ν :=
  { file with
    picture := file.picture.withEncoder encoder
    frame := file.frame.map fun frame => frame.withEncoder encoder }

/-- What is kept free for the HTML is enough, and the limit is not taken for bogus. -/
def Reserved (config : ServerConfig) (file : File ν) : Prop :=
  5000 ≤ config.maxBytes ∧ overhead .image file ≤ 100

/-- Originals fit with the HTML around them. Where a picture is encoded, there must be room for the
HTML, and something that fits must be found. -/
def Fitting (config : ServerConfig) (file : File ν) : Prop :=
  match source file config.maxBytes with
  | .original url kind => url.length + overhead kind file ≤ config.maxBytes
  | .encoded picture =>
      Reserved config file ∧ ¬ NothingFits num picture.encode (guarded config.maxBytes - 100)
  | .nothing => True

end Sending

/-! ## What the search returns -/

section Search

variable {ν : Type} {num : Numbers ν} {encode : ν → ν → Option Text} {budget : ℕ}

theorem of_qualityLoop {P : Text → Prop}
    (hP : ∀ scale quality r, encode scale quality = some r → r.length ≤ budget → P r)
    {scale lo hi : ν} {iterations : ℕ} {best r : Text} (hbest : P best)
    (h : qualityLoop num encode budget scale iterations lo hi best = some r) : P r := by
  induction iterations generalizing lo hi best with
  | zero =>
      obtain rfl := Option.some_inj.mp h
      exact hbest
  | succ iterations ih =>
      obtain ⟨r', hr, h⟩ := Option.bind_eq_some_iff.mp h
      split at h
      · next hfits => exact ih (hP _ _ _ hr hfits) h
      · exact ih hbest h

theorem of_bestQualityAt {P : Text → Prop}
    (hP : ∀ scale quality r, encode scale quality = some r → r.length ≤ budget → P r)
    {scale qMin qMax : ν} {iterations : ℕ} {r : Text}
    (h : bestQualityAt num encode budget scale qMin qMax iterations = some (some r)) : P r := by
  obtain ⟨best, hbest, h⟩ := Option.bind_eq_some_iff.mp h
  split at h
  · cases h
  · next hfits =>
      obtain ⟨r', hloop, heq⟩ := Option.map_eq_some_iff.mp h
      cases heq
      exact of_qualityLoop hP (hP _ _ _ hbest (Nat.le_of_not_gt hfits)) hloop

theorem bestQualityAt_eq_none_iff {scale qMin qMax : ν} {iterations : ℕ} :
    bestQualityAt num encode budget scale qMin qMax iterations = some none ↔
      ∃ best, encode scale qMin = some best ∧ budget < best.length := by
  unfold bestQualityAt
  rw [Option.bind_eq_some_iff]
  refine exists_congr fun best => and_congr_right fun _ => ?_
  by_cases hlong : best.length > budget
  · rw [if_pos hlong]
    exact iff_of_true rfl hlong
  · rw [if_neg hlong]
    refine iff_of_false (fun h => ?_) hlong
    obtain ⟨r, -, heq⟩ := Option.map_eq_some_iff.mp h
    cases heq

theorem of_probeLoop {P : Text → Prop}
    (hP : ∀ scale quality r, encode scale quality = some r → r.length ≤ budget → P r)
    {i : ℕ} {probe : ν} {found : Text × ν}
    (h : probeLoop num encode budget i probe = some (some found)) : P found.1 := by
  induction i generalizing probe with
  | zero => cases h
  | succ i ih =>
      unfold probeLoop at h
      split at h
      · obtain ⟨r, hr, h⟩ := Option.bind_eq_some_iff.mp h
        split at h
        · next hfits =>
            cases h
            exact hP _ _ _ hr hfits
        · exact ih h
      · cases h

theorem probeLoop_eq_none_iff {i : ℕ} {probe : ν} :
    probeLoop num encode budget i probe = some none ↔
      ∀ scale ∈ probes num i probe,
        ∃ r, encode scale num.goodQuality = some r ∧ budget < r.length := by
  induction i generalizing probe with
  | zero => exact iff_of_true rfl fun scale hscale => absurd hscale List.not_mem_nil
  | succ i ih =>
      unfold probeLoop probes
      by_cases hworth : num.worthProbing probe = true
      · rw [if_pos hworth, if_pos hworth, Option.bind_eq_some_iff, List.forall_mem_cons, ← ih]
        constructor
        · rintro ⟨r, hr, h⟩
          split at h
          · cases h
          · next hlong => exact ⟨⟨r, hr, Nat.lt_of_not_le hlong⟩, h⟩
        · rintro ⟨⟨r, hr, hlong⟩, h⟩
          refine ⟨r, hr, ?_⟩
          rw [if_neg (Nat.not_le_of_lt hlong)]
          exact h
      · rw [if_neg hworth, if_neg hworth]
        exact iff_of_true rfl fun scale hscale => absurd hscale List.not_mem_nil

theorem of_scaleLoop {P : Text → Prop}
    (hP : ∀ scale quality r, encode scale quality = some r → r.length ≤ budget → P r)
    {i : ℕ} {lo hi : ν} {best : Text} {found : Text × ν} (hbest : P best)
    (h : scaleLoop num encode budget i lo hi best = some found) : P found.1 := by
  induction i generalizing lo hi best with
  | zero =>
      cases h
      exact hbest
  | succ i ih =>
      unfold scaleLoop at h
      split at h
      · cases h
        exact hbest
      · obtain ⟨r, hr, h⟩ := Option.bind_eq_some_iff.mp h
        split at h
        · next hfits => exact ih (hP _ _ _ hr hfits) h
        · exact ih hbest h

theorem length_of_scaleDown {fitted : Fitted} (h : scaleDown num encode budget = some fitted)
    (hchecked : fitted.checked = true) : fitted.url.length ≤ budget := by
  unfold scaleDown at h
  obtain ⟨lowQ, -, h⟩ := Option.bind_eq_some_iff.mp h
  obtain ⟨probed, hprobe, h⟩ := Option.bind_eq_some_iff.mp h
  split at h
  · obtain ⟨r, -, rfl⟩ := Option.map_eq_some_iff.mp h
    cases hchecked
  · next bestScaled lo hfound =>
      obtain ⟨rfl, -⟩ := Option.filter_eq_some_iff.mp hfound
      obtain ⟨scaled, hscale, h⟩ := Option.bind_eq_some_iff.mp h
      obtain ⟨finalQ, hfinal, rfl⟩ := Option.map_eq_some_iff.mp h
      have hfits : ∀ scale quality r, encode scale quality = some r →
          r.length ≤ budget → r.length ≤ budget := fun _ _ _ _ h => h
      cases finalQ with
      | none =>
          exact of_scaleLoop (P := fun r => r.length ≤ budget) hfits (of_probeLoop hfits hprobe)
            hscale
      | some r => exact of_bestQualityAt hfits hfinal

theorem length_of_search {fitted : Fitted} (h : search num encode budget = some fitted)
    (hchecked : fitted.checked = true) : fitted.url.length ≤ budget := by
  unfold search at h
  obtain ⟨fullRes, hfull, h⟩ := Option.bind_eq_some_iff.mp h
  split at h
  · next r hr =>
      cases h
      obtain ⟨rfl, -⟩ := Option.filter_eq_some_iff.mp hr
      exact of_bestQualityAt (fun _ _ _ _ h => h) hfull
  · exact length_of_scaleDown h hchecked

theorem search_unchecked_iff
    (hencode : ∀ scale quality r, encode scale quality = some r → r ≠ []) :
    (∃ fitted, search num encode budget = some fitted ∧ fitted.checked = false) ↔
      NothingFits num encode budget := by
  constructor
  · rintro ⟨fitted, h, hchecked⟩
    unfold search at h
    obtain ⟨fullRes, hfull, h⟩ := Option.bind_eq_some_iff.mp h
    split at h
    · cases h
      cases hchecked
    · next hnone =>
        cases fullRes with
        | some r =>
            have hr : r ≠ [] := of_bestQualityAt (fun _ _ _ h _ => hencode _ _ _ h) hfull
            rw [Option.filter_some, if_pos (decide_eq_true hr)] at hnone
            cases hnone
        | none =>
            obtain ⟨best, hbest, hlong⟩ := bestQualityAt_eq_none_iff.mp hfull
            unfold scaleDown at h
            obtain ⟨lowQ, hlow, h⟩ := Option.bind_eq_some_iff.mp h
            obtain rfl : best = lowQ := Option.some_inj.mp (hbest.symm.trans hlow)
            obtain ⟨probed, hprobe, h⟩ := Option.bind_eq_some_iff.mp h
            split at h
            · next hfound =>
                obtain ⟨r, hr, -⟩ := Option.map_eq_some_iff.mp h
                cases probed with
                | some found =>
                    have hr : found.1 ≠ [] :=
                      of_probeLoop (fun _ _ _ h _ => hencode _ _ _ h) hprobe
                    rw [Option.filter_some, if_pos (decide_eq_true hr)] at hfound
                    cases hfound
                | none =>
                    refine ⟨best, hbest, hlong, probeLoop_eq_none_iff.mp hprobe, ?_⟩
                    rw [hr]
                    exact Option.some_ne_none r
            · obtain ⟨scaled, -, h⟩ := Option.bind_eq_some_iff.mp h
              obtain ⟨finalQ, -, rfl⟩ := Option.map_eq_some_iff.mp h
              cases hchecked
  · rintro ⟨lowQ, hlow, hlong, hprobes, hfallback⟩
    obtain ⟨r, hr⟩ := Option.ne_none_iff_exists'.mp hfallback
    have hfull : bestQualityAt num encode budget num.one num.lowQuality num.topQuality 8 =
        some none := bestQualityAt_eq_none_iff.mpr ⟨lowQ, hlow, hlong⟩
    refine ⟨{ url := r, checked := false }, ?_, rfl⟩
    unfold search
    rw [hfull]
    dsimp only [Option.bind_some, Option.filter_none]
    unfold scaleDown
    rw [hlow, Option.bind_some, probeLoop_eq_none_iff.mpr hprobes, Option.bind_some,
      Option.filter_none, hr]
    rfl

end Search

/-! ## What is sent -/

section Sending

variable {ν : Type} (num : Numbers ν) {config : ServerConfig} {file : File ν}

theorem length_mediaToHtml (url : Text) (kind : MediaKind) (file : File ν) :
    (mediaToHtml url kind (fileName file)).length = url.length + overhead kind file := by
  unfold overhead
  cases kind
  all_goals
    simp only [mediaToHtml, List.length_append, List.length_nil]
    omega

def Source.prepared (maxBytes : ℕ) : Source ν → Option (Fitted × MediaKind)
  | .original url kind => some ({ url, checked := true }, kind)
  | .encoded picture =>
      (search num picture.encode (guarded maxBytes - 100)).map fun fitted => (fitted, .image)
  | .nothing => none

theorem map_fitImage (picture : Picture ν) (maxBytes : ℕ) :
    ((fitImage num picture maxBytes).map fun fitted => (fitted, MediaKind.image)) =
      (imageSource picture maxBytes).prepared num maxBytes := by
  unfold fitImage imageSource
  cases picture.dataUrl with
  | none => rfl
  | some dataUrl =>
      dsimp only [Option.bind_some]
      by_cases hfits : dataUrl.length ≤ guarded maxBytes
      · rw [if_pos hfits, if_pos hfits]
        rfl
      · rw [if_neg hfits, if_neg hfits]
        cases picture.size with
        | none => rfl
        | some size =>
            obtain ⟨srcW, srcH⟩ := size
            dsimp only [Option.bind_some]
            by_cases hzero : srcW = 0 ∨ srcH = 0
            · rw [if_pos hzero, if_pos hzero]
              rfl
            · rw [if_neg hzero, if_neg hzero]
              rfl

theorem prepare_eq {kind : MediaKind} (hkind : mediaKind file.type = some kind) (maxBytes : ℕ) :
    prepare num file maxBytes kind = (source file maxBytes).prepared num maxBytes := by
  unfold source
  rw [hkind]
  cases kind with
  | image => exact map_fitImage num file.picture maxBytes
  | gif =>
      unfold prepare
      cases hurl : file.picture.dataUrl with
      | none => rfl
      | some dataUrl =>
          dsimp only [Option.bind_some]
          by_cases hfits : dataUrl.length ≤ maxBytes
          · rw [if_neg (Nat.not_lt_of_le hfits), if_pos hfits]
            rfl
          · rw [if_pos (Nat.lt_of_not_le hfits), if_neg hfits]
            exact map_fitImage num file.picture maxBytes
  | video =>
      unfold prepare fitVideo
      cases hurl : file.picture.dataUrl with
      | none => rfl
      | some dataUrl =>
          dsimp only [Option.bind_some]
          by_cases hfits : dataUrl.length ≤ maxBytes
          · rw [if_pos hfits, if_pos hfits]
            rfl
          · rw [if_neg hfits, if_neg hfits]
            cases file.frame with
            | none => rfl
            | some frame => exact map_fitImage num frame maxBytes

theorem fits_sendMediaFile_iff :
    Fits config (sendMediaFile num config file) ↔
      ∀ fitted kind, (source file config.maxBytes).prepared num config.maxBytes =
          some (fitted, kind) →
        fitted.url.length + overhead kind file ≤ config.maxBytes ∧ fitted.checked = true := by
  unfold sendMediaFile
  cases hkind : mediaKind file.type with
  | none =>
      refine iff_of_true trivial fun fitted kind h => ?_
      unfold source at h
      rw [hkind] at h
      cases h
  | some kind =>
      dsimp only
      rw [prepare_eq num hkind]
      cases hprepared : (source file config.maxBytes).prepared num config.maxBytes with
      | none => exact iff_of_true trivial fun fitted kind h => by cases h
      | some prepared =>
          obtain ⟨fitted, sendKind⟩ := prepared
          unfold Fits
          dsimp only
          rw [length_mediaToHtml]
          constructor
          · intro h fitted' kind' heq
            cases heq
            exact h
          · intro h
            exact h fitted sendKind rfl

theorem original_fits_iff {url : Text} {kind : MediaKind}
    (hsource : source file config.maxBytes = .original url kind) :
    Fits config (sendMediaFile num config file) ↔
      url.length + overhead kind file ≤ config.maxBytes := by
  rw [fits_sendMediaFile_iff, hsource]
  constructor
  · intro h
    exact (h { url, checked := true } kind rfl).1
  · intro hlength fitted kind' h
    cases h
    exact ⟨hlength, rfl⟩

theorem source_of_image {url : Text} {maxBytes : ℕ} (hkind : mediaKind file.type = some .image)
    (hurl : file.picture.dataUrl = some url) (hfits : url.length ≤ guarded maxBytes) :
    source file maxBytes = .original url .image := by
  unfold source imageSource
  rw [hkind, hurl]
  exact if_pos hfits

theorem encoded_fits_iff {picture : Picture ν}
    (hsource : source file config.maxBytes = .encoded picture) (hreserved : Reserved config file) :
    Fits config (sendMediaFile num config file) ↔
      ¬ NothingFits num picture.encode (guarded config.maxBytes - 100) := by
  rw [fits_sendMediaFile_iff, hsource, ← search_unchecked_iff picture.encode_ne_nil]
  constructor
  · rintro h ⟨fitted, hsearch, hunchecked⟩
    have hprepared : (Source.encoded picture).prepared num config.maxBytes =
        some (fitted, .image) := Option.map_eq_some_iff.mpr ⟨fitted, hsearch, rfl⟩
    have hchecked := (h fitted .image hprepared).2
    rw [hunchecked] at hchecked
    cases hchecked
  · intro h fitted kind hprepared
    obtain ⟨fitted', hsearch, heq⟩ := Option.map_eq_some_iff.mp hprepared
    cases heq
    have hchecked : fitted.checked = true := by
      cases hc : fitted.checked with
      | true => rfl
      | false => exact absurd ⟨fitted, hsearch, hc⟩ h
    obtain ⟨hlimit, hover⟩ := hreserved
    have hlength := length_of_search hsearch hchecked
    have hguarded : guarded config.maxBytes = config.maxBytes :=
      if_neg (Nat.not_lt_of_le hlimit)
    rw [hguarded] at hlength
    refine ⟨?_, hchecked⟩
    omega

def fullEncoder (budget : ℕ) (h : 0 < budget) : Encoder ν where
  encode := fun _ _ => some (List.replicate budget (unit 'A'))
  encode_ne_nil := by
    rintro scale quality r hr rfl
    have hlength := congrArg List.length (Option.some_inj.mp hr)
    rw [List.length_replicate, List.length_nil] at hlength
    exact h.ne' hlength

theorem imageSource_withEncoder {picture : Picture ν} {maxBytes : ℕ} (encoder : Encoder ν)
    (h : ∃ encoded, imageSource picture maxBytes = .encoded encoded) :
    ∃ encoded, imageSource (picture.withEncoder encoder) maxBytes = .encoded encoded ∧
      encoded.encode = encoder.encode := by
  obtain ⟨encoded, h⟩ := h
  unfold imageSource Picture.withEncoder at *
  dsimp only
  cases hurl : picture.dataUrl with
  | none =>
      rw [hurl] at h
      cases h
  | some dataUrl =>
      rw [hurl] at h
      dsimp only at h ⊢
      by_cases hfits : dataUrl.length ≤ guarded maxBytes
      · rw [if_pos hfits] at h
        cases h
      · rw [if_neg hfits] at h ⊢
        cases hsize : picture.size with
        | none =>
            rw [hsize] at h
            cases h
        | some size =>
            obtain ⟨srcW, srcH⟩ := size
            rw [hsize] at h
            dsimp only at h ⊢
            by_cases hzero : srcW = 0 ∨ srcH = 0
            · rw [if_pos hzero] at h
              cases h
            · rw [if_neg hzero]
              exact ⟨_, rfl, rfl⟩

theorem source_withEncoder {maxBytes : ℕ} (encoder : Encoder ν)
    (h : ∃ encoded, source file maxBytes = .encoded encoded) :
    ∃ encoded, source (file.withEncoder encoder) maxBytes = .encoded encoded ∧
      encoded.encode = encoder.encode := by
  have hurl : (file.picture.withEncoder encoder).dataUrl = file.picture.dataUrl := rfl
  unfold source File.withEncoder at *
  dsimp only
  rw [hurl]
  cases hkind : mediaKind file.type with
  | none =>
      obtain ⟨encoded, h⟩ := h
      rw [hkind] at h
      cases h
  | some kind =>
      rw [hkind] at h
      cases kind with
      | image => exact imageSource_withEncoder encoder h
      | gif =>
          dsimp only at h ⊢
          cases hdata : file.picture.dataUrl with
          | none =>
              obtain ⟨encoded, h⟩ := h
              rw [hdata] at h
              cases h
          | some dataUrl =>
              rw [hdata] at h
              dsimp only at h ⊢
              by_cases hfits : dataUrl.length ≤ maxBytes
              · obtain ⟨encoded, h⟩ := h
                rw [if_pos hfits] at h
                cases h
              · rw [if_neg hfits] at h ⊢
                exact imageSource_withEncoder encoder h
      | video =>
          dsimp only at h ⊢
          cases hdata : file.picture.dataUrl with
          | none =>
              obtain ⟨encoded, h⟩ := h
              rw [hdata] at h
              cases h
          | some dataUrl =>
              rw [hdata] at h
              dsimp only at h ⊢
              by_cases hfits : dataUrl.length ≤ maxBytes
              · obtain ⟨encoded, h⟩ := h
                rw [if_pos hfits] at h
                cases h
              · rw [if_neg hfits] at h ⊢
                cases hframe : file.frame with
                | none =>
                    obtain ⟨encoded, h⟩ := h
                    rw [hframe] at h
                    cases h
                | some frame =>
                    rw [hframe] at h
                    exact imageSource_withEncoder encoder h

theorem qualityLoop_fullEncoder {budget : ℕ} (hbudget : 0 < budget) (scale lo hi : ν)
    (iterations : ℕ) :
    qualityLoop num (fullEncoder budget hbudget).encode budget scale iterations lo hi
        (List.replicate budget (unit 'A')) = some (List.replicate budget (unit 'A')) := by
  induction iterations generalizing lo hi with
  | zero => rfl
  | succ iterations ih =>
      unfold qualityLoop fullEncoder
      rw [Option.bind_some, if_pos (List.length_replicate ..).le]
      exact ih _ _

theorem search_fullEncoder {budget : ℕ} (hbudget : 0 < budget) :
    search num (fullEncoder budget hbudget).encode budget =
      some { url := List.replicate budget (unit 'A'), checked := true } := by
  have hfull : bestQualityAt num (fullEncoder budget hbudget).encode budget num.one
      num.lowQuality num.topQuality 8 = some (some (List.replicate budget (unit 'A'))) := by
    unfold bestQualityAt
    have hencode : (fullEncoder budget hbudget).encode num.one num.lowQuality =
        some (List.replicate budget (unit 'A')) := rfl
    rw [hencode, Option.bind_some, if_neg (List.length_replicate ..).le.not_gt,
      qualityLoop_fullEncoder]
    rfl
  have hne : List.replicate budget (unit 'A') ≠ [] :=
    (fullEncoder budget hbudget).encode_ne_nil num.one num.one _ rfl
  unfold search
  rw [hfull, Option.bind_some, Option.filter_some, if_pos (decide_eq_true hne)]

theorem exists_encoder_not_fits {picture : Picture ν}
    (hsource : source file config.maxBytes = .encoded picture)
    (hreserved : ¬ Reserved config file) :
    ∃ encoder : Encoder ν, ¬ Fits config (sendMediaFile num config (file.withEncoder encoder)) := by
  have hbudget : 0 < guarded config.maxBytes - 100 := by
    unfold guarded
    split
    · decide
    · omega
  refine ⟨fullEncoder _ hbudget, fun hfits => ?_⟩
  obtain ⟨encoded, hsource', hencode⟩ := source_withEncoder (fullEncoder _ hbudget) ⟨_, hsource⟩
  rw [fits_sendMediaFile_iff, hsource'] at hfits
  have hsearch := search_fullEncoder num hbudget
  rw [← hencode] at hsearch
  obtain ⟨hlength, -⟩ := hfits _ .image (Option.map_eq_some_iff.mpr ⟨_, hsearch, rfl⟩)
  have hover : overhead .image (file.withEncoder (fullEncoder _ hbudget)) =
      overhead .image file := rfl
  rw [hover, List.length_replicate] at hlength
  refine hreserved ⟨?_, ?_⟩
  · unfold guarded at hlength
    split at hlength
    · omega
    · omega
  · unfold guarded at hlength
    split at hlength
    · omega
    · omega

/-- A file that is fitting is sent within the limit or fails. One that is not is sent beyond the
limit or unchecked, if what is kept free would be enough; otherwise it depends on the encoder. -/
theorem sendMediaFile_fits (num : Numbers ν) (config : ServerConfig) (file : File ν) :
    (Fitting num config file → Fits config (sendMediaFile num config file)) ∧
    (¬ Fitting num config file →
      ¬ Fits config (sendMediaFile num config file) ∨
        ¬ Reserved config file ∧ ∃ picture, source file config.maxBytes = .encoded picture) ∧
    (∀ picture, source file config.maxBytes = .encoded picture → ¬ Reserved config file →
      ∃ encoder : Encoder ν,
        ¬ Fits config (sendMediaFile num config (file.withEncoder encoder))) := by
  refine ⟨?_, ?_, fun picture hsource hreserved =>
    exists_encoder_not_fits num hsource hreserved⟩
  · unfold Fitting
    cases hsource : source file config.maxBytes with
    | original url kind =>
        exact (original_fits_iff num hsource).mpr
    | encoded picture =>
        rintro ⟨hreserved, hfound⟩
        exact (encoded_fits_iff num hsource hreserved).mpr hfound
    | nothing =>
        intro _
        rw [fits_sendMediaFile_iff, hsource]
        intro fitted kind h
        cases h
  · unfold Fitting
    cases hsource : source file config.maxBytes with
    | original url kind =>
        exact fun hnot => .inl fun h => hnot ((original_fits_iff num hsource).mp h)
    | encoded picture =>
        intro hnot
        by_cases hreserved : Reserved config file
        · exact .inl fun h => hnot ⟨hreserved, (encoded_fits_iff num hsource hreserved).mp h⟩
        · exact .inr ⟨hreserved, picture, rfl⟩
    | nothing => exact fun h => absurd trivial h

end Sending

def rationals : Numbers ℚ where
  one := 1
  lowQuality := 1 / 10
  goodQuality := 7 / 10
  topQuality := 95 / 100
  fallbackScale := 1 / 100
  mid := fun lo hi => (lo + hi) / 2
  estScale := fun budget length =>
    min (95 / 100) (Nat.sqrt (budget * 1000000 / length) / 1000 * (11 / 10))
  worthProbing := fun probe => 5 / 1000 ≤ probe
  half := fun probe => probe / 2
  upper := fun lo => min 1 (lo * 3)
  close := fun hi lo => hi - lo < 2 / 1000

def longUrl : Text := List.replicate 5000 (unit 'A')

def largeImage : File ℚ where
  type := ascii "image/png"
  name := ascii "a.png"
  picture :=
    { dataUrl := some longUrl
      size := some (100, 100)
      encode := fun _ _ => none
      encode_ne_nil := fun _ _ _ h => by cases h }
  frame := none

def smallConfig : ServerConfig where
  maxMessageLength := 5000
  maxImageMessageLength := 5000

/-- The original is compared with the limit without the HTML that is put around it. -/
theorem original_exceeds_limit :
    ¬ Fits smallConfig (sendMediaFile rationals smallConfig largeImage) := by
  have hlength : longUrl.length = 5000 := List.length_replicate ..
  have hguarded : longUrl.length ≤ guarded smallConfig.maxBytes := by
    rw [hlength]
    decide
  have hover : overhead .image largeImage = 26 := by decide
  have hsource : source largeImage smallConfig.maxBytes = .original longUrl .image :=
    source_of_image (by decide) rfl hguarded
  rw [original_fits_iff rationals hsource, hlength, hover]
  decide

end FancyMumble.Interface.MediaMessages
