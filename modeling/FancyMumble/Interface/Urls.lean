import Mathlib.Data.List.DropRight

/-!
# URLs

What of a URL decides where a request for it goes, and the setters with which the interface
moves a URL to another origin. Serializing a URL and parsing it again gives the same URL, so
URLs are kept parsed.
-/

namespace FancyMumble.Interface

/-- A parsed URL, less its query and fragment. The hostname is empty where there is none, and
an opaque path has no segments. -/
structure Url where
  protocol : String
  credentials : Bool := false
  hostname : String
  port : String
  segments : Option (List String)
deriving DecidableEq

namespace Url

def defaultPort : String → Option String
  | "http:" | "ws:" => some "80"
  | "https:" | "wss:" => some "443"
  | "ftp:" => some "21"
  | _ => none

def isSpecial (protocol : String) : Bool :=
  protocol ∈ ["http:", "https:", "ws:", "wss:", "ftp:", "file:"]

variable (url : Url)

def IsHttp : Prop := url.protocol = "http:" ∨ url.protocol = "https:"

instance : Decidable url.IsHttp := inferInstanceAs (Decidable (_ ∨ _))

theorem IsHttp.isSpecial {url : Url} (h : url.IsHttp) : isSpecial url.protocol = true := by
  rcases h with h | h <;> rw [h] <;> decide

theorem IsHttp.ne_file {url : Url} (h : url.IsHttp) : url.protocol ≠ "file:" := by
  rcases h with h | h <;> rw [h] <;> decide

def origin : String × String × String := (url.protocol, url.hostname, url.port)

end Url

/-- The URL parser of a platform, with its host parser for opaque hosts and for others. Nothing
is no URL. A parsed URL of HTTP has a host, which parses to itself, and no port that is the
default one. -/
structure UrlParser where
  parse : String → Option Url
  parseHost : Bool → String → Option String
  parse_empty : parse "" = none
  host_ne_empty : ∀ text url, parse text = some url → url.IsHttp → url.hostname ≠ ""
  parse_host : ∀ text url, parse text = some url → url.IsHttp →
    parseHost false url.hostname = some url.hostname
  port_ne_default : ∀ text url, parse text = some url → url.IsHttp →
    Url.defaultPort url.protocol ≠ some url.port

namespace Url

variable (parser : UrlParser) (url : Url)

/-! ## Setters -/

def setProtocol (protocol : String) : Url :=
  if isSpecial url.protocol ≠ isSpecial protocol then url
  else if protocol = "file:" ∧ (url.credentials ∨ url.port ≠ "") then url
  else if url.protocol = "file:" ∧ url.hostname = "" then url
  else
    { url with
      protocol := protocol
      port := if defaultPort protocol = some url.port then "" else url.port }

def setHostname (hostname : String) : Url :=
  if url.segments = none then url
  else if hostname = "" then
    if url.protocol = "file:" ∨
        ¬ (isSpecial url.protocol ∨ url.credentials ∨ url.port ≠ "") then
      { url with hostname := "" }
    else url
  else
    match parser.parseHost (!isSpecial url.protocol) hostname with
    | some host =>
        { url with hostname := if url.protocol = "file:" ∧ host = "localhost" then "" else host }
    | none => url

def setPort (port : String) : Url :=
  if url.hostname = "" ∨ url.protocol = "file:" then url
  else { url with port := if defaultPort url.protocol = some port then "" else port }

def rebase (base : Url) : Url :=
  ((url.setProtocol base.protocol).setHostname parser base.hostname).setPort base.port

@[simp] theorem setProtocol_segments (protocol : String) :
    (url.setProtocol protocol).segments = url.segments := by
  unfold setProtocol
  split_ifs <;> rfl

@[simp] theorem setHostname_segments (hostname : String) :
    (url.setHostname parser hostname).segments = url.segments := by
  unfold setHostname
  split_ifs
  · rfl
  · rfl
  · rfl
  · cases parser.parseHost (!isSpecial url.protocol) hostname <;> rfl

@[simp] theorem setHostname_protocol (hostname : String) :
    (url.setHostname parser hostname).protocol = url.protocol := by
  unfold setHostname
  split_ifs
  · rfl
  · rfl
  · rfl
  · cases parser.parseHost (!isSpecial url.protocol) hostname <;> rfl

@[simp] theorem setPort_segments (port : String) :
    (url.setPort port).segments = url.segments := by
  unfold setPort
  split_ifs <;> rfl

@[simp] theorem setPort_protocol (port : String) :
    (url.setPort port).protocol = url.protocol := by
  unfold setPort
  split_ifs <;> rfl

@[simp] theorem rebase_segments (base : Url) :
    (url.rebase parser base).segments = url.segments := by
  simp [rebase]

@[simp] theorem rebase_protocol (base : Url) :
    (url.rebase parser base).protocol = (url.setProtocol base.protocol).protocol := by
  simp [rebase]

theorem setProtocol_of_isHttp {url base : Url} (hbase : base.IsHttp)
    (h : (url.setProtocol base.protocol).IsHttp) :
    (url.setProtocol base.protocol).protocol = base.protocol := by
  unfold setProtocol at h ⊢
  by_cases hspecial : isSpecial url.protocol ≠ isSpecial base.protocol
  · rw [if_pos hspecial] at h
    rw [hbase.isSpecial, h.isSpecial] at hspecial
    exact absurd rfl hspecial
  · rw [if_neg hspecial, if_neg fun hfile => hbase.ne_file hfile.1] at h ⊢
    by_cases hfile : url.protocol = "file:" ∧ url.hostname = ""
    · rw [if_pos hfile] at h
      exact absurd hfile.1 h.ne_file
    · rw [if_neg hfile]

theorem origin_rebase {parser : UrlParser} {text : String} {url base : Url}
    (hparse : parser.parse text = some base) (hbase : base.IsHttp)
    (hsegments : url.segments ≠ none) (h : (url.rebase parser base).IsHttp) :
    (url.rebase parser base).origin = base.origin := by
  have hprotocol : (url.setProtocol base.protocol).protocol = base.protocol := by
    refine setProtocol_of_isHttp hbase ?_
    unfold IsHttp at h ⊢
    rwa [rebase_protocol] at h
  have hhostname : ((url.setProtocol base.protocol).setHostname parser base.hostname).hostname =
      base.hostname := by
    unfold setHostname
    rw [setProtocol_segments, if_neg hsegments,
      if_neg (parser.host_ne_empty text base hparse hbase), hprotocol, hbase.isSpecial]
    show (match parser.parseHost false base.hostname with
      | some host => _
      | none => _ : Url).hostname = base.hostname
    rw [parser.parse_host text base hparse hbase]
    exact if_neg fun hfile => hbase.ne_file hfile.1
  have hport : (url.rebase parser base).port = base.port := by
    unfold rebase setPort
    rw [hhostname, setHostname_protocol, hprotocol,
      if_neg (not_or.mpr ⟨parser.host_ne_empty text base hparse hbase, hbase.ne_file⟩)]
    exact if_neg (parser.port_ne_default text base hparse hbase)
  have hhost : (url.rebase parser base).hostname = base.hostname := by
    unfold rebase setPort
    split_ifs <;> exact hhostname
  unfold origin
  rw [hport, hhost, rebase_protocol, hprotocol]

/-! ## Requests -/

def fileId : Option String := do
  let segments ← url.segments
  match (segments.filter (· ≠ "")).reverse with
  | last :: "files" :: _ => some last
  | _ => none

def authUrl (fileId : String) : Url :=
  { url with
    segments := url.segments.map fun segments =>
      -- `pop_if_empty`, `pop` and `extend`
      let segments := if segments.getLast? = some "" then segments.dropLast else segments
      segments.dropLast ++ [fileId, "auth"] }

@[simp] theorem authUrl_origin (fileId : String) : (url.authUrl fileId).origin = url.origin :=
  rfl

theorem segments_of_fileId {url : Url} {id : String} (h : url.fileId = some id) :
    url.segments ≠ none := by
  intro hnone
  simp [fileId, hnone] at h

end Url

/-! ## Texts -/

def trimSlashes (text : String) : String :=
  String.ofList (text.toList.rdropWhile (· = '/'))

@[simp] theorem trimSlashes_trimSlashes (text : String) :
    trimSlashes (trimSlashes text) = trimSlashes text := by
  simp [trimSlashes, List.rdropWhile_idempotent]

theorem trimSlashes_of_last {text : String} {front : List Char} {c : Char}
    (h : text.toList = front ++ [c]) (hc : c ≠ '/') : trimSlashes text = text := by
  unfold trimSlashes
  rw [h, List.rdropWhile_concat_neg _ _ _ (by simpa using hc), ← h, String.ofList_toList]

def below (base : String) (path : List String) : String :=
  trimSlashes base ++ String.join (path.map ("/" ++ ·))

theorem below_trimSlashes (base : String) (path : List String) :
    below (trimSlashes base) path = below base path := by
  unfold below
  rw [trimSlashes_trimSlashes]

theorem below_nil (base : String) : below base [] = trimSlashes base := by
  simp [below, String.join]

def UrlParser.origin? (parser : UrlParser) (text : String) : Option (String × String × String) :=
  (parser.parse text).map Url.origin

end FancyMumble.Interface
