import FancyMumble.Interface.PluginData
import FancyMumble.Interface.Urls

/-!
# Credentials of file servers

The interface has one slot for the configuration of a file server, with the tokens that the
server has issued. Uploads and changes of emotes go to the base URL in the slot; downloads go to
the URL of a card in the chat, which is moved to the override of the base URL or else to the
host of the last connection attempt.
-/

namespace FancyMumble.Interface

open Lib.Runs

/-! ## Values -/

namespace JsValue

def string : JsValue → Option String
  | some (.string value) => some value
  | _ => none

def token (value : JsValue) : Option String := value.string.filter (· ≠ "")

def u32 : JsValue → Option UInt32
  | some (.number (.finite value)) =>
      if value.den = 1 ∧ 0 ≤ value.num ∧ value.num < 2 ^ 32 then
        some (UInt32.ofNat value.num.toNat)
      else none
  | some (.number .negativeZero) => some 0
  | _ => none

end JsValue

def FileServerConfig.hasToken (cfg : FileServerConfig) : Bool :=
  cfg.uploadToken.token.isSome || cfg.sessionJwt.token.isSome

def isWhitespace (c : Char) : Bool :=
  (0x9 ≤ c.toNat ∧ c.toNat ≤ 0xD) ∨ (0x2000 ≤ c.toNat ∧ c.toNat ≤ 0x200A) ∨
    c.toNat ∈ [0x20, 0x85, 0xA0, 0x1680, 0x2028, 0x2029, 0x202F, 0x205F, 0x3000]

def trim (text : String) : String :=
  String.ofList ((text.toList.dropWhile isWhitespace).rdropWhile isWhitespace)

def defaultBaseUrl (host : String) : String :=
  "http://" ++ (if host = "localhost" then "127.0.0.1" else host) ++ ":64739"

def fileServerBaseUrl (override host : Option String) : Option String :=
  match override.filter (· ≠ "") with
  | some url => some (trimSlashes url)
  | none => host.map defaultBaseUrl

theorem trimSlashes_fileServerBaseUrl {override host : Option String} {text : String}
    (h : fileServerBaseUrl override host = some text) : trimSlashes text = text := by
  unfold fileServerBaseUrl at h
  cases hoverride : override.filter (· ≠ "") with
  | some url =>
      rw [hoverride] at h
      cases h
      exact trimSlashes_trimSlashes url
  | none =>
      rw [hoverride] at h
      obtain ⟨host, -, rfl⟩ := Option.map_eq_some_iff.mp h
      have hlast : (defaultBaseUrl host).toList =
          ("http://" ++ (if host = "localhost" then "127.0.0.1" else host) ++ ":6473").toList ++
            ['9'] := by
        simp [defaultBaseUrl]
      exact trimSlashes_of_last hlast (by decide)

/-- The new server configuration goes into the store, and its override into the slot. -/
def ServerData.setServerConfig (s : ServerData) (override : Option String) : ServerData :=
  { s with
    override := override
    fileServerConfig :=
      match override.filter (· ≠ "") with
      | some url => s.fileServerConfig.map fun cfg =>
          { cfg with baseUrl := some (.string (trimSlashes url)) }
      | none => s.fileServerConfig }

inductive FileAccessMode where
  | «public»
  | password
  | session
deriving DecidableEq

/-- What a user does that sends a token; a download is one of a card, with the password that
was entered. -/
inductive FileAction where
  | uploadFile (mode : FileAccessMode) (password : Option String)
  | addCustomEmote
  | removeCustomEmote (shortcode : String)
  | downloadFile (card : ℕ) (password : Option String)

def UrlParser.request (parser : UrlParser) (text : String) : Option Url :=
  (parser.parse text).filter fun url => url.IsHttp

/-! ## Client -/

/-- The state of the file server in the interface, the configurations that the backend keeps for
each connection and how many of its announcements are unanswered. `named` and `issuer` are not
part of the client: the base URLs that each server has named, and the server whose tokens are in
the slot. -/
structure FileClient (σ : Type) where
  data : ServerData := {}
  pendingConnect : Option String := none
  cards : List (Option Url) := []
  active : Option σ := none
  configs : σ → Option String := fun _ => none
  unanswered : ℕ := 0
  named : σ → List String := fun _ => []
  issuer : Option σ := none

/-- What happens to a client: connections are attempted and fail, a server sends its
configuration, the interface gets that of the active connection, tabs are switched, plugin
data arrives, the interface is reset, and cards come and go. -/
inductive FileEvent (σ : Type) where
  | connect (v : σ) (host : String)
  | connectFailed
  | serverConfig (v : σ) (url : Option String)
  | configAnswered
  | activate (v : Option σ)
  | pluginData (v : σ) (msg : PluginDataTransmission)
  | reset (keepPending : Bool)
  | showCard (url : String)
  | clearCards

namespace FileClient

variable {σ : Type} (script : Script) (parser : UrlParser) (s : FileClient σ)

def destination (action : FileAction) : Option Url := do
  let cfg ← s.data.fileServerConfig
  match action with
  | .uploadFile mode password =>
      if mode = .password ∧ password.getD "" = "" then none
      else
        let base ← cfg.baseUrl.string
        let _ ← cfg.sessionId.u32
        let _ ← cfg.uploadToken.token
        parser.request (below base ["files"])
  | .addCustomEmote =>
      if cfg.canManageEmotes then
        let base ← cfg.baseUrl.string
        let _ ← cfg.sessionJwt.token
        parser.request (below base ["emotes"])
      else none
  | .removeCustomEmote shortcode =>
      if cfg.canManageEmotes then
        let base ← cfg.baseUrl.string
        let _ ← cfg.sessionJwt.token
        parser.request (below base ["emotes", shortcode])
      else none
  | .downloadFile card password =>
      -- a password takes the place of the token
      if password ≠ none then none
      else
        let _ ← cfg.sessionJwt.token
        let url ← s.cards[card]?.join
        let fileId ← url.fileId
        some (url.authUrl fileId) |>.filter fun url => url.IsHttp

def rebaseFileServerUrl (text : String) : Option Url := do
  let url ← parser.parse text
  match ((fileServerBaseUrl s.data.override s.pendingConnect).filter (· ≠ "")).bind
      parser.parse with
  | some base => some (url.rebase parser base)
  | none => some url

section Step

variable [DecidableEq σ]

def name (v : σ) (urls : List String) : FileClient σ :=
  { s with named := Function.update s.named v (s.named v ++ urls) }

def announcedBaseUrl (msg : PluginDataTransmission) : Option String :=
  if msg.dataId = some "fancy-file-server-config" then do
    let raw ← script.parse (msg.data.getD [])
    (← raw.field "base_url").string
  else none

def step (script : Script) (parser : UrlParser) (s : FileClient σ) :
    FileEvent σ → FileClient σ
  | .connect v host => { s.name v [defaultBaseUrl host] with pendingConnect := some host }
  | .connectFailed => { s with pendingConnect := none }
  | .serverConfig v url =>
      let url := (url.map trim).filter (· ≠ "")
      { s.name v url.toList with
        configs := Function.update s.configs v url
        unanswered := s.unanswered + 1 }
  | .configAnswered =>
      if s.unanswered = 0 then s
      else
        { s with
          data := s.data.setServerConfig (s.active.bind s.configs)
          unanswered := s.unanswered - 1 }
  | .activate v => { s with active := v }
  | .pluginData v msg =>
      let fromServer : Bool := msg.senderSession = none
      let urls := if fromServer then (announcedBaseUrl script msg).toList else []
      { s.name v urls with
        data := s.data.receive script msg
        issuer :=
          match s.data.announcedConfig script msg with
          | some cfg => if fromServer && cfg.hasToken then some v else none
          | none => s.issuer }
  | .reset keepPending =>
      { s with
        data :=
          { s.data with override := none, fileServerConfig := none, customServerEmotes := [] }
        pendingConnect := if keepPending then s.pendingConnect else none
        issuer := none }
  | .showCard url => { s with cards := s.cards ++ [s.rebaseFileServerUrl parser url] }
  | .clearCards => { s with cards := [] }

end Step

/-! ## Origins -/

/-- A server has an origin if it is one of a base URL that the server has named, or of something
below. -/
def Owns (v : σ) (origin : String × String × String) : Prop :=
  ∃ base ∈ s.named v, ∃ path, parser.origin? (below base path) = some origin

/-- A text is a base URL of a server, if the server has named one with the same origins. -/
def Names (v : σ) (text : String) : Prop :=
  ∃ base ∈ s.named v, ∀ path, parser.origin? (below text path) = parser.origin? (below base path)

def NamesBase (v : σ) (text : Option String) : Prop :=
  ∃ url base, text = some url ∧ parser.parse url = some base ∧ base.IsHttp ∧ s.Names parser v url

def OwnsCards (v : σ) : Prop :=
  ∀ url, some url ∈ s.cards → url.fileId ≠ none → url.IsHttp → s.Owns parser v url.origin

/-- The tokens of a server are only sent to its own origins. -/
def TokensStayHome : Prop :=
  ∀ v action url, s.issuer = some v → s.destination parser action = some url →
    s.Owns parser v url.origin

theorem names_of_mem {v : σ} {text : String} (h : text ∈ s.named v) : s.Names parser v text :=
  ⟨text, h, fun _ => rfl⟩

variable {s} {parser}

theorem Names.trimSlashes_iff {v : σ} {text : String} :
    s.Names parser v (trimSlashes text) ↔ s.Names parser v text := by
  unfold Names
  simp only [below_trimSlashes]

theorem Names.owns {v : σ} {text : String} (h : s.Names parser v text) {path : List String}
    {url : Url} (hurl : parser.parse (below text path) = some url) :
    s.Owns parser v url.origin := by
  obtain ⟨base, hbase, hsame⟩ := h
  refine ⟨base, hbase, path, ?_⟩
  rw [← hsame path]
  unfold UrlParser.origin?
  rw [hurl]
  rfl

theorem Names.owns_of_request {v : σ} {text : String} (h : s.Names parser v text)
    {path : List String} {url : Url} (hurl : parser.request (below text path) = some url) :
    s.Owns parser v url.origin :=
  h.owns (Option.filter_eq_some_iff.mp hurl).1

theorem Owns.mono {s' : FileClient σ} {v : σ} {origin : String × String × String}
    (h : s.Owns parser v origin) (hnamed : s.named v ⊆ s'.named v) :
    s'.Owns parser v origin := by
  obtain ⟨base, hbase, hpath⟩ := h
  exact ⟨base, hnamed hbase, hpath⟩

theorem Names.mono {s' : FileClient σ} {v : σ} {text : String} (h : s.Names parser v text)
    (hnamed : s.named v ⊆ s'.named v) : s'.Names parser v text := by
  obtain ⟨base, hbase, hsame⟩ := h
  exact ⟨base, hnamed hbase, hsame⟩

theorem NamesBase.mono {s' : FileClient σ} {v : σ} {text : Option String}
    (h : s.NamesBase parser v text) (hnamed : s.named v ⊆ s'.named v) :
    s'.NamesBase parser v text := by
  obtain ⟨url, base, htext, hparse, hhttp, hnames⟩ := h
  exact ⟨url, base, htext, hparse, hhttp, hnames.mono hnamed⟩

theorem OwnsCards.mono {s' : FileClient σ} {v : σ} (h : s.OwnsCards parser v)
    (hnamed : s.named v ⊆ s'.named v) (hcards : s'.cards ⊆ s.cards) :
    s'.OwnsCards parser v :=
  fun url hurl hid hhttp => (h url (hcards hurl) hid hhttp).mono hnamed

/-! ## Invariant -/

variable (s) (parser)

/-- What the tokens of a server in the slot can be sent to: what is below the base URL in the
slot, the base that downloads are moved to, and the cards. -/
structure Home (v : σ) : Prop where
  slot : ∀ cfg base, s.data.fileServerConfig = some cfg → cfg.baseUrl.string = some base →
    s.Names parser v base
  downloads : s.NamesBase parser v (fileServerBaseUrl s.data.override s.pendingConnect)
  cards : s.OwnsCards parser v

variable {s} {parser}

theorem Home.owns {v : σ} (h : s.Home parser v) {action : FileAction} {url : Url}
    (hurl : s.destination parser action = some url) : s.Owns parser v url.origin := by
  unfold destination at hurl
  obtain ⟨cfg, hcfg, hurl⟩ := Option.bind_eq_some_iff.mp hurl
  cases action with
  | uploadFile mode password =>
      dsimp only at hurl
      split_ifs at hurl
      obtain ⟨base, hbase, hurl⟩ := Option.bind_eq_some_iff.mp hurl
      obtain ⟨_, -, hurl⟩ := Option.bind_eq_some_iff.mp hurl
      obtain ⟨_, -, hurl⟩ := Option.bind_eq_some_iff.mp hurl
      exact (h.slot cfg base hcfg hbase).owns_of_request hurl
  | addCustomEmote =>
      dsimp only at hurl
      split_ifs at hurl
      obtain ⟨base, hbase, hurl⟩ := Option.bind_eq_some_iff.mp hurl
      obtain ⟨_, -, hurl⟩ := Option.bind_eq_some_iff.mp hurl
      exact (h.slot cfg base hcfg hbase).owns_of_request hurl
  | removeCustomEmote shortcode =>
      dsimp only at hurl
      split_ifs at hurl
      obtain ⟨base, hbase, hurl⟩ := Option.bind_eq_some_iff.mp hurl
      obtain ⟨_, -, hurl⟩ := Option.bind_eq_some_iff.mp hurl
      exact (h.slot cfg base hcfg hbase).owns_of_request hurl
  | downloadFile card password =>
      dsimp only at hurl
      split_ifs at hurl
      obtain ⟨_, -, hurl⟩ := Option.bind_eq_some_iff.mp hurl
      obtain ⟨shown, hshown, hurl⟩ := Option.bind_eq_some_iff.mp hurl
      obtain ⟨fileId, hfileId, hurl⟩ := Option.bind_eq_some_iff.mp hurl
      obtain ⟨hauth, hhttp⟩ := Option.filter_eq_some_iff.mp hurl
      cases hauth
      have hmem : some shown ∈ s.cards :=
        List.mem_of_getElem? (Option.join_eq_some_iff.mp hshown)
      rw [Url.authUrl_origin]
      exact h.cards shown hmem (by simp [hfileId]) (of_decide_eq_true hhttp)

theorem NamesBase.owns_card {v : σ}
    (h : s.NamesBase parser v (fileServerBaseUrl s.data.override s.pendingConnect))
    {text : String} {url : Url} (hurl : s.rebaseFileServerUrl parser text = some url)
    (hfileId : url.fileId ≠ none) (hhttp : url.IsHttp) : s.Owns parser v url.origin := by
  obtain ⟨baseText, base, hbaseText, hparse, hbase, hnames⟩ := h
  have htrimmed := trimSlashes_fileServerBaseUrl hbaseText
  have hown : s.Owns parser v base.origin := by
    have hbelow : parser.parse (below baseText []) = some base := by
      rw [below_nil, htrimmed, hparse]
    exact hnames.owns hbelow
  unfold rebaseFileServerUrl at hurl
  obtain ⟨shown, -, hurl⟩ := Option.bind_eq_some_iff.mp hurl
  rw [hbaseText] at hurl
  have hempty : baseText ≠ "" := by
    rintro rfl
    rw [parser.parse_empty] at hparse
    cases hparse
  rw [Option.filter_some_pos (by simpa using hempty), Option.bind_some, hparse] at hurl
  cases hurl
  have hsegments : shown.segments ≠ none := by
    obtain ⟨id, hid⟩ := Option.ne_none_iff_exists'.mp hfileId
    have := Url.segments_of_fileId hid
    rwa [Url.rebase_segments] at this
  rw [Url.origin_rebase hparse hbase hsegments hhttp]
  exact hown

theorem NamesBase.names_override {v : σ} {override host : Option String}
    (h : s.NamesBase parser v (fileServerBaseUrl override host)) {url : String}
    (hurl : override.filter (· ≠ "") = some url) : s.Names parser v url := by
  obtain ⟨text, base, htext, -, -, hnames⟩ := h
  unfold fileServerBaseUrl at htext
  rw [hurl] at htext
  cases htext
  exact Names.trimSlashes_iff.mp hnames

theorem Home.mono {s' : FileClient σ} {v : σ} (h : s.Home parser v)
    (hnamed : s.named v ⊆ s'.named v)
    (hconfig : s'.data.fileServerConfig = s.data.fileServerConfig)
    (hoverride : s'.data.override = s.data.override)
    (hpending : s'.pendingConnect = s.pendingConnect) (hcards : s'.cards ⊆ s.cards) :
    s'.Home parser v where
  slot cfg base hcfg hbase := (h.slot cfg base (hconfig ▸ hcfg) hbase).mono hnamed
  downloads := by
    rw [hoverride, hpending]
    exact h.downloads.mono hnamed
  cards := h.cards.mono hnamed hcards

variable [DecidableEq σ] (parser)

/-- The event leaves the tokens of a server with bases of the same server: when they arrive
with the configuration of the server, and as long as they are in the slot. -/
def KeepsHome (s : FileClient σ) : FileEvent σ → Prop
  | .connect v host => ∀ w, s.issuer = some w →
      (s.name v [defaultBaseUrl host]).NamesBase parser w
        (fileServerBaseUrl s.data.override (some host))
  | .connectFailed => ∀ w, s.issuer = some w →
      s.NamesBase parser w (fileServerBaseUrl s.data.override none)
  | .configAnswered => ∀ w, s.issuer = some w → s.unanswered ≠ 0 →
      s.NamesBase parser w (fileServerBaseUrl (s.active.bind s.configs) s.pendingConnect)
  | .pluginData v msg => ∀ cfg, msg.senderSession = none →
      s.data.announcedConfig script msg = some cfg → cfg.hasToken →
        let announced := s.name v (announcedBaseUrl script msg).toList
        announced.NamesBase parser v (fileServerBaseUrl s.data.override s.pendingConnect) ∧
          announced.OwnsCards parser v
  | _ => True

def AtHome (s : FileClient σ) : Prop :=
  ∀ v, s.issuer = some v → s.Home parser v

variable {script parser}

theorem subset_name (v w : σ) (urls : List String) : s.named w ⊆ (s.name v urls).named w := by
  show s.named w ⊆ Function.update s.named v (s.named v ++ urls) w
  by_cases h : w = v
  · subst h
    rw [Function.update_self]
    exact List.subset_append_left _ _
  · rw [Function.update_of_ne h]
    exact List.Subset.refl _

theorem mem_name (v : σ) {urls : List String} {url : String} (h : url ∈ urls) :
    url ∈ (s.name v urls).named v := by
  show url ∈ Function.update s.named v (s.named v ++ urls) v
  rw [Function.update_self]
  exact List.mem_append_right _ h

theorem announcedConfig_baseUrl {data : ServerData} {msg : PluginDataTransmission}
    {cfg : FileServerConfig} {base : String} (h : data.announcedConfig script msg = some cfg)
    (hbase : cfg.baseUrl.string = some base) :
    data.override.filter (· ≠ "") = some base ∨ announcedBaseUrl script msg = some base := by
  unfold ServerData.announcedConfig at h
  split_ifs at h with hid
  obtain ⟨raw, hraw, hread⟩ := Option.bind_eq_some_iff.mp h
  have hbaseUrl := FileServerConfig.readBaseUrl_of_read hread
  unfold FileServerConfig.readBaseUrl at hbaseUrl
  cases hoverride : data.override.filter (· ≠ "") with
  | some url =>
      rw [hoverride] at hbaseUrl
      rw [← Option.some.inj hbaseUrl] at hbase
      exact Or.inl hbase
  | none =>
      rw [hoverride] at hbaseUrl
      refine Or.inr ?_
      unfold announcedBaseUrl
      rw [if_pos hid, hraw]
      show (raw.field "base_url").bind JsValue.string = some base
      rw [show raw.field "base_url" = some cfg.baseUrl from hbaseUrl]
      exact hbase

theorem AtHome.configAnswered (h : s.AtHome parser)
    (hkeeps : KeepsHome script parser s .configAnswered) :
    (s.step script parser .configAnswered).AtHome parser := by
  intro w hw
  unfold FileClient.step at hw ⊢
  dsimp only at hw ⊢
  by_cases hunanswered : s.unanswered = 0
  · rw [if_pos hunanswered] at hw ⊢
    exact h w hw
  · rw [if_neg hunanswered] at hw ⊢
    have hhome := h w hw
    have hbase := hkeeps w hw hunanswered
    refine
      { slot := fun cfg base hcfg hbaseUrl => ?_
        downloads := hbase
        cards := hhome.cards }
    unfold ServerData.setServerConfig at hcfg
    cases hurl : (s.active.bind s.configs).filter (· ≠ "") with
    | none =>
        rw [hurl] at hcfg
        exact hhome.slot cfg base hcfg hbaseUrl
    | some url =>
        rw [hurl] at hcfg
        obtain ⟨old, -, rfl⟩ := Option.map_eq_some_iff.mp hcfg
        cases hbaseUrl
        exact Names.trimSlashes_iff.mpr (hbase.names_override hurl)

theorem AtHome.pluginData {v : σ} {msg : PluginDataTransmission} (h : s.AtHome parser)
    (hkeeps : KeepsHome script parser s (.pluginData v msg)) :
    (s.step script parser (.pluginData v msg)).AtHome parser := by
  intro w hw
  unfold FileClient.step at hw ⊢
  dsimp only at hw ⊢
  have hdata := s.data.receive_eq script msg
  cases hannounced : s.data.announcedConfig script msg with
  | none =>
      rw [hannounced] at hw hdata
      refine (h w hw).mono (subset_name v w _) ?_ ?_ rfl (List.Subset.refl _)
      · rw [hdata]
        rfl
      · rw [hdata]
  | some cfg =>
      rw [hannounced] at hw hdata
      dsimp only at hw
      split_ifs at hw with hfrom
      · cases hw
        obtain ⟨hsender, htoken⟩ := Bool.and_eq_true_iff.mp hfrom
        rw [hsender]
        obtain ⟨hbase, hcards⟩ := hkeeps cfg (of_decide_eq_true hsender) hannounced htoken
        refine
          { slot := fun cfg' base hcfg hbaseUrl => ?_
            downloads := ?_
            cards := hcards }
        · rw [hdata] at hcfg
          cases hcfg
          rcases announcedConfig_baseUrl hannounced hbaseUrl with hurl | hurl
          · exact hbase.names_override hurl
          · exact names_of_mem parser _ (mem_name _ (by simp [hurl]))
        · rw [hdata]
          exact hbase

/-- An event that leaves the tokens with bases of their server leaves them at home. -/
theorem AtHome.step {event : FileEvent σ} (h : s.AtHome parser)
    (hkeeps : KeepsHome script parser s event) : (s.step script parser event).AtHome parser := by
  intro w hw
  cases event with
  | connect v host =>
      have hhome := h w hw
      have hnamed := subset_name (s := s) v w [defaultBaseUrl host]
      exact
        { slot := fun cfg base hcfg hbase => (hhome.slot cfg base hcfg hbase).mono hnamed
          downloads := (hkeeps w hw).mono (List.Subset.refl _)
          cards := hhome.cards.mono hnamed (List.Subset.refl _) }
  | connectFailed =>
      have hhome := h w hw
      exact
        { slot := hhome.slot
          downloads := hkeeps w hw
          cards := hhome.cards }
  | serverConfig v url =>
      exact (h w hw).mono (subset_name v w _) rfl rfl rfl (List.Subset.refl _)
  | configAnswered => exact h.configAnswered hkeeps w hw
  | activate v => exact (h w hw).mono (List.Subset.refl _) rfl rfl rfl (List.Subset.refl _)
  | pluginData v msg => exact h.pluginData hkeeps w hw
  | reset keepPending => cases hw
  | showCard url =>
      have hhome := h w hw
      refine
        { slot := hhome.slot
          downloads := hhome.downloads
          cards := fun card hcard hid hhttp => ?_ }
      rcases List.mem_append.mp hcard with hcard | hcard
      · exact hhome.cards card hcard hid hhttp
      · exact hhome.downloads.owns_card (List.mem_singleton.mp hcard).symm hid hhttp
  | clearCards =>
      exact (h w hw).mono (List.Subset.refl _) rfl rfl rfl (List.nil_subset _)

/-- In every run whose events leave the tokens with bases of their server, they are only sent
to its own origins. -/
theorem tokensStayHome_run (events : List (FileEvent σ))
    (h : Along (step script parser) (KeepsHome script parser) {} events) :
    (run (step script parser) {} events).TokensStayHome parser := by
  have hhome : (run (step script parser) {} events).AtHome parser := by
    refine invariant_run (fun s event hs hkeeps => ?_) ?_ h
    · exact hs.step hkeeps
    · intro v hv
      cases hv
  intro v action url hissuer hurl
  exact (hhome v hissuer).owns hurl

def twoHosts : UrlParser where
  parse text :=
    if text = "http://a:64739" then
      some { protocol := "http:", hostname := "a", port := "64739", segments := some [""] }
    else if text = "http://b:64739" then
      some { protocol := "http:", hostname := "b", port := "64739", segments := some [""] }
    else if text = "http://a:64739/files/x" then
      some
        { protocol := "http:"
          hostname := "a"
          port := "64739"
          segments := some ["files", "x"] }
    else none
  parseHost _ host := some host
  parse_empty := by decide
  host_ne_empty text url h _ := by
    split_ifs at h <;> cases h <;> decide
  parse_host _ _ _ _ := rfl
  port_ne_default text url h _ := by
    split_ifs at h <;> cases h <;> decide

def oneToken : Script where
  parse data :=
    if data = [123, 34, 115, 101, 115, 115, 105, 111, 110, 95, 106, 119, 116, 34, 58, 34, 116, 34,
        125] then
      some (.object [("session_jwt", .string "t")])
    else none
  text _ := none

def tokenMessage : PluginDataTransmission where
  data := some [123, 34, 115, 101, 115, 115, 105, 111, 110, 95, 106, 119, 116, 34, 58, 34, 116,
    34, 125]
  dataId := some "fancy-file-server-config"

theorem tokensStayHome_one_server :
    (run (step oneToken twoHosts) ({} : FileClient ℕ)
      [.connect 0 "a", .pluginData 0 tokenMessage,
        .showCard "http://a:64739/files/x"]).TokensStayHome twoHosts := by
  apply tokensStayHome_run
  rw [along_cons, along_cons, along_cons]
  refine ⟨fun w hw => (by cases hw), fun _ _ _ _ => ?_, trivial, trivial⟩
  refine ⟨⟨"http://a:64739", _, by decide, rfl, Or.inl rfl, ?_⟩, fun url hurl => (by cases hurl)⟩
  exact names_of_mem _ _ (by decide)

/-- After a connection to another host, its file server gets the token when a file is
downloaded. -/
theorem token_sent_to_other_host :
    ¬ (run (step oneToken twoHosts) ({} : FileClient ℕ)
      [.connect 0 "a", .pluginData 0 tokenMessage, .connect 1 "b",
        .showCard "http://a:64739/files/x"]).TokensStayHome twoHosts := by
  intro h
  have hown := h 0 (.downloadFile 0 none)
    { protocol := "http:", hostname := "b", port := "64739",
      segments := some ["files", "x", "auth"] } (by decide) (by decide)
  obtain ⟨base, hbase, path, hpath⟩ := hown
  have hnamed : (run (step oneToken twoHosts) ({} : FileClient ℕ)
      [.connect 0 "a", .pluginData 0 tokenMessage, .connect 1 "b",
        .showCard "http://a:64739/files/x"]).named 0 = ["http://a:64739"] := by decide
  rw [hnamed, List.mem_singleton] at hbase
  subst hbase
  have htext : below "http://a:64739" path = "http://b:64739" := by
    unfold UrlParser.origin? twoHosts at hpath
    dsimp only at hpath
    split_ifs at hpath with ha hb
    · simp [Url.origin] at hpath
    · exact hb
    · simp [Url.origin] at hpath
    · simp at hpath
  have hlist := congrArg String.toList htext
  unfold below at hlist
  rw [String.toList_append, show (trimSlashes "http://a:64739").toList =
    ['h', 't', 't', 'p', ':', '/', '/', 'a', ':', '6', '4', '7', '3', '9'] by decide] at hlist
  simp at hlist

end FileClient

end FancyMumble.Interface
