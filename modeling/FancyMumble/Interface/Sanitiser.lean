import FancyMumble.Interface.MarkdownUrls
import Mathlib.Data.List.Nodup

/-!
# The sanitiser of chat bodies

A message is parsed to a tree, its images and videos are taken out, and what is left is walked to
strip elements and attributes that are not on the lists of what is allowed. The walk reads
properties of the document and of elements; elements of the message with the right name or id
take their place.
-/

namespace FancyMumble.Interface.Sanitiser

open Interface.MarkdownUrls
open Lib.Json Lib.Occurrences

/-! ## Trees -/

structure Attr where
  name : Text
  value : Text
deriving DecidableEq

/-- A control or an image of a form: the name of its interface, where it is if it is in the
form, and where the options are that a `select` holds. -/
structure Control where
  interface : Text
  isImage : Bool := false
  id : Option Text := none
  name : Option Text := none
  path : Option (List ℕ) := none
  options : List (List ℕ) := []
deriving DecidableEq

/-- An HTML form comes with what it owns when it is read; what is in `svg` and `math` is not
HTML. -/
inductive Kind where
  | html
  | form (controls : List Control)
  | foreign

inductive Node where
  | text (data : Text)
  | comment (data : Text)
  | element (kind : Kind) (localName : Text) (attributes : List Attr) (children : List Node)

mutual

def Node.textContent : Node → Text
  | .text data => data
  | .comment _ => []
  | .element _ _ _ children => textContentAll children

def textContentAll : List Node → Text
  | [] => []
  | node :: nodes => node.textContent ++ textContentAll nodes

end

mutual

def Node.elements : Node → List Node
  | .element kind localName attributes children =>
      .element kind localName attributes children :: elementsAll children
  | _ => []

def elementsAll : List Node → List Node
  | [] => []
  | node :: nodes => node.elements ++ elementsAll nodes

end

def getAttribute (attributes : List Attr) (name : Text) : Option Text :=
  (attributes.find? (·.name = name)).map (·.value)

def removeAttribute (attributes : List Attr) (name : Text) : List Attr :=
  attributes.eraseP (·.name = name)

def setAttribute : List Attr → Text → Text → List Attr
  | [], name, value => [{ name, value }]
  | a :: attributes, name, value =>
      if a.name = name then { name, value } :: attributes
      else a :: setAttribute attributes name value

def asciiLower (c : UInt16) : UInt16 := if 65 ≤ c ∧ c ≤ 90 then c + 32 else c

def asciiUpper (c : UInt16) : UInt16 := if 97 ≤ c ∧ c ≤ 122 then c - 32 else c

/-- `toLowerCase`. Of the letters that are not in ASCII only the Kelvin sign becomes one that is,
namely a `k`. -/
structure Lowercase where
  toLowerCase : Text → Text
  toLowerCase_ascii : ∀ text, (∀ c ∈ text, c < 128) → toLowerCase text = text.map asciiLower
  ascii_of_toLowerCase : ∀ text, (∀ c ∈ toLowerCase text, c < 128 ∧ c ≠ unit 'k') →
    ∀ c ∈ text, c < 128

/-! ## Named properties -/

/-- What stands in place of a property of an element: of a form, the controls with the name or
id, or its images if there are none. -/
def Kind.named (kind : Kind) (property : Text) : List Control :=
  match kind with
  | .form controls =>
      let candidates := controls.filter fun c => c.id = some property ∨ c.name = some property
      if candidates.all (·.isImage) then candidates else candidates.filter (!·.isImage)
  | _ => []

/-- `textContent ?? ""` as `createTextNode` takes it. -/
def Kind.textContent (kind : Kind) (children : List Node) : Text :=
  match kind.named (ascii "textContent") with
  | [] => textContentAll children
  | [control] => ascii "[object " ++ control.interface ++ ascii "]"
  | _ => ascii "[object RadioNodeList]"

def Kind.isForeign : Kind → Bool
  | .foreign => true
  | _ => false

/-- The element is one that stands in place of a property of the document. An object does so
unless there are others in it. -/
def isNamed (property : Text) : Node → Bool
  | .element kind localName attributes children =>
      let name := getAttribute attributes (ascii "name")
      let id := getAttribute attributes (ascii "id")
      !kind.isForeign &&
        (decide (localName ∈ ["embed", "form", "iframe", "img"].map ascii ∧ name = some property) ||
          decide (localName = ascii "img" ∧ id = some property ∧ ∃ n ∈ name, n ≠ []) ||
          (decide (localName = ascii "object" ∧ (name = some property ∨ id = some property)) &&
            (elementsAll children).all fun
              | .element kind localName _ _ =>
                  kind.isForeign || decide (localName ∉ ["embed", "object"].map ascii)
              | _ => true))
  | _ => false

def documentNamed (property : Text) (nodes : List Node) : List Node :=
  (elementsAll nodes).filter (isNamed property)

/-! ## What is allowed -/

def allowedTags : List Text :=
  ["b", "i", "u", "s", "em", "strong", "br", "p", "span",
    "font", "code", "pre", "a", "ul", "ol", "li", "blockquote",
    "h1", "h2", "h3", "h4", "h5", "h6", "sub", "sup", "small",
    "del", "ins", "abbr", "mark", "hr", "table", "thead", "tbody",
    "tr", "td", "th"].map ascii

def globalAllowed : List Text := ["class", "title"].map ascii

def tagAllowed (tag : Text) : List Text :=
  if tag = ascii "a" then ["href", "target", "rel"].map ascii
  else if tag = ascii "font" then ["color", "size", "face"].map ascii
  else if tag = ascii "span" then
    ["style", "data-mention-session", "data-mention-role", "data-mention-everyone",
      "data-mention-here"].map ascii
  else if tag = ascii "td" ∨ tag = ascii "th" then ["colspan", "rowspan"].map ascii
  else []

def safeCssProps : List Text :=
  ["color", "background-color", "background", "font-size",
    "font-weight", "font-style", "font-family", "text-decoration",
    "text-align", "margin", "padding", "border", "display",
    "white-space", "word-break", "line-height", "letter-spacing"].map ascii

def trim (text : Text) : Text := (text.dropWhile isSpace).rdropWhile isSpace

def isSafeUrl (value : Text) : Bool :=
  ["https:", "http:", "mailto:", "#"].any fun scheme =>
    ascii scheme <+: (trim value).map asciiLower

section Sanitise

variable (js : Lowercase)

def cssProperty (decl : Text) : Text :=
  js.toLowerCase (trim ((decl.splitOn (unit ':')).headD []))

def sanitiseStyle (value : Text) : Text :=
  [unit ';'].intercalate
    ((value.splitOn (unit ';')).filter fun decl => cssProperty js decl ∈ safeCssProps)

def handleAttr (tag : Text) (attributes : List Attr) (attr : Attr) : List Attr :=
  let name := js.toLowerCase attr.name
  if ascii "on" <+: name ∨ (name ∉ globalAllowed ∧ name ∉ tagAllowed tag) then
    removeAttribute attributes attr.name
  else if name = ascii "href" ∧ ¬ isSafeUrl attr.value then removeAttribute attributes attr.name
  else if name = ascii "style" then
    if sanitiseStyle js attr.value ≠ [] then
      setAttribute attributes (ascii "style") (sanitiseStyle js attr.value)
    else removeAttribute attributes (ascii "style")
  else attributes

def markExternal (attributes : List Attr) : List Attr :=
  setAttribute (setAttribute (setAttribute attributes (ascii "target") (ascii "_blank"))
    (ascii "rel") (ascii "noopener noreferrer")) (ascii "data-external") (ascii "true")

def sanitiseAttrs (attributes : List Attr) (tag : Text) : List Attr :=
  let handled := attributes.foldl (handleAttr js tag) attributes
  if tag = ascii "a" then markExternal handled else handled

def tagOf (localName : Text) : Text := js.toLowerCase (localName.map asciiUpper)

mutual

/-- One turn of the loop in `sanitiseTree`, if it does not throw. -/
def sanitiseNode : Node → Option Node
  | .text data => some (.text data)
  | .comment data => some (.comment data)
  | .element kind localName attributes children =>
      -- an element has no `toLowerCase`
      if kind.named (ascii "tagName") ≠ [] then none
      else if tagOf js localName ∉ allowedTags then
        -- and cannot be called
        if kind.named (ascii "replaceWith") ≠ [] then none
        else some (.text (kind.textContent children))
      else
        (sanitiseTree children).map fun children =>
          .element kind localName (sanitiseAttrs js attributes (tagOf js localName)) children

def sanitiseTree : List Node → Option (List Node)
  | [] => some []
  | node :: nodes => (sanitiseNode node).bind fun node => (sanitiseTree nodes).map (node :: ·)

end

/-! ### Another element in place of the body -/

/-- The element at a place in a tree is replaced with its text. -/
def replaceAt : List ℕ → List Node → List Node
  | [], nodes => nodes
  | i :: path, nodes => nodes.modify i fun
      | .element kind localName attributes children =>
          if path = [] then .text (textContentAll children)
          else .element kind localName attributes (replaceAt path children)
      | node => node

/-- The walk from a form, and its `innerHTML`. Of a control in place of `children` only a
`select` has elements, its options; several controls are a list of them. No control and no
option has an allowed tag. -/
def sanitiseForm (controls : List Control) (children : List Node) : Option (List Node) :=
  let readHtml (left : List Control) (children : List Node) : Option (List Node) :=
    if (Kind.form left).named (ascii "innerHTML") ≠ [] then none else some children
  let replace (paths : List (List ℕ)) : Option (List Node) :=
    readHtml (controls.filter fun c => c.path.all fun path => paths.all (¬ · <+: path))
      (paths.foldl (fun nodes path => replaceAt path nodes) children)
  match (Kind.form controls).named (ascii "children") with
  | [] => (sanitiseTree js children).bind (readHtml (controls.filter (·.path.isNone)))
  | [control] => replace control.options
  | several => replace (several.filterMap (·.path))

/-- What `innerHTML` is made of: the children, and the element that has them. -/
structure Cleaned where
  localName : Text
  children : List Node

/-- `sanitiseTree(doc.body)` and `doc.body.innerHTML`. A collection of several elements has
neither `children` nor an `innerHTML`. -/
def sanitiseBody (nodes : List Node) : Option Cleaned :=
  match documentNamed (ascii "body") nodes with
  | [] => (sanitiseTree js nodes).map (⟨ascii "body", ·⟩)
  | [.element (.form controls) localName _ children] =>
      (sanitiseForm js controls children).map (⟨localName, ·⟩)
  | [.element _ localName _ children] => (sanitiseTree js children).map (⟨localName, ·⟩)
  | _ => none

/-! ## Images and videos -/

inductive MediaKind where
  | image | gif | video
deriving DecidableEq

structure MediaItem where
  kind : MediaKind
  src : Text
  alt : Text

def imageSrc : Node → Option Text
  | .element _ localName attributes _ =>
      if localName = ascii "img" then
        (getAttribute attributes (ascii "src")).filter (· ≠ [])
      else none
  | _ => none

mutual

def Node.descendants (localName : Text) : Node → List Node
  | .element kind name attributes children =>
      (if name = localName then [.element kind name attributes children] else []) ++
        descendantsAll localName children
  | _ => []

def descendantsAll (localName : Text) : List Node → List Node
  | [] => []
  | node :: nodes => node.descendants localName ++ descendantsAll localName nodes

end

def Node.attribute (name : Text) : Node → Option Text
  | .element _ _ attributes _ => getAttribute attributes name
  | _ => none

def videoSrc : Node → Option Text
  | .element _ localName attributes children =>
      if localName = ascii "video" then
        ((getAttribute attributes (ascii "src")).or
          ((descendantsAll (ascii "source") children).head?.bind
            (Node.attribute (ascii "src")))).filter (· ≠ [])
      else none
  | _ => none

mutual

def Node.removeMedia (src : Node → Option Text) : Node → Node
  | .element kind localName attributes children =>
      .element kind localName attributes (removeMediaAll src children)
  | .text data => .text data
  | .comment data => .comment data

def removeMediaAll (src : Node → Option Text) : List Node → List Node
  | [] => []
  | node :: nodes =>
      if (src node).isSome then removeMediaAll src nodes
      else node.removeMedia src :: removeMediaAll src nodes

end

def isGif (src : Text) : Bool :=
  ascii "data:image/gif" <+: src || ascii ".gif" <:+ js.toLowerCase src

def imageItem (node : Node) : Option MediaItem :=
  (imageSrc node).map fun src =>
    { kind := if isGif js src then .gif else .image
      src
      alt := (node.attribute (ascii "alt")).getD [] }

def videoItem (node : Node) : Option MediaItem :=
  (videoSrc node).map fun src => { kind := .video, src, alt := [] }

def withoutMedia (body : List Node) : List Node :=
  removeMediaAll videoSrc (removeMediaAll imageSrc body)

/-- `extractMedia`, if it does not throw: another element in place of `querySelectorAll` cannot
be called. -/
def extractMedia (body : List Node) : Option (Cleaned × List MediaItem) :=
  let withoutImages := removeMediaAll imageSrc body
  if documentNamed (ascii "querySelectorAll") body ≠ [] ∨
      documentNamed (ascii "querySelectorAll") withoutImages ≠ [] then none
  else
    (sanitiseBody js (withoutMedia body)).map fun cleaned =>
      (cleaned, (descendantsAll (ascii "img") body).filterMap (imageItem js) ++
        (descendantsAll (ascii "video") withoutImages).filterMap videoItem)

/-! ## What should remain -/

structure AttrsClean (tag : Text) (attributes : List Attr) : Prop where
  allowed : ∀ a ∈ attributes,
    a.name ∈ globalAllowed ∨ a.name ∈ tagAllowed tag ∨
      (tag = ascii "a" ∧ a.name = ascii "data-external")
  no_handler : ∀ a ∈ attributes, ¬ ascii "on" <+: js.toLowerCase a.name
  safe_href : ∀ a ∈ attributes, a.name = ascii "href" → isSafeUrl a.value
  safe_style : ∀ a ∈ attributes, a.name = ascii "style" →
    ∀ decl ∈ a.value.splitOn (unit ';'), cssProperty js decl ∈ safeCssProps
  external : tag = ascii "a" →
    { name := ascii "target", value := ascii "_blank" } ∈ attributes ∧
    { name := ascii "rel", value := ascii "noopener noreferrer" } ∈ attributes ∧
    { name := ascii "data-external", value := ascii "true" } ∈ attributes

mutual

def Node.Clean : Node → Prop
  | .element _ localName attributes children =>
      tagOf js localName ∈ allowedTags ∧ AttrsClean js (tagOf js localName) attributes ∧
        CleanAll children
  | _ => True

def CleanAll : List Node → Prop
  | [] => True
  | node :: nodes => node.Clean ∧ CleanAll nodes

end

end Sanitise

/-- What a parser makes of the attributes of an HTML element: their names are distinct, and no
letter of ASCII in them is in upper case. -/
structure AttrsParsed (attributes : List Attr) : Prop where
  nodup : (attributes.map (·.name)).Nodup
  lower : ∀ a ∈ attributes, ∀ c ∈ a.name, asciiLower c = c

mutual

def Node.Parsed : Node → Prop
  | .element kind localName attributes children =>
      if kind.isForeign then localName = ascii "svg" ∨ localName = ascii "math"
      else AttrsParsed attributes ∧ ParsedAll children
  | _ => True

def ParsedAll : List Node → Prop
  | [] => True
  | node :: nodes => node.Parsed ∧ ParsedAll nodes

end

mutual

def Node.textBesides (src : Node → Option Text) : Node → Text
  | .text data => data
  | .comment _ => []
  | .element _ _ _ children => textBesidesAll src children

def textBesidesAll (src : Node → Option Text) : List Node → Text
  | [] => []
  | node :: nodes =>
      (if (src node).isSome then [] else node.textBesides src) ++ textBesidesAll src nodes

end

/-! ## What is read -/

section Read

variable (js : Lowercase)

mutual

/-- Nothing stands in place of the tag of an element that the walk reaches, nor of the
properties of one that it removes. -/
def Node.Unnamed (properties : List Text) : Node → Prop
  | .element kind localName _ children =>
      kind.named (ascii "tagName") = [] ∧
        if tagOf js localName ∈ allowedTags then UnnamedAll properties children
        else ∀ property ∈ properties, kind.named property = []
  | _ => True

def UnnamedAll (properties : List Text) : List Node → Prop
  | [] => True
  | node :: nodes => node.Unnamed properties ∧ UnnamedAll properties nodes

end

def QueryUnnamed (body : List Node) : Prop :=
  documentNamed (ascii "querySelectorAll") body = [] ∧
    documentNamed (ascii "querySelectorAll") (removeMediaAll imageSrc body) = []

/-- No element of the message stands in place of a property that is read. -/
structure ReadsOwn (body : List Node) : Prop where
  query : QueryUnnamed body
  root : documentNamed (ascii "body") (withoutMedia body) = []
  forms : UnnamedAll js (["replaceWith", "textContent"].map ascii) (withoutMedia body)

/-- What a body comes out as, if it is sanitised. Only the text of an `iframe` is not escaped in its
`innerHTML`. -/
structure IsSanitised (body : List Node) (cleaned : Cleaned) : Prop where
  escaped : cleaned.localName ≠ ascii "iframe"
  clean : CleanAll js cleaned.children
  text : textContentAll cleaned.children =
    textBesidesAll videoSrc (removeMediaAll imageSrc body)
  idem : sanitiseTree js cleaned.children = some cleaned.children

end Read

/-- A property of a form is its own unless a control or an image has it as a name or an id. -/
theorem Kind.named_eq_nil_iff {controls : List Control} {property : Text} :
    (Kind.form controls).named property = [] ↔
      ∀ c ∈ controls, c.id ≠ some property ∧ c.name ≠ some property := by
  have hcandidates : controls.filter
      (fun c => decide (c.id = some property ∨ c.name = some property)) = [] ↔
        ∀ c ∈ controls, c.id ≠ some property ∧ c.name ≠ some property := by
    rw [List.filter_eq_nil_iff]
    simp only [decide_eq_true_eq, not_or, ne_eq]
  rw [← hcandidates, Kind.named]
  generalize controls.filter
    (fun c => decide (c.id = some property ∨ c.name = some property)) = candidates
  split
  · rfl
  · next hall =>
      have hcontrol : candidates.filter (!·.isImage) ≠ [] := by
        intro hnone
        rw [List.filter_eq_nil_iff] at hnone
        refine hall (List.all_eq_true.mpr fun c hc => ?_)
        simpa using hnone c hc
      constructor
      · intro hnone
        exact absurd hnone hcontrol
      · rintro rfl
        exact absurd rfl hcontrol

/-! ## Lists of attributes -/

section Attributes

variable {attributes front rest : List Attr} {a : Attr} {name value : Text}

theorem removeAttribute_append (h : a.name ∉ front.map (·.name)) :
    removeAttribute (front ++ a :: rest) a.name = front ++ rest := by
  induction front with
  | nil => exact List.eraseP_cons_of_pos (decide_eq_true rfl)
  | cons b front ih =>
      rw [List.map_cons, List.mem_cons, not_or] at h
      unfold removeAttribute at ih ⊢
      rw [List.cons_append, List.eraseP_cons_of_neg (by simpa using Ne.symm h.1), ih h.2]
      rfl

theorem setAttribute_append (h : a.name ∉ front.map (·.name)) :
    setAttribute (front ++ a :: rest) a.name value = front ++ ⟨a.name, value⟩ :: rest := by
  induction front with
  | nil => exact if_pos rfl
  | cons b front ih =>
      rw [List.map_cons, List.mem_cons, not_or] at h
      rw [List.cons_append, setAttribute, if_neg (Ne.symm h.1), ih h.2]
      rfl

theorem setAttribute_of_notMem (h : name ∉ attributes.map (·.name)) :
    setAttribute attributes name value = attributes ++ [⟨name, value⟩] := by
  induction attributes with
  | nil => rfl
  | cons b attributes ih =>
      rw [List.map_cons, List.mem_cons, not_or] at h
      rw [setAttribute, if_neg (Ne.symm h.1), ih h.2]
      rfl

theorem mem_setAttribute_self : ⟨name, value⟩ ∈ setAttribute attributes name value := by
  induction attributes with
  | nil => exact List.mem_cons_self
  | cons b attributes ih =>
      unfold setAttribute
      split
      · exact List.mem_cons_self
      · exact List.mem_cons_of_mem _ ih

theorem mem_setAttribute_of_ne (h : a ∈ attributes) (hne : a.name ≠ name) :
    a ∈ setAttribute attributes name value := by
  induction attributes with
  | nil => cases h
  | cons b attributes ih =>
      unfold setAttribute
      rcases List.mem_cons.mp h with rfl | h
      · rw [if_neg hne]
        exact List.mem_cons_self
      · split
        · exact List.mem_cons_of_mem _ h
        · exact List.mem_cons_of_mem _ (ih h)

theorem mem_of_mem_setAttribute (h : a ∈ setAttribute attributes name value) :
    a = ⟨name, value⟩ ∨ a ∈ attributes := by
  induction attributes with
  | nil => exact .inl (List.mem_singleton.mp h)
  | cons b attributes ih =>
      unfold setAttribute at h
      split at h
      · rcases List.mem_cons.mp h with rfl | h
        · exact .inl rfl
        · exact .inr (List.mem_cons_of_mem _ h)
      · rcases List.mem_cons.mp h with rfl | h
        · exact .inr List.mem_cons_self
        · exact (ih h).imp_right (List.mem_cons_of_mem _)

theorem names_setAttribute (attributes : List Attr) (name value : Text) :
    (setAttribute attributes name value).map (·.name) =
      if name ∈ attributes.map (·.name) then attributes.map (·.name)
      else attributes.map (·.name) ++ [name] := by
  by_cases h : name ∈ attributes.map (·.name)
  · rw [if_pos h]
    induction attributes with
    | nil => cases h
    | cons b attributes ih =>
        unfold setAttribute
        by_cases hb : b.name = name
        · rw [if_pos hb, List.map_cons, List.map_cons, hb]
        · rw [List.map_cons, List.mem_cons] at h
          rw [if_neg hb, List.map_cons, List.map_cons, ih (h.resolve_left (Ne.symm hb))]
  · rw [if_neg h, setAttribute_of_notMem h, List.map_append]
    rfl

theorem setAttribute_of_mem (hnodup : (attributes.map (·.name)).Nodup)
    (h : ⟨name, value⟩ ∈ attributes) : setAttribute attributes name value = attributes := by
  induction attributes with
  | nil => cases h
  | cons b attributes ih =>
      rw [List.map_cons, List.nodup_cons] at hnodup
      unfold setAttribute
      rcases List.mem_cons.mp h with heq | h
      · rw [← heq, if_pos rfl]
      · have hne : b.name ≠ name := by
          intro heq
          rw [heq] at hnodup
          exact hnodup.1 (List.mem_map_of_mem h)
        rw [if_neg hne, ih hnodup.2 h]

theorem AttrsParsed.setAttribute (h : AttrsParsed attributes)
    (hlower : ∀ c ∈ name, asciiLower c = c) :
    AttrsParsed (Sanitiser.setAttribute attributes name value) := by
  constructor
  · rw [names_setAttribute]
    split
    · exact h.nodup
    · next hnew =>
        refine List.nodup_append.mpr ⟨h.nodup, List.nodup_singleton _, ?_⟩
        intro b hb c hc heq
        rw [heq, List.mem_singleton.mp hc] at hb
        exact hnew hb
  · intro b hb
    rcases mem_of_mem_setAttribute hb with rfl | hb
    · exact hlower
    · exact h.lower b hb

theorem AttrsParsed.of_all (hnodup : (attributes.map (·.name)).Nodup)
    (h : attributes.all (fun a => a.name.all fun c => asciiLower c = c) = true) :
    AttrsParsed attributes := by
  refine ⟨hnodup, ?_⟩
  intro a ha c hc
  exact of_decide_eq_true (List.all_eq_true.mp (List.all_eq_true.mp h a ha) c hc)

end Attributes

/-! ## Attributes that are kept -/

section Kept

variable (js : Lowercase) (tag : Text)

def keepAttr (a : Attr) : Option Attr :=
  if ascii "on" <+: js.toLowerCase a.name ∨
      (js.toLowerCase a.name ∉ globalAllowed ∧ js.toLowerCase a.name ∉ tagAllowed tag) then
    none
  else if js.toLowerCase a.name = ascii "href" ∧ ¬ isSafeUrl a.value then none
  else if js.toLowerCase a.name = ascii "style" then
    if sanitiseStyle js a.value ≠ [] then
      some { name := ascii "style", value := sanitiseStyle js a.value }
    else none
  else some a

variable {js} {tag}

theorem toLowerCase_eq {name : Text} (hlower : ∀ c ∈ name, asciiLower c = c)
    (h : ∀ c ∈ js.toLowerCase name, c < 128 ∧ c ≠ unit 'k') : js.toLowerCase name = name := by
  rw [js.toLowerCase_ascii name (js.ascii_of_toLowerCase name h)]
  exact (List.map_congr_left hlower).trans (List.map_id' name)

def isPlain (c : UInt16) : Bool := c < 128 && c ≠ unit 'k'

theorem plain_of_mem {names : List Text} (h : names.all (fun name => name.all isPlain) = true)
    {name : Text} (hname : name ∈ names) : ∀ c ∈ name, c < 128 ∧ c ≠ unit 'k' := by
  intro c hc
  have hplain := List.all_eq_true.mp (List.all_eq_true.mp h name hname) c hc
  unfold isPlain at hplain
  rw [Bool.and_eq_true, decide_eq_true_iff, decide_eq_true_iff] at hplain
  exact hplain

theorem plain_of_allowed {name : Text} (h : name ∈ globalAllowed ∨ name ∈ tagAllowed tag) :
    ∀ c ∈ name, c < 128 ∧ c ≠ unit 'k' := by
  rcases h with h | h
  · exact plain_of_mem (by decide) h
  · unfold tagAllowed at h
    split_ifs at h
    · exact plain_of_mem (by decide) h
    · exact plain_of_mem (by decide) h
    · exact plain_of_mem (by decide) h
    · exact plain_of_mem (by decide) h
    · cases h

theorem name_of_keepAttr {a b : Attr} (hlower : ∀ c ∈ a.name, asciiLower c = c)
    (h : keepAttr js tag a = some b) :
    b.name = a.name ∧ js.toLowerCase a.name = a.name ∧ ¬ ascii "on" <+: a.name ∧
      (a.name ∈ globalAllowed ∨ a.name ∈ tagAllowed tag) := by
  unfold keepAttr at h
  obtain ⟨hallowed, h⟩ := Option.ite_none_left_eq_some.mp h
  obtain ⟨-, h⟩ := Option.ite_none_left_eq_some.mp h
  rw [not_or, not_and_or, not_not, not_not] at hallowed
  have hname := toLowerCase_eq hlower (plain_of_allowed hallowed.2)
  rw [hname] at h hallowed
  refine ⟨?_, hname, hallowed⟩
  split at h
  · next hstyle =>
      obtain ⟨-, h⟩ := Option.ite_none_right_eq_some.mp h
      rw [← Option.some_inj.mp h]
      exact hstyle.symm
  · rw [Option.some_inj.mp h]

theorem handleAttr_append {front rest : List Attr} {a : Attr}
    (hlower : ∀ c ∈ a.name, asciiLower c = c) (h : a.name ∉ front.map (·.name)) :
    handleAttr js tag (front ++ a :: rest) a = front ++ (keepAttr js tag a).toList ++ rest := by
  have hremoved : removeAttribute (front ++ a :: rest) a.name =
      front ++ (none : Option Attr).toList ++ rest := by
    rw [removeAttribute_append h, Option.toList_none, List.append_nil]
  unfold handleAttr keepAttr
  dsimp only
  by_cases hallowed : ascii "on" <+: js.toLowerCase a.name ∨
      (js.toLowerCase a.name ∉ globalAllowed ∧ js.toLowerCase a.name ∉ tagAllowed tag)
  · rw [if_pos hallowed, if_pos hallowed, hremoved]
  · rw [if_neg hallowed, if_neg hallowed]
    by_cases hhref : js.toLowerCase a.name = ascii "href" ∧ ¬ isSafeUrl a.value
    · rw [if_pos hhref, if_pos hhref, hremoved]
    · rw [if_neg hhref, if_neg hhref]
      by_cases hstyle : js.toLowerCase a.name = ascii "style"
      · rw [not_or, not_and_or, not_not, not_not] at hallowed
        have hname := toLowerCase_eq hlower (plain_of_allowed hallowed.2)
        rw [hname] at hstyle
        rw [hname, if_pos hstyle, if_pos hstyle, ← hstyle]
        by_cases hsafe : sanitiseStyle js a.value ≠ []
        · rw [if_pos hsafe, if_pos hsafe, setAttribute_append h, Option.toList_some,
            List.append_assoc]
          rfl
        · rw [if_neg hsafe, if_neg hsafe, hremoved]
      · rw [if_neg hstyle, if_neg hstyle, Option.toList_some, List.append_assoc]
        rfl

theorem foldl_handleAttr (front rest : List Attr)
    (hlower : ∀ a ∈ rest, ∀ c ∈ a.name, asciiLower c = c)
    (hnodup : ((front ++ rest).map (·.name)).Nodup) :
    rest.foldl (handleAttr js tag) (front ++ rest) =
      front ++ rest.filterMap (keepAttr js tag) := by
  induction rest generalizing front with
  | nil => rfl
  | cons a rest ih =>
      rw [List.forall_mem_cons] at hlower
      have hsub : ((front ++ (keepAttr js tag a).toList ++ rest).map (·.name)).Sublist
          ((front ++ a :: rest).map (·.name)) := by
        simp only [List.map_append, List.map_cons, List.append_assoc]
        refine List.Sublist.append_left ?_ _
        cases hkeep : keepAttr js tag a with
        | none => exact List.sublist_cons_self _ _
        | some b =>
            rw [Option.toList_some, List.map_singleton, (name_of_keepAttr hlower.1 hkeep).1]
            exact List.Sublist.refl _
      have hfresh : a.name ∉ front.map (·.name) := by
        intro hmem
        rw [List.map_append, List.nodup_append] at hnodup
        exact hnodup.2.2 a.name hmem a.name (List.mem_map_of_mem List.mem_cons_self) rfl
      rw [List.foldl_cons, handleAttr_append hlower.1 hfresh, ih _ hlower.2 (hnodup.sublist hsub),
        List.filterMap_cons]
      cases keepAttr js tag a with
      | none => rw [Option.toList_none, List.append_nil]
      | some b =>
          rw [Option.toList_some, List.append_assoc]
          rfl

theorem foldl_handleAttr_self {attributes : List Attr} (h : AttrsParsed attributes) :
    attributes.foldl (handleAttr js tag) attributes = attributes.filterMap (keepAttr js tag) :=
  foldl_handleAttr [] attributes h.lower h.nodup

theorem intercalate_splitOn_filter {α : Type} [DecidableEq α] (x : α) (text : List α)
    (p : List α → Bool) (h : (text.splitOn x).filter p ≠ []) :
    ([x].intercalate ((text.splitOn x).filter p)).splitOn x = (text.splitOn x).filter p := by
  refine List.splitOn_intercalate x ?_ h
  intro part hpart
  exact notMem_of_mem_splitOn (List.mem_of_mem_filter hpart)

theorem splitOn_sanitiseStyle {value : Text} (h : sanitiseStyle js value ≠ []) :
    (sanitiseStyle js value).splitOn (unit ';') =
      (value.splitOn (unit ';')).filter fun decl => cssProperty js decl ∈ safeCssProps := by
  refine intercalate_splitOn_filter _ _ _ ?_
  intro hnil
  refine h ?_
  unfold sanitiseStyle
  rw [hnil]
  rfl

theorem sanitiseStyle_idem {value : Text} (h : sanitiseStyle js value ≠ []) :
    sanitiseStyle js (sanitiseStyle js value) = sanitiseStyle js value := by
  rw [sanitiseStyle, splitOn_sanitiseStyle h, List.filter_filter]
  simp only [Bool.and_self]
  rfl

theorem keepAttr_idem {a b : Attr} (hlower : ∀ c ∈ a.name, asciiLower c = c)
    (h : keepAttr js tag a = some b) : keepAttr js tag b = some b := by
  obtain ⟨hname, hself, hon, hallowed⟩ := name_of_keepAttr hlower h
  have hkept : ¬ (ascii "on" <+: a.name ∨ (a.name ∉ globalAllowed ∧ a.name ∉ tagAllowed tag)) := by
    rw [not_or, not_and_or, not_not, not_not]
    exact ⟨hon, hallowed⟩
  unfold keepAttr at h ⊢
  rw [hself, if_neg hkept] at h
  rw [hname, hself, if_neg hkept]
  obtain ⟨hhref, h⟩ := Option.ite_none_left_eq_some.mp h
  by_cases hstyle : a.name = ascii "style"
  · have hne : ¬ (a.name = ascii "href" ∧ ¬ isSafeUrl b.value) := by
      rw [hstyle]
      exact fun hand => absurd hand.1 (by decide)
    rw [if_pos hstyle] at h
    obtain ⟨hsafe, h⟩ := Option.ite_none_right_eq_some.mp h
    rw [if_neg hne, if_pos hstyle, ← Option.some_inj.mp h]
    dsimp only
    rw [sanitiseStyle_idem hsafe, if_pos hsafe]
  · rw [if_neg hstyle] at h ⊢
    rw [← Option.some_inj.mp h, if_neg hhref]

theorem clean_of_keepAttr {a : Attr} (hlower : ∀ c ∈ a.name, asciiLower c = c)
    (h : keepAttr js tag a = some a) :
    (a.name = ascii "href" → isSafeUrl a.value) ∧
      (a.name = ascii "style" →
        ∀ decl ∈ a.value.splitOn (unit ';'), cssProperty js decl ∈ safeCssProps) := by
  have hself := (name_of_keepAttr hlower h).2.1
  unfold keepAttr at h
  rw [hself] at h
  obtain ⟨-, h⟩ := Option.ite_none_left_eq_some.mp h
  obtain ⟨hhref, h⟩ := Option.ite_none_left_eq_some.mp h
  refine ⟨fun hname => not_not.mp fun hunsafe => hhref ⟨hname, hunsafe⟩, ?_⟩
  intro hstyle decl hdecl
  rw [if_pos hstyle] at h
  obtain ⟨hsafe, h⟩ := Option.ite_none_right_eq_some.mp h
  rw [← Option.some_inj.mp h] at hdecl
  dsimp only at hdecl
  rw [splitOn_sanitiseStyle hsafe] at hdecl
  exact of_decide_eq_true (List.mem_filter.mp hdecl).2

theorem AttrsParsed.kept {attributes : List Attr} (h : AttrsParsed attributes) :
    AttrsParsed (attributes.filterMap (keepAttr js tag)) := by
  constructor
  · refine List.Nodup.sublist ?_ h.nodup
    have hlower := h.lower
    clear h
    induction attributes with
    | nil => exact List.Sublist.refl _
    | cons a attributes ih =>
        rw [List.forall_mem_cons] at hlower
        rw [List.filterMap_cons]
        cases hkeep : keepAttr js tag a with
        | none => exact (ih hlower.2).cons _
        | some b =>
            rw [List.map_cons, List.map_cons, (name_of_keepAttr hlower.1 hkeep).1]
            exact (ih hlower.2).cons_cons _
  · intro b hb
    obtain ⟨a, ha, hkeep⟩ := List.mem_filterMap.mp hb
    rw [(name_of_keepAttr (h.lower a ha) hkeep).1]
    exact h.lower a ha

theorem keepAttr_of_mem_kept {attributes : List Attr} (h : AttrsParsed attributes) {b : Attr}
    (hb : b ∈ attributes.filterMap (keepAttr js tag)) : keepAttr js tag b = some b := by
  obtain ⟨a, ha, hkeep⟩ := List.mem_filterMap.mp hb
  exact keepAttr_idem (h.lower a ha) hkeep

theorem filterMap_keepAttr_self {attributes : List Attr}
    (h : ∀ a ∈ attributes, keepAttr js tag a = some a) :
    attributes.filterMap (keepAttr js tag) = attributes := by
  rw [List.filterMap_congr h]
  exact List.filterMap_some

/-! ### Links -/

theorem toLowerCase_name (js : Lowercase) {name : Text}
    (h : name.all (fun c => c < 128 && asciiLower c = c) = true) : js.toLowerCase name = name := by
  have hall : ∀ c ∈ name, c < 128 ∧ asciiLower c = c := by
    intro c hc
    have hchar := List.all_eq_true.mp h c hc
    rw [Bool.and_eq_true, decide_eq_true_iff, decide_eq_true_iff] at hchar
    exact hchar
  rw [js.toLowerCase_ascii name fun c hc => (hall c hc).1]
  exact (List.map_congr_left fun c hc => (hall c hc).2).trans (List.map_id' name)

theorem keepAttr_target (js : Lowercase) (value : Text) :
    keepAttr js (ascii "a") ⟨ascii "target", value⟩ = some ⟨ascii "target", value⟩ := by
  unfold keepAttr
  dsimp only
  rw [toLowerCase_name js (by decide),
    if_neg (by decide), if_neg (fun h => absurd h.1 (by decide)), if_neg (by decide)]

theorem keepAttr_rel (js : Lowercase) (value : Text) :
    keepAttr js (ascii "a") ⟨ascii "rel", value⟩ = some ⟨ascii "rel", value⟩ := by
  unfold keepAttr
  dsimp only
  rw [toLowerCase_name js (by decide),
    if_neg (by decide), if_neg (fun h => absurd h.1 (by decide)), if_neg (by decide)]

theorem keepAttr_external (js : Lowercase) (value : Text) :
    keepAttr js (ascii "a") ⟨ascii "data-external", value⟩ = none := by
  unfold keepAttr
  dsimp only
  rw [toLowerCase_name js (by decide),
    if_pos (by decide)]

theorem sanitiseAttrs_eq {attributes : List Attr} (h : AttrsParsed attributes) :
    sanitiseAttrs js attributes tag =
      if tag = ascii "a" then markExternal (attributes.filterMap (keepAttr js tag))
      else attributes.filterMap (keepAttr js tag) := by
  unfold sanitiseAttrs
  rw [foldl_handleAttr_self h]

def openElsewhere (attributes : List Attr) : List Attr :=
  setAttribute (setAttribute attributes (ascii "target") (ascii "_blank"))
    (ascii "rel") (ascii "noopener noreferrer")

theorem markExternal_eq {attributes : List Attr}
    (h : ascii "data-external" ∉ attributes.map (·.name)) :
    markExternal attributes =
      openElsewhere attributes ++ [⟨ascii "data-external", ascii "true"⟩] := by
  unfold markExternal openElsewhere
  refine setAttribute_of_notMem ?_
  intro hmem
  obtain ⟨a, ha, hname⟩ := List.mem_map.mp hmem
  rcases mem_of_mem_setAttribute ha with rfl | ha
  · exact absurd hname (by decide)
  · rcases mem_of_mem_setAttribute ha with rfl | ha
    · exact absurd hname (by decide)
    · exact h (hname ▸ List.mem_map_of_mem ha)

theorem AttrsParsed.openElsewhere {attributes : List Attr} (h : AttrsParsed attributes) :
    AttrsParsed (Sanitiser.openElsewhere attributes) := by
  unfold Sanitiser.openElsewhere
  exact (h.setAttribute (forall_of_all (by decide))).setAttribute (forall_of_all (by decide))

theorem keepAttr_of_mem_openElsewhere {attributes : List Attr}
    (h : ∀ a ∈ attributes, keepAttr js (ascii "a") a = some a) {a : Attr}
    (ha : a ∈ openElsewhere attributes) : keepAttr js (ascii "a") a = some a := by
  unfold openElsewhere at ha
  rcases mem_of_mem_setAttribute ha with rfl | ha
  · exact keepAttr_rel js _
  · rcases mem_of_mem_setAttribute ha with rfl | ha
    · exact keepAttr_target js _
    · exact h a ha

theorem target_mem_openElsewhere (attributes : List Attr) :
    ⟨ascii "target", ascii "_blank"⟩ ∈ openElsewhere attributes := by
  unfold openElsewhere
  exact mem_setAttribute_of_ne mem_setAttribute_self (by decide)

theorem rel_mem_openElsewhere (attributes : List Attr) :
    ⟨ascii "rel", ascii "noopener noreferrer"⟩ ∈ openElsewhere attributes := by
  unfold openElsewhere
  exact mem_setAttribute_self

theorem openElsewhere_self {attributes : List Attr} (h : AttrsParsed attributes) :
    openElsewhere (openElsewhere attributes) = openElsewhere attributes := by
  conv_lhs => rw [openElsewhere]
  rw [setAttribute_of_mem h.openElsewhere.nodup (target_mem_openElsewhere attributes),
    setAttribute_of_mem h.openElsewhere.nodup (rel_mem_openElsewhere attributes)]

theorem external_notMem {attributes : List Attr}
    (h : ∀ a ∈ attributes, keepAttr js (ascii "a") a = some a) :
    ascii "data-external" ∉ attributes.map (·.name) := by
  intro hmem
  obtain ⟨a, ha, hname⟩ := List.mem_map.mp hmem
  have hkeep := h a ha
  rw [show a = ⟨ascii "data-external", a.value⟩ from hname ▸ rfl, keepAttr_external] at hkeep
  cases hkeep

theorem sanitiseAttrs_link {attributes : List Attr} (h : AttrsParsed attributes) :
    sanitiseAttrs js attributes (ascii "a") =
      openElsewhere (attributes.filterMap (keepAttr js (ascii "a"))) ++
        [⟨ascii "data-external", ascii "true"⟩] := by
  rw [sanitiseAttrs_eq h, if_pos rfl]
  exact markExternal_eq (external_notMem fun a ha => keepAttr_of_mem_kept h ha)

theorem AttrsParsed.sanitiseAttrs {attributes : List Attr} (h : AttrsParsed attributes) :
    AttrsParsed (Sanitiser.sanitiseAttrs js attributes tag) := by
  rw [sanitiseAttrs_eq h]
  split
  · unfold markExternal
    exact h.kept.openElsewhere.setAttribute (forall_of_all (by decide))
  · exact h.kept

theorem mem_sanitiseAttrs {attributes : List Attr} (h : AttrsParsed attributes) {a : Attr}
    (ha : a ∈ sanitiseAttrs js attributes tag) :
    keepAttr js tag a = some a ∨
      (tag = ascii "a" ∧ a = ⟨ascii "data-external", ascii "true"⟩) := by
  by_cases htag : tag = ascii "a"
  · subst htag
    rw [sanitiseAttrs_link h, List.mem_append, List.mem_singleton] at ha
    rcases ha with ha | ha
    · exact .inl (keepAttr_of_mem_openElsewhere (fun b hb => keepAttr_of_mem_kept h hb) ha)
    · exact .inr ⟨rfl, ha⟩
  · rw [sanitiseAttrs_eq h, if_neg htag] at ha
    exact .inl (keepAttr_of_mem_kept h ha)

theorem sanitiseAttrs_clean {attributes : List Attr} (h : AttrsParsed attributes) :
    AttrsClean js tag (sanitiseAttrs js attributes tag) := by
  have hparsed : AttrsParsed (sanitiseAttrs js attributes tag) := h.sanitiseAttrs
  have hlower := hparsed.lower
  constructor
  · intro a ha
    rcases mem_sanitiseAttrs h ha with hkeep | ⟨htag, rfl⟩
    · exact (name_of_keepAttr (hlower a ha) hkeep).2.2.2.imp_right .inl
    · exact .inr (.inr ⟨htag, rfl⟩)
  · intro a ha
    rcases mem_sanitiseAttrs h ha with hkeep | ⟨-, rfl⟩
    · obtain ⟨-, hself, hon, -⟩ := name_of_keepAttr (hlower a ha) hkeep
      rw [hself]
      exact hon
    · rw [toLowerCase_name js (by decide)]
      decide
  · intro a ha hname
    rcases mem_sanitiseAttrs h ha with hkeep | ⟨-, rfl⟩
    · exact (clean_of_keepAttr (hlower a ha) hkeep).1 hname
    · exact absurd hname (by decide)
  · intro a ha hname
    rcases mem_sanitiseAttrs h ha with hkeep | ⟨-, rfl⟩
    · exact (clean_of_keepAttr (hlower a ha) hkeep).2 hname
    · exact absurd hname (by decide)
  · intro htag
    subst htag
    rw [sanitiseAttrs_link h]
    refine ⟨List.mem_append_left _ (target_mem_openElsewhere _),
      List.mem_append_left _ (rel_mem_openElsewhere _), ?_⟩
    exact List.mem_append_right _ List.mem_cons_self

theorem sanitiseAttrs_idem {attributes : List Attr} (h : AttrsParsed attributes) :
    sanitiseAttrs js (sanitiseAttrs js attributes tag) tag = sanitiseAttrs js attributes tag := by
  have hkept : ∀ a ∈ attributes.filterMap (keepAttr js tag), keepAttr js tag a = some a :=
    fun a ha => keepAttr_of_mem_kept h ha
  by_cases htag : tag = ascii "a"
  · subst htag
    have hopen : ∀ a ∈ openElsewhere (attributes.filterMap (keepAttr js (ascii "a"))),
        keepAttr js (ascii "a") a = some a := fun a ha => keepAttr_of_mem_openElsewhere hkept ha
    rw [sanitiseAttrs_link h.sanitiseAttrs, sanitiseAttrs_link h, List.filterMap_append,
      filterMap_keepAttr_self hopen, List.filterMap_cons_none (keepAttr_external js _),
      List.filterMap_nil, List.append_nil, openElsewhere_self h.kept]
  · rw [sanitiseAttrs_eq h.sanitiseAttrs, if_neg htag, sanitiseAttrs_eq h, if_neg htag,
      filterMap_keepAttr_self hkept]

end Kept

/-! ## Trees that are sanitised -/

section Trees

variable (js : Lowercase)

theorem tagOf_ascii {name : Text}
    (h : (name.map asciiUpper).all (fun c => c < 128) = true) :
    tagOf js name = (name.map asciiUpper).map asciiLower := by
  unfold tagOf
  refine js.toLowerCase_ascii _ ?_
  intro c hc
  exact of_decide_eq_true (List.all_eq_true.mp h c hc)

theorem AttrsParsed.of_allowed {kind : Kind} {localName : Text} {attributes : List Attr}
    {children : List Node} (h : (Node.element kind localName attributes children).Parsed)
    (hallowed : tagOf js localName ∈ allowedTags) :
    AttrsParsed attributes ∧ ParsedAll children := by
  unfold Node.Parsed at h
  split at h
  · rcases h with rfl | rfl
    · rw [tagOf_ascii js (by decide)] at hallowed
      exact absurd hallowed (by decide)
    · rw [tagOf_ascii js (by decide)] at hallowed
      exact absurd hallowed (by decide)
  · exact h

/-- What the walk does to an element it reaches. -/
theorem sanitiseNode_element {kind : Kind} {localName : Text} {attributes : List Attr}
    {children : List Node} {result : Node}
    (h : sanitiseNode js (.element kind localName attributes children) = some result) :
    kind.named (ascii "tagName") = [] ∧
      ((tagOf js localName ∉ allowedTags ∧ kind.named (ascii "replaceWith") = [] ∧
          result = .text (kind.textContent children)) ∨
        (tagOf js localName ∈ allowedTags ∧ ∃ children', sanitiseTree js children = some children' ∧
          result = .element kind localName (sanitiseAttrs js attributes (tagOf js localName))
            children')) := by
  unfold sanitiseNode at h
  obtain ⟨htag, h⟩ := Option.ite_none_left_eq_some.mp h
  refine ⟨not_not.mp htag, ?_⟩
  split at h
  · next hremoved =>
      obtain ⟨hreplace, h⟩ := Option.ite_none_left_eq_some.mp h
      exact .inl ⟨hremoved, not_not.mp hreplace, (Option.some.inj h).symm⟩
  · next hkept =>
      obtain ⟨children', hchildren, hresult⟩ := Option.map_eq_some_iff.mp h
      exact .inr ⟨not_not.mp hkept, children', hchildren, hresult.symm⟩

theorem sanitiseNode_of_allowed {kind : Kind} {localName : Text} {attributes : List Attr}
    {children children' : List Node} (htag : kind.named (ascii "tagName") = [])
    (hallowed : tagOf js localName ∈ allowedTags)
    (hchildren : sanitiseTree js children = some children') :
    sanitiseNode js (.element kind localName attributes children) =
      some (.element kind localName (sanitiseAttrs js attributes (tagOf js localName))
        children') := by
  rw [sanitiseNode, if_neg (not_not.mpr htag), if_neg (not_not.mpr hallowed), hchildren]
  rfl

theorem sanitiseTree_cons {node : Node} {nodes result : List Node}
    (h : sanitiseTree js (node :: nodes) = some result) :
    ∃ node' nodes', sanitiseNode js node = some node' ∧ sanitiseTree js nodes = some nodes' ∧
      result = node' :: nodes' := by
  unfold sanitiseTree at h
  obtain ⟨node', hnode, h⟩ := Option.bind_eq_some_iff.mp h
  obtain ⟨nodes', hnodes, hresult⟩ := Option.map_eq_some_iff.mp h
  exact ⟨node', nodes', hnode, hnodes, hresult.symm⟩

theorem sanitiseTree_cons_of {node node' : Node} {nodes nodes' : List Node}
    (hnode : sanitiseNode js node = some node') (hnodes : sanitiseTree js nodes = some nodes') :
    sanitiseTree js (node :: nodes) = some (node' :: nodes') := by
  rw [sanitiseTree, hnode, hnodes]
  rfl

mutual

theorem sanitiseNode_clean (node : Node) (h : node.Parsed) {result : Node}
    (hresult : sanitiseNode js node = some result) : result.Clean js := by
  cases node with
  | text data =>
      cases hresult
      exact trivial
  | comment data =>
      cases hresult
      exact trivial
  | element kind localName attributes children =>
      obtain ⟨-, ⟨-, -, rfl⟩ | ⟨hallowed, children', hchildren', rfl⟩⟩ :=
        sanitiseNode_element js hresult
      · exact trivial
      · obtain ⟨hattributes, hchildren⟩ := AttrsParsed.of_allowed js h hallowed
        exact ⟨hallowed, sanitiseAttrs_clean hattributes,
          sanitiseTree_clean children hchildren hchildren'⟩

theorem sanitiseTree_clean (nodes : List Node) (h : ParsedAll nodes) {result : List Node}
    (hresult : sanitiseTree js nodes = some result) : CleanAll js result := by
  cases nodes with
  | nil =>
      cases hresult
      exact trivial
  | cons node nodes =>
      obtain ⟨node', nodes', hnode, hnodes, rfl⟩ := sanitiseTree_cons js hresult
      exact ⟨sanitiseNode_clean node h.1 hnode, sanitiseTree_clean nodes h.2 hnodes⟩

end

mutual

theorem sanitiseNode_textContent (node : Node)
    (h : node.Unnamed js (["replaceWith", "textContent"].map ascii)) {result : Node}
    (hresult : sanitiseNode js node = some result) : result.textContent = node.textContent := by
  cases node with
  | text data =>
      cases hresult
      rfl
  | comment data =>
      cases hresult
      rfl
  | element kind localName attributes children =>
      unfold Node.Unnamed at h
      obtain ⟨-, h⟩ := h
      obtain ⟨-, ⟨hremoved, -, rfl⟩ | ⟨hallowed, children', hchildren', rfl⟩⟩ :=
        sanitiseNode_element js hresult
      · rw [if_neg hremoved] at h
        have hown := h (ascii "textContent") (List.mem_cons_of_mem _ List.mem_cons_self)
        unfold Node.textContent Kind.textContent
        rw [hown]
      · rw [if_pos hallowed] at h
        exact sanitiseTree_textContent children h hchildren'

theorem sanitiseTree_textContent (nodes : List Node)
    (h : UnnamedAll js (["replaceWith", "textContent"].map ascii) nodes) {result : List Node}
    (hresult : sanitiseTree js nodes = some result) :
    textContentAll result = textContentAll nodes := by
  cases nodes with
  | nil =>
      cases hresult
      rfl
  | cons node nodes =>
      obtain ⟨node', nodes', hnode, hnodes, rfl⟩ := sanitiseTree_cons js hresult
      unfold textContentAll
      rw [sanitiseNode_textContent node h.1 hnode, sanitiseTree_textContent nodes h.2 hnodes]

end

mutual

theorem sanitiseNode_idem (node : Node) (h : node.Parsed) {result : Node}
    (hresult : sanitiseNode js node = some result) : sanitiseNode js result = some result := by
  cases node with
  | text data =>
      cases hresult
      rfl
  | comment data =>
      cases hresult
      rfl
  | element kind localName attributes children =>
      obtain ⟨htag, ⟨-, -, rfl⟩ | ⟨hallowed, children', hchildren', rfl⟩⟩ :=
        sanitiseNode_element js hresult
      · rfl
      · obtain ⟨hattributes, hchildren⟩ := AttrsParsed.of_allowed js h hallowed
        rw [sanitiseNode_of_allowed js htag hallowed
          (sanitiseTree_idem children hchildren hchildren'), sanitiseAttrs_idem hattributes]

theorem sanitiseTree_idem (nodes : List Node) (h : ParsedAll nodes) {result : List Node}
    (hresult : sanitiseTree js nodes = some result) : sanitiseTree js result = some result := by
  cases nodes with
  | nil =>
      cases hresult
      rfl
  | cons node nodes =>
      obtain ⟨node', nodes', hnode, hnodes, rfl⟩ := sanitiseTree_cons js hresult
      exact sanitiseTree_cons_of js (sanitiseNode_idem node h.1 hnode)
        (sanitiseTree_idem nodes h.2 hnodes)

end

mutual

theorem sanitiseNode_isSome_iff (node : Node) :
    (sanitiseNode js node).isSome ↔ node.Unnamed js (["replaceWith"].map ascii) := by
  cases node with
  | text data => exact iff_of_true rfl trivial
  | comment data => exact iff_of_true rfl trivial
  | element kind localName attributes children =>
      unfold sanitiseNode Node.Unnamed
      by_cases htag : kind.named (ascii "tagName") = []
      · rw [if_neg (not_not.mpr htag)]
        by_cases hallowed : tagOf js localName ∈ allowedTags
        · rw [if_neg (not_not.mpr hallowed), if_pos hallowed, Option.isSome_map,
            sanitiseTree_isSome_iff children]
          exact (and_iff_right htag).symm
        · rw [if_pos hallowed, if_neg hallowed]
          by_cases hreplace : kind.named (ascii "replaceWith") = []
          · simp [htag, hreplace]
          · simp [hreplace]
      · simp [htag]

theorem sanitiseTree_isSome_iff (nodes : List Node) :
    (sanitiseTree js nodes).isSome ↔ UnnamedAll js (["replaceWith"].map ascii) nodes := by
  cases nodes with
  | nil => exact iff_of_true rfl trivial
  | cons node nodes =>
      unfold sanitiseTree UnnamedAll
      rw [← sanitiseNode_isSome_iff node, ← sanitiseTree_isSome_iff nodes]
      cases sanitiseNode js node <;> simp

end

mutual

theorem Node.Unnamed.mono {properties properties' : List Text} (hsub : properties' ⊆ properties)
    (node : Node) (h : node.Unnamed js properties) : node.Unnamed js properties' := by
  cases node with
  | text data => exact trivial
  | comment data => exact trivial
  | element kind localName attributes children =>
      unfold Node.Unnamed at h ⊢
      refine ⟨h.1, ?_⟩
      split
      · next hallowed =>
          rw [if_pos hallowed] at h
          exact UnnamedAll.mono hsub children h.2
      · next hremoved =>
          rw [if_neg hremoved] at h
          exact fun property hproperty => h.2 property (hsub hproperty)

theorem UnnamedAll.mono {properties properties' : List Text} (hsub : properties' ⊆ properties)
    (nodes : List Node) (h : UnnamedAll js properties nodes) : UnnamedAll js properties' nodes := by
  cases nodes with
  | nil => exact trivial
  | cons node nodes => exact ⟨Node.Unnamed.mono hsub node h.1, UnnamedAll.mono hsub nodes h.2⟩

end

variable {js} {src : Node → Option Text}

mutual

theorem removeMedia_textContent (node : Node) :
    (node.removeMedia src).textContent = node.textBesides src := by
  cases node with
  | text data => rfl
  | comment data => rfl
  | element kind localName attributes children => exact removeMediaAll_textContent children

theorem removeMediaAll_textContent (nodes : List Node) :
    textContentAll (removeMediaAll src nodes) = textBesidesAll src nodes := by
  cases nodes with
  | nil => rfl
  | cons node nodes =>
      unfold removeMediaAll textBesidesAll
      split
      · exact removeMediaAll_textContent nodes
      · rw [textContentAll, removeMedia_textContent node, removeMediaAll_textContent nodes]

end

mutual

theorem Node.Parsed.removeMedia (node : Node) (h : node.Parsed) :
    (node.removeMedia src).Parsed := by
  cases node with
  | text data => exact trivial
  | comment data => exact trivial
  | element kind localName attributes children =>
      unfold Node.removeMedia
      unfold Node.Parsed at h ⊢
      split
      · next hforeign => rwa [if_pos hforeign] at h
      · next hhtml =>
          rw [if_neg hhtml] at h
          exact ⟨h.1, ParsedAll.removeMediaAll children h.2⟩

theorem ParsedAll.removeMediaAll (nodes : List Node) (h : ParsedAll nodes) :
    ParsedAll (Sanitiser.removeMediaAll src nodes) := by
  cases nodes with
  | nil => exact trivial
  | cons node nodes =>
      unfold Sanitiser.removeMediaAll
      split
      · exact ParsedAll.removeMediaAll nodes h.2
      · exact ⟨Node.Parsed.removeMedia node h.1, ParsedAll.removeMediaAll nodes h.2⟩

end

end Trees

/-- Unless an element of the message stands in place of a property that is read, what is left of
a body that was parsed is on the lists of what is allowed, has the text of the body other than
that of the media which were taken out, and would not change once more. As long as the body is
read, nothing is thrown exactly if no such element is called or asked for a tag. -/
theorem extractMedia_clean (js : Lowercase) (body : List Node) (h : ParsedAll body) :
    (ReadsOwn js body → ∃ cleaned media, extractMedia js body = some (cleaned, media) ∧
        IsSanitised js body cleaned) ∧
      (documentNamed (ascii "body") (withoutMedia body) = [] →
        ((extractMedia js body).isSome ↔
          QueryUnnamed body ∧ UnnamedAll js (["replaceWith"].map ascii) (withoutMedia body))) := by
  have hparsed : ParsedAll (withoutMedia body) :=
    ParsedAll.removeMediaAll _ (ParsedAll.removeMediaAll body h)
  have hbody : documentNamed (ascii "body") (withoutMedia body) = [] →
      sanitiseBody js (withoutMedia body) =
        (sanitiseTree js (withoutMedia body)).map (⟨ascii "body", ·⟩) := by
    intro hunnamed
    unfold sanitiseBody
    rw [hunnamed]
  refine ⟨?_, fun hunnamed => ?_⟩
  · rintro ⟨⟨hquery, hquery'⟩, hunnamed, hforms⟩
    have hcalls := UnnamedAll.mono js (List.cons_subset_cons _ (List.nil_subset _)) _ hforms
    obtain ⟨nodes, hnodes⟩ := Option.isSome_iff_exists.mp
      ((sanitiseTree_isSome_iff js (withoutMedia body)).mpr hcalls)
    have hresult : ∃ media, extractMedia js body = some (⟨ascii "body", nodes⟩, media) := by
      unfold extractMedia
      dsimp only
      rw [if_neg (by simp [hquery, hquery']), hbody hunnamed, hnodes]
      exact ⟨_, rfl⟩
    obtain ⟨media, hresult⟩ := hresult
    have hescaped : ascii "body" ≠ ascii "iframe" := by decide
    refine ⟨_, media, hresult, hescaped, sanitiseTree_clean js _ hparsed hnodes, ?_,
      sanitiseTree_idem js _ hparsed hnodes⟩
    rw [← removeMediaAll_textContent]
    exact sanitiseTree_textContent js _ hforms hnodes
  · unfold extractMedia QueryUnnamed
    dsimp only
    rw [hbody hunnamed, ← sanitiseTree_isSome_iff]
    split
    · next hquery =>
        rw [← not_and_or] at hquery
        simp [hquery]
    · next hquery =>
        rw [← not_and_or, not_not] at hquery
        simp [hquery]

def lowercaseAscii : Lowercase where
  toLowerCase := List.map asciiLower
  toLowerCase_ascii := fun _ _ => rfl
  ascii_of_toLowerCase := by
    intro text h c hc
    have hlower := (h _ (List.mem_map_of_mem hc)).1
    unfold asciiLower at hlower
    split at hlower
    · next hupper => exact UInt16.lt_of_le_of_lt hupper.2 (by decide)
    · exact hlower

def scriptedBody : List Node :=
  [.element .html (ascii "div") []
    [.element .foreign (ascii "svg") [⟨ascii "viewBox", ascii "0 0 1 1"⟩] [.text (ascii "shape")]],
    .element .html (ascii "a")
      [⟨ascii "href", ascii "javascript:alert(1)"⟩, ⟨ascii "onclick", ascii "alert(1)"⟩]
      [.element .html (ascii "span") [⟨ascii "style", ascii "color:red;position:fixed"⟩]
        [.text (ascii "click"),
          .element .html (ascii "img") [⟨ascii "src", ascii "https://fancy.test/a.gif"⟩] []]],
    .element (.form [{ interface := ascii "HTMLInputElement", name := some (ascii "q") }])
      (ascii "form") [⟨ascii "name", ascii "search"⟩] [.text (ascii "find")]]

theorem extractMedia_clean_scriptedBody :
    ∃ cleaned media, extractMedia lowercaseAscii scriptedBody = some (cleaned, media) ∧
      IsSanitised lowercaseAscii scriptedBody cleaned := by
  refine (extractMedia_clean lowercaseAscii scriptedBody ?_).1 ⟨⟨rfl, rfl⟩, rfl, ?_⟩
  · refine ⟨⟨AttrsParsed.of_all (by decide) (by decide), .inl rfl, trivial⟩, ?_,
      ⟨AttrsParsed.of_all (by decide) (by decide), trivial, trivial⟩, trivial⟩
    refine ⟨AttrsParsed.of_all (by decide) (by decide), ?_, trivial⟩
    refine ⟨AttrsParsed.of_all (by decide) (by decide), trivial, ?_, trivial⟩
    exact ⟨AttrsParsed.of_all (by decide) (by decide), trivial⟩
  · refine ⟨⟨rfl, ?_⟩, ⟨rfl, ?_⟩, ⟨by decide, ?_⟩, trivial⟩
    · rw [if_neg (by decide)]
      exact fun _ _ => rfl
    · rw [if_pos (by decide)]
      refine ⟨⟨rfl, ?_⟩, trivial⟩
      rw [if_pos (by decide)]
      exact ⟨trivial, trivial⟩
    · rw [if_neg (by decide)]
      decide

/-- A form that is named as the body, with a control that is named as its children. -/
def formBody : List Node :=
  [.element
    (.form [{ interface := ascii "HTMLInputElement", name := some (ascii "children"),
              path := some [0] }])
    (ascii "form") [⟨ascii "name", ascii "body"⟩]
    [.element .html (ascii "input") [⟨ascii "name", ascii "children"⟩] [],
      .element .html (ascii "a") [⟨ascii "onclick", ascii "alert(1)"⟩] [.text (ascii "click")]]]

/-- What is in the form is returned as it is. -/
theorem form_not_sanitised :
    ¬∀ (js : Lowercase) (body : List Node), ParsedAll body →
      ∃ cleaned media, extractMedia js body = some (cleaned, media) ∧
        IsSanitised js body cleaned := by
  intro h
  obtain ⟨cleaned, media, hresult, hsanitised⟩ := h lowercaseAscii formBody (by
    refine ⟨⟨AttrsParsed.of_all (by decide) (by decide), ?_, ?_, trivial⟩, trivial⟩
    · exact ⟨AttrsParsed.of_all (by decide) (by decide), trivial⟩
    · exact ⟨AttrsParsed.of_all (by decide) (by decide), trivial, trivial⟩)
  have hchildren : (extractMedia lowercaseAscii formBody).map (·.1.children) =
      some [.element .html (ascii "input") [⟨ascii "name", ascii "children"⟩] [],
        .element .html (ascii "a") [⟨ascii "onclick", ascii "alert(1)"⟩]
          [.text (ascii "click")]] := rfl
  rw [hresult] at hchildren
  have hvalue := Option.some.inj hchildren
  dsimp only at hvalue
  have hclean := hsanitised.clean
  rw [hvalue] at hclean
  exact absurd hclean.1.1 (by decide)

end FancyMumble.Interface.Sanitiser
