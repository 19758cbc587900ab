import FancyMumble.Interface.AclMeaning
import FancyMumble.Lib.Runs

/-!
# Editors of access control lists

The page of the administration that is open holds a copy of one list. It is received, edited
and sent back as a whole, and the server puts it in the place of its own.
-/

namespace FancyMumble.Interface.Acl

open Lib.Grouping Lib.Runs

/-! ## Pages -/

structure ChannelAclTab where
  selectedChannel : Option UInt32 := none
  aclData : Option AclData := none
  loading : Bool := false
  dirty : Bool := false

namespace ChannelAclTab

def onAcl (self : ChannelAclTab) (payload : AclData) : ChannelAclTab :=
  { self with aclData := some payload, loading := false, dirty := false }

def handleChannelSelect (self : ChannelAclTab) (channelId : UInt32) : ChannelAclTab :=
  { self with selectedChannel := some channelId, loading := true, aclData := none }

def edit (self : ChannelAclTab) (edit : Edit) : ChannelAclTab :=
  match self.aclData with
  | some aclData =>
      if aclData.finds edit then { self with aclData := some (aclData.edited edit), dirty := true }
      else self
  | none => self

theorem aclData_edit (self : ChannelAclTab) (edit : Edit) :
    (self.edit edit).aclData = self.aclData.map (·.edited edit) := by
  unfold ChannelAclTab.edit
  cases hacl : self.aclData with
  | none => exact hacl
  | some acl =>
      dsimp only
      split
      next => rfl
      next hfinds =>
        rw [hacl, Option.map_some,
          AclData.edited_of_not_finds (Bool.eq_false_of_not_eq_true hfinds)]

theorem selectedChannel_edit (self : ChannelAclTab) (edit : Edit) :
    (self.edit edit).selectedChannel = self.selectedChannel := by
  unfold ChannelAclTab.edit
  split
  next => split <;> rfl
  next => rfl

end ChannelAclTab

structure ChannelAcl where
  channelId : Option UInt32
  acl : Option AclData := none
  loading : Bool := false
  dirty : Bool := false
  saving : Bool := false
  requestedFor : Option UInt32 := none

namespace ChannelAcl

def onAcl (self : ChannelAcl) (payload : AclData) : ChannelAcl :=
  if self.channelId = some payload.channelId then
    { self with acl := some payload, dirty := false, loading := false }
  else self

/-- The effect that requests the list, and what it requests. Once the list is there it does
nothing until the channel changes. -/
def requestEffect (self : ChannelAcl) : ChannelAcl × List Message :=
  match self.channelId with
  | none => ({ self with acl := none, requestedFor := none }, [])
  | some channelId =>
      if self.requestedFor = some channelId ∧ self.acl.isSome then (self, [])
      else
        ({ self with requestedFor := some channelId, loading := true }, [requestAcl channelId])

theorem requestEffect_acl (self : ChannelAcl) {channelId : UInt32}
    (h : self.channelId = some channelId) :
    self.requestEffect.1.acl = self.acl ∧ self.requestEffect.1.channelId = self.channelId := by
  unfold requestEffect
  split
  next hnone =>
    rw [h] at hnone
    exact nomatch hnone
  next => split <;> exact ⟨rfl, rfl⟩

theorem requestEffect_requests (self : ChannelAcl) :
    ∀ message ∈ self.requestEffect.2, message.query = some true := by
  unfold requestEffect
  split
  next => exact fun message hmem => absurd hmem List.not_mem_nil
  next =>
    split
    next => exact fun message hmem => absurd hmem List.not_mem_nil
    next =>
      intro message hmem
      cases List.mem_singleton.mp hmem
      rfl

def update (self : ChannelAcl) (next : AclData) : ChannelAcl :=
  { self with acl := some next, dirty := true }

def save (self : ChannelAcl) (rendered : Option AclData) : ChannelAcl :=
  match rendered with
  | some _ => { self with saving := true }
  | none => self

def edit (self : ChannelAcl) (edit : Edit) : ChannelAcl :=
  match self.acl with
  | some acl => if acl.finds edit then self.update (acl.edited edit) else self
  | none => self

def editAndSave (self : ChannelAcl) (edit : Edit) : ChannelAcl :=
  match self.acl with
  | some acl => if acl.finds edit then (self.update (acl.edited edit)).save self.acl else self
  | none => self

def savedWithEdit (self : ChannelAcl) (edit : Edit) : Option AclData :=
  self.acl.filter (·.finds edit)

theorem acl_edit (self : ChannelAcl) (edit : Edit) :
    (self.edit edit).acl = self.acl.map (·.edited edit) := by
  unfold ChannelAcl.edit
  cases hacl : self.acl with
  | none => exact hacl
  | some acl =>
      dsimp only
      split
      next => rfl
      next hfinds =>
        rw [hacl, Option.map_some,
          AclData.edited_of_not_finds (Bool.eq_false_of_not_eq_true hfinds)]

theorem channelId_edit (self : ChannelAcl) (edit : Edit) :
    (self.edit edit).channelId = self.channelId := by
  unfold ChannelAcl.edit
  split
  next => split <;> rfl
  next => rfl

theorem save_acl (self : ChannelAcl) (rendered : Option AclData) :
    (self.save rendered).acl = self.acl := by
  cases rendered <;> rfl

theorem save_channelId (self : ChannelAcl) (rendered : Option AclData) :
    (self.save rendered).channelId = self.channelId := by
  cases rendered <;> rfl

theorem editAndSave_eq (self : ChannelAcl) (edit : Edit) :
    self.editAndSave edit =
      if self.acl.any (·.finds edit) then (self.edit edit).save self.acl else self.edit edit := by
  unfold editAndSave ChannelAcl.edit
  cases self.acl with
  | none => rfl
  | some acl => cases hfinds : acl.finds edit <;> simp [hfinds]

theorem acl_editAndSave (self : ChannelAcl) (edit : Edit) :
    (self.editAndSave edit).acl = self.acl.map (·.edited edit) := by
  rw [editAndSave_eq]
  split
  next => rw [save_acl, acl_edit]
  next => exact self.acl_edit edit

theorem channelId_editAndSave (self : ChannelAcl) (edit : Edit) :
    (self.editAndSave edit).channelId = self.channelId := by
  rw [editAndSave_eq]
  split
  next => rw [save_channelId, channelId_edit]
  next => exact self.channelId_edit edit

end ChannelAcl

inductive Page where
  | closed
  | aclTab (tab : ChannelAclTab)
  | roles (hook : ChannelAcl)

def Page.channel : Page → Option UInt32
  | closed => none
  | aclTab tab => tab.selectedChannel
  | roles hook => hook.channelId

def Page.acl : Page → Option AclData
  | closed => none
  | aclTab tab => tab.aclData
  | roles hook => hook.acl

/-! ## The administration -/

/-- The page, the messages that the last event has sent, and what really happened: the last
list that was received for each channel, and the edits of the user since then. -/
structure Admin where
  page : Page := .closed
  sent : List Message := []
  received : UInt32 → Option Message := fun _ => none
  edits : UInt32 → List Edit := fun _ => []

inductive Event where
  | close
  | openAclTab
  /-- A role page is opened, for the root channel. -/
  | openRoles (rootId : UInt32)
  | received (message : Message)
  | requestFailed
  /-- The user selects a channel in `ChannelAclTab`. -/
  | select (channelId : UInt32)
  /-- The root channel of a role page changes. -/
  | rootChanged (rootId : UInt32)
  | edit (edit : Edit)
  | create
  | delete (roleName : String)
  | refresh
  | save
  | saved
  | saveFailed

namespace Admin

variable (order : HashOrder)

def goto (self : Admin) (page : Page) (sent : List Message) : Admin :=
  { self with page := page, sent := sent }

def noteEdit (self : Admin) (edit : Edit) : Admin :=
  match self.page.channel, self.page.acl with
  | some channelId, some _ =>
      { self with
        edits := Function.update self.edits channelId (self.edits channelId ++ [edit]) }
  | _, _ => self

def runEffect (self : Admin) (hook : ChannelAcl) : Admin :=
  self.goto (.roles hook.requestEffect.1) hook.requestEffect.2

def receive (self : Admin) (message : Message) : Admin :=
  let page := match self.page with
    | .closed => .closed
    | .aclTab tab => .aclTab (tab.onAcl message.handle)
    | .roles hook => .roles (hook.onAcl message.handle)
  { page := page
    sent := []
    received := Function.update self.received message.channelId (some message)
    edits := Function.update self.edits message.channelId [] }

def change (self : Admin) (edit : Edit) : Admin :=
  match self.page with
  | .closed => self.goto .closed []
  | .aclTab tab => (self.noteEdit edit).goto (.aclTab (tab.edit edit)) []
  | .roles hook => (self.noteEdit edit).goto (.roles (hook.edit edit)) []

def changeRoles (self : Admin) (edit : Edit) : Admin :=
  match self.page with
  | .roles hook =>
      (self.noteEdit edit).goto (.roles (hook.editAndSave edit))
        ((hook.savedWithEdit edit).bind (updateAcl order)).toList
  | page => self.goto page []

def saveAcl (self : Admin) : Admin :=
  match self.page with
  | .closed => self.goto .closed []
  | .aclTab tab => self.goto (.aclTab tab) (tab.aclData.bind (updateAcl order)).toList
  | .roles hook =>
      self.goto (.roles (hook.save hook.acl)) (hook.acl.bind (updateAcl order)).toList

def step (self : Admin) : Event → Admin
  | .close => self.goto .closed []
  | .openAclTab => self.goto (.aclTab {}) []
  | .openRoles rootId => self.runEffect { channelId := some rootId }
  | .received message => self.receive message
  | .requestFailed =>
      match self.page with
      | .closed => self.goto .closed []
      | .aclTab tab => self.goto (.aclTab { tab with loading := false }) []
      | .roles hook => self.goto (.roles { hook with loading := false }) []
  | .select channelId =>
      match self.page with
      | .aclTab tab =>
          self.goto (.aclTab (tab.handleChannelSelect channelId)) [requestAcl channelId]
      | page => self.goto page []
  | .rootChanged rootId =>
      match self.page with
      | .roles hook => self.runEffect { hook with channelId := some rootId }
      | page => self.goto page []
  | .edit edit => self.change edit
  | .create => self.changeRoles order .createRole
  | .delete roleName => self.changeRoles order (.deleteRole roleName)
  | .refresh =>
      match self.page with
      | .roles hook =>
          match hook.channelId with
          | some channelId =>
              self.goto (.roles { hook with loading := true }) [requestAcl channelId]
          | none => self.goto (.roles hook) []
      | page => self.goto page []
  | .save => self.saveAcl order
  | .saved =>
      match self.page with
      | .closed => self.goto .closed []
      | .aclTab tab => self.goto (.aclTab { tab with dirty := false }) []
      | .roles hook => self.goto (.roles { hook with dirty := false, saving := false }) []
  | .saveFailed =>
      match self.page with
      | .roles hook => self.goto (.roles { hook with saving := false }) []
      | page => self.goto page []

/-! ## What is saved -/

/-- What the last list that was received for the channel says with the edits since then. -/
def expected (self : Admin) (channelId : UInt32) : Option Permissions :=
  (self.received channelId).map fun message =>
    (self.edits channelId).foldl Edit.apply message.permissions

/-- Every list that the last event has sent is the one that was received for the channel of
the page, with the edits since then. -/
def SendsEdited (self : Admin) : Prop :=
  ∀ message ∈ self.sent, message.query = some false →
    self.page.channel = some message.channelId ∧
      self.expected message.channelId = some message.permissions

/-- What is saved is the list of the channel that the page is about. No role is created or
deleted, since that saves the list without it, and the root channel of a role page stays the
same while the page holds a list. -/
def Careful (self : Admin) : Event → Prop
  | .save => ∀ acl ∈ self.page.acl, self.page.channel = some acl.channelId
  | .create => ∀ hook, self.page = .roles hook → hook.acl = none
  | .delete roleName => ∀ hook, self.page = .roles hook →
      ∀ acl ∈ hook.acl, acl.finds (.deleteRole roleName) = false
  | .rootChanged rootId => ∀ hook, self.page = .roles hook →
      hook.acl = none ∨ hook.channelId = some rootId
  | _ => True

/-- A copy of a list of the channel that the page is about is up to date. -/
def Current (self : Admin) : Prop :=
  ∀ acl ∈ self.page.acl, self.page.channel = some acl.channelId →
    self.expected acl.channelId = some acl.permissions

section Steps

variable {self : Admin} {page : Page} {sent : List Message}

theorem current_goto_of_acl_none (h : page.acl = none) : Current (self.goto page sent) := by
  intro acl hacl
  rw [Option.mem_def, show (self.goto page sent).page.acl = none from h] at hacl
  exact nomatch hacl

theorem Current.goto (h : Current self) {old : Page} (hold : self.page = old)
    (hacl : page.acl = old.acl) (hchannel : page.channel = old.channel) :
    Current (self.goto page sent) := by
  subst hold
  intro acl hmem hsame
  exact h acl (hacl ▸ hmem) (hchannel ▸ hsame)

theorem Current.edit (h : Current self) {edit : Edit}
    (hacl : page.acl = self.page.acl.map (·.edited edit))
    (hchannel : page.channel = self.page.channel) :
    Current ((self.noteEdit edit).goto page sent) := by
  intro acl hmem hsame
  have hpage : page.acl = some acl := hmem
  rw [hacl] at hpage
  obtain ⟨before, hbefore, rfl⟩ := Option.map_eq_some_iff.mp hpage
  have hself : self.page.channel = some before.channelId := by
    rw [← hchannel, ← before.channelId_edited edit]
    exact hsame
  have hnote : ((self.noteEdit edit).goto page sent).expected before.channelId =
      (self.expected before.channelId).map (Edit.apply · edit) := by
    unfold noteEdit
    rw [hself, hbefore]
    show Option.map _ _ = Option.map _ (Option.map _ _)
    rw [Option.map_map]
    congr 1
    funext message
    show (Function.update self.edits _ _ _).foldl Edit.apply message.permissions = _
    rw [Function.update_self, List.foldl_append]
    rfl
  rw [before.channelId_edited edit, hnote, h before hbefore hself, Option.map_some,
    before.permissions_edited edit]

theorem Current.receive (h : Current self) (message : Message) :
    Current (self.receive message) := by
  have hnew : (self.receive message).expected message.channelId = some message.permissions := by
    show Option.map _ (Function.update self.received _ _ _) = _
    rw [Function.update_self, Option.map_some]
    show some ((Function.update self.edits _ _ _).foldl _ _) = _
    rw [Function.update_self, List.foldl_nil]
  have hpayload : (self.receive message).expected message.handle.channelId =
      some message.handle.permissions := by
    rw [permissions_handle]
    exact hnew
  intro acl hacl hsame
  unfold Admin.receive at hacl hsame
  cases hpage : self.page with
  | closed =>
      rw [hpage] at hacl
      exact nomatch hacl
  | aclTab tab =>
      rw [hpage] at hacl
      cases hacl
      exact hpayload
  | roles hook =>
      rw [hpage] at hacl hsame
      have htaken : (hook.onAcl message.handle).acl = some acl := hacl
      have hchannel : (hook.onAcl message.handle).channelId = some acl.channelId := hsame
      unfold ChannelAcl.onAcl at htaken hchannel
      split at htaken
      next =>
        cases htaken
        exact hpayload
      next hother =>
        rw [if_neg hother] at hchannel
        have hne : acl.channelId ≠ message.channelId := by
          intro heq
          exact hother (hchannel.trans (congrArg some heq))
        have hold := h acl (by rw [hpage]; exact htaken) (by rw [hpage]; exact hchannel)
        rw [← hold]
        show Option.map _ (Function.update self.received _ _ _) = _
        rw [Function.update_of_ne hne]
        show Option.map (fun message => (Function.update self.edits _ _ _).foldl _ _) _ = _
        rw [Function.update_of_ne hne]
        rfl

theorem Current.change (h : Current self) (edit : Edit) : Current (self.change edit) := by
  unfold Admin.change
  cases hpage : self.page with
  | closed => exact current_goto_of_acl_none rfl
  | aclTab tab =>
      apply h.edit
      · rw [hpage]
        exact tab.aclData_edit edit
      · rw [hpage]
        exact tab.selectedChannel_edit edit
  | roles hook =>
      apply h.edit
      · rw [hpage]
        exact hook.acl_edit edit
      · rw [hpage]
        exact hook.channelId_edit edit

theorem Current.changeRoles (h : Current self) (edit : Edit) :
    Current (self.changeRoles order edit) := by
  unfold Admin.changeRoles
  cases hpage : self.page with
  | roles hook =>
      apply h.edit
      · rw [hpage]
        exact hook.acl_editAndSave edit
      · rw [hpage]
        exact hook.channelId_editAndSave edit
  | _ => exact h.goto hpage rfl rfl

theorem Current.step (h : Current self) {event : Event} (hcareful : self.Careful event) :
    Current (self.step order event) := by
  cases event with
  | close => exact current_goto_of_acl_none rfl
  | openAclTab => exact current_goto_of_acl_none rfl
  | openRoles rootId =>
      exact current_goto_of_acl_none
        (ChannelAcl.requestEffect_acl { channelId := some rootId } rfl).1
  | received message => exact h.receive message
  | requestFailed =>
      unfold Admin.step
      cases hpage : self.page <;> exact h.goto hpage rfl rfl
  | select channelId =>
      unfold Admin.step
      cases hpage : self.page with
      | aclTab tab => exact current_goto_of_acl_none rfl
      | _ => exact h.goto hpage rfl rfl
  | rootChanged rootId =>
      unfold Admin.step
      cases hpage : self.page with
      | roles hook =>
          have heffect :=
            ChannelAcl.requestEffect_acl { hook with channelId := some rootId } rfl
          rcases hcareful hook hpage with hnone | hsame
          · exact current_goto_of_acl_none (heffect.1.trans hnone)
          · exact h.goto hpage heffect.1 (heffect.2.trans hsame.symm)
      | _ => exact h.goto hpage rfl rfl
  | edit edit => exact h.change edit
  | create => exact h.changeRoles order .createRole
  | delete roleName => exact h.changeRoles order (.deleteRole roleName)
  | refresh =>
      unfold Admin.step
      cases hpage : self.page with
      | roles hook =>
          dsimp only
          split <;> exact h.goto hpage rfl rfl
      | _ => exact h.goto hpage rfl rfl
  | save =>
      unfold Admin.step saveAcl
      cases hpage : self.page with
      | roles hook =>
          exact h.goto hpage (hook.save_acl hook.acl) (hook.save_channelId hook.acl)
      | _ => exact h.goto hpage rfl rfl
  | saved =>
      unfold Admin.step
      cases hpage : self.page <;> exact h.goto hpage rfl rfl
  | saveFailed =>
      unfold Admin.step
      cases hpage : self.page <;> exact h.goto hpage rfl rfl

theorem sendsEdited_of_requests (h : ∀ message ∈ self.sent, message.query = some true) :
    SendsEdited self := by
  intro message hmem hquery
  rw [h message hmem] at hquery
  exact nomatch hquery

theorem sendsEdited_goto_nil : SendsEdited (self.goto page []) :=
  sendsEdited_of_requests fun _ hmem => absurd hmem List.not_mem_nil

theorem Current.sendsEdited (h : Current self)
    (hchannel : page.channel = self.page.channel)
    (hcareful : ∀ acl ∈ self.page.acl, self.page.channel = some acl.channelId) :
    SendsEdited (self.goto page (self.page.acl.bind (updateAcl order)).toList) := by
  intro message hmem hquery
  obtain ⟨acl, hself, hsent⟩ := Option.bind_eq_some_iff.mp (Option.mem_toList.mp hmem)
  have hpermissions := permissions_of_updateAcl hsent
  have hchannelId : message.channelId = acl.channelId := congrArg Permissions.channel hpermissions
  have hsame := hcareful acl hself
  rw [hchannelId, hpermissions]
  exact ⟨hchannel.trans hsame, h acl hself hsame⟩

theorem changeRoles_sent_nil {edit : Edit}
    (h : ∀ hook, self.page = .roles hook → hook.savedWithEdit edit = none) :
    (self.changeRoles order edit).sent = [] := by
  unfold Admin.changeRoles
  cases hpage : self.page with
  | roles hook =>
      show ((hook.savedWithEdit edit).bind (updateAcl order)).toList = []
      rw [h hook hpage]
      rfl
  | _ => rfl

theorem Current.sendsEdited_step (h : Current self) {event : Event}
    (hcareful : self.Careful event) : SendsEdited (self.step order event) := by
  have hnil {edit : Edit}
      (hnone : ∀ hook, self.page = .roles hook → hook.savedWithEdit edit = none) :
      SendsEdited (self.changeRoles order edit) := by
    apply sendsEdited_of_requests
    rw [changeRoles_sent_nil order hnone]
    exact fun message hmem => absurd hmem List.not_mem_nil
  cases event with
  | close => exact sendsEdited_goto_nil
  | openAclTab => exact sendsEdited_goto_nil
  | openRoles rootId => exact sendsEdited_of_requests (ChannelAcl.requestEffect_requests _)
  | received message =>
      exact sendsEdited_of_requests fun message hmem => absurd hmem List.not_mem_nil
  | requestFailed =>
      unfold Admin.step
      cases self.page <;> exact sendsEdited_goto_nil
  | select channelId =>
      unfold Admin.step
      cases self.page with
      | aclTab tab =>
          apply sendsEdited_of_requests
          intro message hmem
          cases List.mem_singleton.mp hmem
          rfl
      | _ => exact sendsEdited_goto_nil
  | rootChanged rootId =>
      unfold Admin.step
      cases self.page with
      | roles hook => exact sendsEdited_of_requests (ChannelAcl.requestEffect_requests _)
      | _ => exact sendsEdited_goto_nil
  | edit edit =>
      show SendsEdited (self.change edit)
      unfold Admin.change
      cases self.page <;> exact sendsEdited_goto_nil
  | create =>
      apply hnil
      intro hook hpage
      rw [ChannelAcl.savedWithEdit, hcareful hook hpage]
      rfl
  | delete roleName =>
      apply hnil
      intro hook hpage
      apply Option.filter_eq_none_iff.mpr
      intro acl hacl
      rw [hcareful hook hpage acl hacl]
      exact Bool.false_ne_true
  | refresh =>
      unfold Admin.step
      cases self.page with
      | roles hook =>
          dsimp only
          split
          next =>
            apply sendsEdited_of_requests
            intro message hmem
            cases List.mem_singleton.mp hmem
            rfl
          next => exact sendsEdited_goto_nil
      | _ => exact sendsEdited_goto_nil
  | save =>
      have hcopy : ∀ acl ∈ self.page.acl, self.page.channel = some acl.channelId := hcareful
      have hsaved (page : Page) (hchannel : page.channel = self.page.channel) :=
        h.sendsEdited order hchannel hcopy
      unfold Admin.step saveAcl
      cases hpage : self.page with
      | closed => exact sendsEdited_goto_nil
      | aclTab tab =>
          rw [hpage] at hsaved
          exact hsaved (.aclTab tab) rfl
      | roles hook =>
          rw [hpage] at hsaved
          exact hsaved (.roles (hook.save hook.acl)) (hook.save_channelId hook.acl)
  | saved =>
      unfold Admin.step
      cases self.page <;> exact sendsEdited_goto_nil
  | saveFailed =>
      unfold Admin.step
      cases self.page <;> exact sendsEdited_goto_nil

end Steps

/-- In a run in which no role is created or deleted, and a page saves only what it holds of the
channel that it is about, every save sends the list that was last received for this channel,
with exactly the edits of the user since then. -/
theorem edits_saved_run {events : List Event} (h : Along (step order) Careful {} events) :
    Along (step order) (fun self event => SendsEdited (self.step order event)) {} events := by
  have hstep : ∀ self event, Current self → self.Careful event →
      Current (step order self event) :=
    fun self event hself => hself.step order
  have hsends : ∀ self event, Current self → self.Careful event →
      SendsEdited (step order self event) :=
    fun self event hself => hself.sendsEdited_step order
  have hstart : Current {} := fun acl hacl => nomatch hacl
  exact along_of_invariant hstep hsends hstart h

def listOf (channelId : UInt32) : Message where
  channelId := channelId
  inheritAcls := some true
  groups := [{
    name := "admin"
    inherited := some false
    inherit := some true
    inheritable := some true
    add := [1]
    remove := []
    inheritedMembers := []
    color := none
    icon := none
    stylePreset := none
    metadata := [] }]
  acls := []
  query := none

def exampleEvents : List Event :=
  [.openAclTab, .select 5, .received (listOf 5), .edit .addAcl, .save]

theorem edits_saved_run_example :
    Along (step .listed) (fun self event => SendsEdited (self.step .listed event)) {}
      exampleEvents := by
  apply edits_saved_run
  refine ⟨trivial, trivial, trivial, trivial, ?_, trivial⟩
  intro acl hacl
  cases hacl
  rfl

def deletion : List Event := [.openRoles 0, .received (listOf 0), .delete "admin"]

/-- The list that is saved still has the group. -/
theorem deleted_role_saved :
    ¬Along (step .listed) (fun self event => SendsEdited (self.step .listed event)) {}
      deletion := by
  rintro ⟨-, -, hdelete, -⟩
  obtain ⟨-, hexpected⟩ := hdelete _ List.mem_cons_self rfl
  have hgroups : some 0 = some 1 :=
    congrArg (Option.map fun p : Permissions => p.groups.length) hexpected
  exact absurd (Option.some.inj hgroups) (by decide)

end Admin

end FancyMumble.Interface.Acl
