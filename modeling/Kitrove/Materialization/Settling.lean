import Kitrove.Agents.Exchange
import Kitrove.Materialization.FileSettling
import Kitrove.Materialization.SkillSettling
import Kitrove.Model.Numbering
import Kitrove.Skills.Reprojection

/-! Plans for whole targets settle: those for prompt commands and agents always, those for skills where
every receipt of their destination is kept under their own identity. -/

namespace Kitrove.Materialization

open Std InstructionApply Skills Except

variable {lib : ApplyLibraries}

section Results

/-- A plan for a skill does not ask what part of the destination its receipt owns, as the others do. -/
theorem apply_plans_settle (hc : lib.states.Lawful) (hw : Writes lib) :
    (∀ (manifest : EnvironmentManifest) (assetId : AssetId) (object : Skills.StoredSkillTree)
      (policy : TargetPolicy) (anchor text : Bytes) (localState : LocalState)
      (observation : DestinationObservation) (plan : ApplyPlan),
      LocalState.fromJson lib.states text = .ok localState →
      planSkillApply lib manifest assetId object policy anchor text observation = .ok plan →
      (SkillSettles lib manifest assetId object policy anchor localState plan ↔
        HeldWhole lib assetId object policy anchor localState)) ∧
    (∀ (manifest : EnvironmentManifest) (assetId : AssetId) (object : StoredPromptCommand)
      (policy : PromptCommandTargetPolicy) (observation : PromptCommandDestinationObservation)
      (text : Bytes) (localState : LocalState) (plan : PromptCommandApplyPlan),
      LocalState.fromJson lib.states text = .ok localState →
      planPromptCommandApply lib manifest assetId object policy observation text = .ok plan →
      FileSettles lib (promptPlanner lib manifest assetId object policy) localState plan) ∧
    (∀ (manifest : EnvironmentManifest) (assetId : AssetId) (object : Agents.StoredAgent)
      (policy : AgentTargetPolicy) (observation : AgentDestinationObservation) (text : Bytes)
      (localState : LocalState) (plan : AgentApplyPlan),
      LocalState.fromJson lib.states text = .ok localState →
      planAgentApply lib manifest assetId object policy observation text = .ok plan →
      FileSettles lib (agentPlanner lib manifest assetId object policy) localState plan) ∧
    ∀ (manifest : EnvironmentManifest) (assetId : AssetId) (object : Skills.StoredSkillTree)
      (policy : TargetPolicy) (anchor text : Bytes) (localState : LocalState)
      (observation : DestinationObservation) (plan : ApplyPlan),
      LocalState.fromJson lib.states text = .ok localState →
      planSkillRemoval lib manifest assetId object policy anchor text observation = .ok plan →
      RemovalSettles lib manifest assetId object policy anchor localState plan := by
  refine ⟨?_, ?_, ?_, ?_⟩
  · intro manifest assetId object policy anchor text localState observation plan hstate hplan
    exact ⟨held_of_settles hc hstate hplan, settles_of_held hc hstate hplan⟩
  · intro manifest assetId object policy observation text localState plan hstate hplan
    exact file_settles hc hstate hplan
  · intro manifest assetId object policy observation text localState plan hstate hplan
    exact file_settles hc hstate hplan
  · intro manifest assetId object policy anchor text localState observation plan hstate hplan
    exact removal_settles hc hw hstate hplan

end Results

section Sample

def zeros : Digest := ⟨List.replicate 64 0x30, validDigest_zeros⟩

def ones : Digest := ⟨List.replicate 64 0x31, validDigest_ones⟩

/-- A hash that tells the receipts of parts of a target from everything else. -/
def partHash (text : Bytes) : Digest :=
  if (ascii "kitrove-receipt-id-v2").isPrefixOf text then ones else zeros

def unixPaths : PathPlatform where
  isAbsolute path := path.head? == some 0x2F
  rawParentComponent path := (splitOn 0x2F path).contains (ascii "..")
  components path :=
    .root :: ((splitOn 0x2F path).filter fun component => !component.isEmpty).map .normal
  join path relative := if relative.head? = some 0x2F then relative else path ++ [0x2F] ++ relative
  toStr := some

def plainAuthority : AuthorityCodec where
  encodeToml _ := .ok []
  decodeToml _ := .error ⟨[], none⟩
  encodeLock _ := .ok []
  decodeLock _ := .error []

def sampleLib : ApplyLibraries where
  blake3 := partHash
  readYaml := Skills.sampleYaml.read
  readScalar := Agents.sampleYaml
  readToml := Agents.sampleReadToml
  writeToml name description instructions :=
    some (Agents.sampleToml name description instructions)
  authority := plainAuthority
  states := .numbering
  encodeReceipt _ := some []
  paths := unixPaths

def sampleSkill : Skills.StoredSkillTree :=
  ⟨⟨OrdMap.mapOf [(skillDocumentPath, ⟨.regular, ascii "---\nname: a\ndescription: b\n---\nRead.\n"⟩)],
    .ofDigest zeros⟩⟩

def sampleCommand : StoredPromptCommand where
  command :=
    { name := ⟨ascii "review", by decide⟩
      description := none
      body := ⟨ascii "Review.\n", by decide +kernel, by decide +kernel, by decide +kernel,
        by decide +kernel⟩
      argumentMode := .none
      contract := by decide +kernel }
  objectHash := .ofDigest zeros

def sampleAgent : Agents.StoredAgent := ⟨Agents.reviewAgent, .ofDigest zeros⟩

def sampleRecord : ComponentProvenance where
  source := .local' skillDocumentPath
  revision := authoredPackRevision
  exactSourceHash := .ofDigest zeros
  originScope := none
  scope := by simp

theorem sampleFidelity_valid : RawFidelityResult.validate ⟨.portable, [],
    [⟨ascii "adapter", ascii "declared"⟩], [], ascii "adapter/1", none⟩ = .ok () := by
  decide +kernel

def sampleFidelity : FidelityResult :=
  ⟨⟨.portable, [], [⟨ascii "adapter", ascii "declared"⟩], [], ascii "adapter/1", none⟩,
    sampleFidelity_valid⟩

/-- An asset of a portable object that Claude may hold. -/
def sampleAsset (id : AssetId) (kind : AssetKind) (format : Bytes) : Asset :=
  Asset.refreshContentHash partHash
    { id := id
      kind := kind
      contentHash := .ofDigest zeros
      provenance := OrdMap.mapOf [(.ofDigest zeros, sampleRecord)]
      portable := some ⟨format, skillDocumentPath, .ofDigest zeros, .ofDigest zeros⟩
      nativeVariants := ∅
      compatibility := OrdMap.mapOf [(.claude, sampleFidelity)]
      contentClass := .agentActive
      requiredBindings := ∅ }

theorem skillId_valid : NameKind.asset.valid (ascii "a") = true := by decide

theorem skillId_bounded : (ascii "a").length < 2 ^ 63 := by decide

def skillId : AssetId := ⟨ascii "a", skillId_valid, skillId_bounded⟩

def commandId : AssetId := ⟨ascii "command", by decide, by decide⟩

def agentId : AssetId := ⟨ascii "helper", by decide, by decide⟩

def sampleManifest : EnvironmentManifest where
  assets := OrdMap.mapOf
    [(skillId, sampleAsset skillId .skill (ascii "agent-skills/v1")),
      (commandId, sampleAsset commandId .command storedPromptCommandFormat),
      (agentId, sampleAsset agentId .agent Agents.storedFormat)]
  packs := ∅
  profiles := ∅
  requiredBindings := ∅

def skillPolicy : TargetPolicy where
  harness := .claude
  scope := .project
  policyLine := .claudeCurrent
  relativeRoot := ⟨ascii ".claude/skills", by decide, by decide⟩
  layout := .directory
  documentName := skillDocumentPath
  adapterVersion := ascii "adapter/1"
  evidence := ascii "evidence"

def commandPolicy : PromptCommandTargetPolicy where
  harness := .claude
  scope := .project
  policyLine := .claudeCurrent
  anchor := .scope
  relativeRoot := ⟨ascii ".claude/commands", by decide, by decide⟩
  adapterVersion := ascii "adapter/1"
  evidence := ascii "evidence"

def agentPolicy : AgentTargetPolicy where
  harness := .claude
  scope := .project
  policyLine := .claudeCurrent
  anchor := .scope
  relativeRoot := ⟨ascii ".claude/agents", by decide, by decide⟩
  dialect := .claudeCurrent
  discovery := .recursive
  adapterVersion := ascii "adapter/1"
  evidence := ascii "evidence"

theorem sampleManifest_valid : sampleManifest.validate partHash = .ok () := by decide +kernel

theorem sampleLib_writes : Writes sampleLib where
  state _ := ⟨_, rfl⟩
  receipt _ := ⟨_, rfl⟩

theorem sampleLib_text (localState : LocalState) :
    ∃ text, LocalState.fromJson sampleLib.states text = .ok localState :=
  ⟨_, LocalState.fromJson_toJson LocalStateCodec.numbering_lawful rfl⟩

theorem skillTarget_sample : ∃ target,
    skillTarget sampleLib sampleManifest skillId sampleSkill skillPolicy (ascii "/w") = .ok target ∧
      target.destination = ⟨ascii "/w/.claude/skills/a"⟩ := by
  have hsome : (skillTarget sampleLib sampleManifest skillId sampleSkill skillPolicy
      (ascii "/w")).toOption.map SkillTarget.destination = some ⟨ascii "/w/.claude/skills/a"⟩ := by
    decide +kernel
  obtain ⟨target, htarget, hdestination⟩ := Option.map_eq_some_iff.mp hsome
  exact ⟨target, toOption_eq_some_iff.mp htarget, hdestination⟩

def vacantState : LocalState :=
  ⟨⟨⟨ascii "machine", by decide, by decide⟩, none, ∅, ∅⟩, ∅, ∅, ∅, ∅, []⟩

/-- A receipt of the skill for a part of its destination. -/
def regionReceipt : DeploymentReceipt where
  assetId := skillId
  harness := .claude
  scope := .project
  destination := ⟨ascii "/w/.claude/skills/a"⟩
  target := .managedInstructionRegion
  logicalKey := none
  sharedWith := ∅
  sharedAdapterVersions := ∅
  sourceHash := .ofDigest zeros
  renderedHash := .ofDigest zeros
  documentHash := none
  priorHash := none
  adapterVersion := ascii "adapter/1"
  environmentRevision := authoredPackRevision

def regionState : LocalState := withReceipt vacantState (.ofDigest ones) regionReceipt

theorem regionReceipt_id : regionReceipt.receiptId partHash = .ok (.ofDigest ones) := by
  decide +kernel

theorem regionState_only {id : ReceiptId} {receipt : DeploymentReceipt}
    (h : regionState.receipts[id]? = some receipt) : id = .ofDigest ones ∧ receipt = regionReceipt := by
  rw [regionState, withReceipt, ExtTreeMap.getElem?_insert] at h
  split at h
  · rename_i hid
    exact ⟨(LawfulEqCmp.eq_of_compare hid).symm, (Option.some.inj h).symm⟩
  · rw [show vacantState.receipts = ∅ from rfl, ExtTreeMap.getElem?_empty] at h
    contradiction

/-- The receipt of the part counts as one of the whole, so the skill is restored. -/
theorem region_restores {text : Bytes}
    (htext : LocalState.fromJson sampleLib.states text = .ok regionState) :
    ∃ plan, planSkillApply sampleLib sampleManifest skillId sampleSkill skillPolicy (ascii "/w") text
      .absent = .ok plan ∧ plan.disposition = .restore := by
  obtain ⟨target, htarget, hdestination⟩ := skillTarget_sample
  have hreceipts : validateLocalReceipts partHash regionState = .ok () :=
    validateLocalReceipts_withReceipt (validateLocalReceipts_eq_ok.mpr nofun) regionReceipt_id
  have hobserved : observedSkillReceipt regionState skillId skillPolicy target.destination =
      .ok (some regionReceipt) :=
    observedSkillReceipt_eq_some.mpr ⟨.ofDigest ones, ExtTreeMap.getElem?_insert_self,
      ⟨rfl, rfl, hdestination.symm⟩, rfl, fun id receipt hget _ => (regionState_only hget).1⟩
  obtain ⟨digest, hdigest⟩ : ∃ digest, applyPlanDigest sampleLib skillId skillPolicy
      target.destination target.manifestRevision .restore (some regionReceipt) .absent
      (proposedSkillReceipt skillId skillPolicy target none) text _ = .ok digest :=
    applyPlanDigest_ok (fun _ _ => ⟨_, rfl⟩) ⟨_, rfl⟩
  exact ⟨_, planSkillApply_eq_ok.mpr ⟨regionState, target, htext, hreceipts,
    ⟨sampleManifest_valid, htarget⟩, planSkillTarget_eq_ok.mpr ⟨some regionReceipt, (.restore, none),
      _, digest, hobserved, rfl, rfl, hdigest, rfl⟩⟩, rfl⟩

/-- A restored skill is not settled where the receipt of a part of its destination was kept. -/
theorem skill_plan_unsettled : ¬ ∀ (lib : ApplyLibraries) (manifest : EnvironmentManifest)
    (assetId : AssetId) (object : Skills.StoredSkillTree) (policy : TargetPolicy) (anchor text : Bytes)
    (localState : LocalState) (observation : DestinationObservation) (plan : ApplyPlan),
      lib.states.Lawful → Writes lib → LocalState.fromJson lib.states text = .ok localState →
      planSkillApply lib manifest assetId object policy anchor text observation = .ok plan →
      SkillSettles lib manifest assetId object policy anchor localState plan := by
  intro h
  obtain ⟨text, htext⟩ := sampleLib_text regionState
  obtain ⟨plan, hplan, -⟩ := region_restores htext
  obtain ⟨target, htarget, hdestination⟩ := skillTarget_sample
  obtain ⟨-, hrendered, hresolved, -⟩ := skillTarget_eq_ok htarget
  have hheld := held_of_settles LocalStateCodec.numbering_lawful htext hplan
    (h _ _ _ _ _ _ _ _ _ _ LocalStateCodec.numbering_lawful sampleLib_writes htext hplan)
  have hid := hheld target.rendered target.destination hrendered hresolved (.ofDigest ones)
    regionReceipt ExtTreeMap.getElem?_insert_self ⟨rfl, rfl, hdestination.symm⟩
  rw [hdestination] at hid
  exact absurd hid (by decide +kernel)

theorem vacant_installs {text : Bytes}
    (htext : LocalState.fromJson sampleLib.states text = .ok vacantState) :
    ∃ plan, planSkillApply sampleLib sampleManifest skillId sampleSkill skillPolicy (ascii "/w") text
      .absent = .ok plan := by
  obtain ⟨target, htarget, -⟩ := skillTarget_sample
  obtain ⟨plan, hplan, -⟩ := @installs_of_vacant sampleLib skillId skillPolicy text vacantState target
    sampleLib_writes nofun
  exact ⟨plan, planSkillApply_eq_ok.mpr ⟨vacantState, target, htext,
    validateLocalReceipts_eq_ok.mpr nofun, ⟨sampleManifest_valid, htarget⟩, hplan⟩⟩

def commandObservation : PromptCommandDestinationObservation :=
  ⟨commandPolicy, sampleCommand.command.name, ⟨ascii "/w/.claude/commands/review.md"⟩, none,
    .conservative true⟩

def agentObservation : AgentDestinationObservation :=
  ⟨agentPolicy, sampleAgent.agent.name, ⟨ascii "/w/.claude/agents/review.md"⟩, none,
    .conservative true⟩

theorem vacant_installs_file {Policy FileName : Type} {planner : FilePlanner Policy FileName}
    {observation : FileObservation Policy FileName} {text : Bytes}
    (htext : LocalState.fromJson sampleLib.states text = .ok vacantState)
    (hauthority : planner.authority observation.policy observation.name = .ok ())
    (htarget : planner.target.toOption.isSome = true) (habsent : observation.content = none) :
    ∃ plan, planFileApply sampleLib planner observation text = .ok plan := by
  obtain ⟨target, htarget⟩ := Option.isSome_iff_exists.mp htarget
  obtain ⟨plan, hplan, -⟩ := file_installs hauthority htext (validateLocalReceipts_eq_ok.mpr nofun)
    (toOption_eq_some_iff.mp htarget) habsent nofun fun _ => ⟨_, rfl⟩
  exact ⟨plan, hplan⟩

theorem apply_plans_settle_sample : ∃ text next skill command agent removal,
    (planSkillApply sampleLib sampleManifest skillId sampleSkill skillPolicy (ascii "/w") text .absent =
        .ok skill ∧
      (SkillSettles sampleLib sampleManifest skillId sampleSkill skillPolicy (ascii "/w") vacantState
          skill ↔
        HeldWhole sampleLib skillId sampleSkill skillPolicy (ascii "/w") vacantState)) ∧
    (planPromptCommandApply sampleLib sampleManifest commandId sampleCommand commandPolicy
        commandObservation text = .ok command ∧
      FileSettles sampleLib (promptPlanner sampleLib sampleManifest commandId sampleCommand
        commandPolicy) vacantState command) ∧
    (planAgentApply sampleLib sampleManifest agentId sampleAgent agentPolicy agentObservation text =
        .ok agent ∧
      FileSettles sampleLib (agentPlanner sampleLib sampleManifest agentId sampleAgent agentPolicy)
        vacantState agent) ∧
    planSkillRemoval sampleLib sampleManifest skillId sampleSkill skillPolicy (ascii "/w") next
        (skill.rendered.observed partHash) = .ok removal ∧
      RemovalSettles sampleLib sampleManifest skillId sampleSkill skillPolicy (ascii "/w")
        skill.proposedLocalState removal := by
  obtain ⟨hskills, hcommands, hagents, hremovals⟩ :=
    @apply_plans_settle sampleLib LocalStateCodec.numbering_lawful sampleLib_writes
  obtain ⟨text, htext⟩ := sampleLib_text vacantState
  obtain ⟨skill, hskill⟩ := vacant_installs htext
  obtain ⟨command, hcommand⟩ : ∃ plan, planPromptCommandApply sampleLib sampleManifest commandId
      sampleCommand commandPolicy commandObservation text = .ok plan :=
    vacant_installs_file htext (by decide +kernel) (by decide +kernel) rfl
  obtain ⟨agent, hagent⟩ : ∃ plan, planAgentApply sampleLib sampleManifest agentId sampleAgent
      agentPolicy agentObservation text = .ok plan :=
    vacant_installs_file htext (by decide +kernel) (by decide +kernel) rfl
  have hheld : HeldWhole sampleLib skillId sampleSkill skillPolicy (ascii "/w") vacantState :=
    fun _ _ _ _ _ _ hget => nomatch hget
  have hsettles := hskills _ _ _ _ _ _ _ _ _ htext hskill
  obtain ⟨next, again, hnext, hagain, -⟩ := (hsettles.mpr hheld).unchanged
  have hproposed := LocalState.fromJson_toJson LocalStateCodec.numbering_lawful hnext
  obtain ⟨removal, hremoval⟩ := removes_of_held sampleLib_writes hproposed hagain
    (held_proposed hskill htext hheld) rfl
  exact ⟨text, next, skill, command, agent, removal, ⟨hskill, hsettles⟩,
    ⟨hcommand, hcommands _ _ _ _ _ _ _ _ htext hcommand⟩,
    ⟨hagent, hagents _ _ _ _ _ _ _ _ htext hagent⟩, hremoval,
    hremovals _ _ _ _ _ _ _ _ _ hproposed hremoval⟩

end Sample

end Kitrove.Materialization
