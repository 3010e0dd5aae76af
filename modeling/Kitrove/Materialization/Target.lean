import Kitrove.Agents.Native
import Kitrove.InstructionApply.Plan
import Kitrove.Model.Codec
import Kitrove.Model.Destination
import Kitrove.Prompts.Native
import Kitrove.Skills.Projection

/-! Targets that are owned whole: their policies, where they lie, and their receipts in the
machine-local state. -/

namespace Kitrove.Materialization

open Std InstructionApply

structure MaterializationError where
  code : String
  message : String
  deriving DecidableEq, Repr

section Policies

inductive PolicyLine where
  | claudeCurrent
  | codexCurrent
  | piLatest
  | openCodeCurrent
  | openCodeV2
  deriving DecidableEq

namespace PolicyLine

/-- The harness that owns a policy line. -/
def harness : PolicyLine → HarnessId
  | .claudeCurrent => .claude
  | .codexCurrent => .codex
  | .piLatest => .pi
  | .openCodeCurrent | .openCodeV2 => .openCode

def asStr : PolicyLine → Bytes
  | .claudeCurrent => ascii "claude_current"
  | .codexCurrent => ascii "codex_current"
  | .piLatest => ascii "pi_latest"
  | .openCodeCurrent => ascii "open_code_current"
  | .openCodeV2 => ascii "open_code_v2"

end PolicyLine

abbrev TargetAnchor := InstructionTargetAnchor

def TargetAnchor.tag : TargetAnchor → UInt8
  | .scope => 0
  | .harnessConfiguration => 1

structure AdapterError where
  code : String
  message : String
  deriving DecidableEq

def validateAuthoredTargetIdentity (harness : HarnessId) (scope : HarnessScope)
    (policyLine : PolicyLine) (anchor : TargetAnchor) (error : AdapterError) :
    Except AdapterError Unit :=
  refuseIf (policyLine.harness ≠ harness ∨ anchor = .harnessConfiguration ∧ scope ≠ .user) error

/-- The policy of a skill, which a directory holds. -/
structure TargetPolicy where
  harness : HarnessId
  scope : HarnessScope
  policyLine : PolicyLine
  relativeRoot : PortablePath
  layout : Skills.SkillSourceLayout
  documentName : PortablePath
  adapterVersion : Bytes
  evidence : Bytes
  deriving DecidableEq

structure PromptCommandTargetPolicy where
  harness : HarnessId
  scope : HarnessScope
  policyLine : PolicyLine
  anchor : TargetAnchor
  relativeRoot : PortablePath
  adapterVersion : Bytes
  evidence : Bytes
  deriving DecidableEq

def PromptCommandTargetPolicy.validate (policy : PromptCommandTargetPolicy) :
    Except AdapterError Unit :=
  validateAuthoredTargetIdentity policy.harness policy.scope policy.policyLine policy.anchor
    ⟨"adapter.prompt_command_target_invalid",
      "the prompt-command target policy is internally inconsistent"⟩

inductive AgentDiscovery where
  | directFiles
  | recursive
  deriving DecidableEq

def AgentDiscovery.tag : AgentDiscovery → UInt8
  | .directFiles => 0
  | .recursive => 1

structure AgentTargetPolicy where
  harness : HarnessId
  scope : HarnessScope
  policyLine : PolicyLine
  anchor : TargetAnchor
  relativeRoot : PortablePath
  dialect : Agents.NativeAgentDialect
  discovery : AgentDiscovery
  adapterVersion : Bytes
  evidence : Bytes
  deriving DecidableEq

def dialectHarness : Agents.NativeAgentDialect → HarnessId
  | .claudeCurrent => .claude
  | .codexCurrent => .codex
  | .openCodeCurrent => .openCode

/-- Whether the registry finds nested definitions too. -/
def supportsRecursiveDiscovery (dialect : Agents.NativeAgentDialect) : Bool :=
  dialect == .claudeCurrent

def AgentTargetPolicy.validate (policy : AgentTargetPolicy) : Except AdapterError Unit := do
  validateAuthoredTargetIdentity policy.harness policy.scope policy.policyLine policy.anchor
    ⟨"adapter.agent_target_invalid", "the agent target policy is internally inconsistent"⟩
  refuseIf (dialectHarness policy.dialect ≠ policy.harness ∨
      supportsRecursiveDiscovery policy.dialect ≠ (policy.discovery == .recursive))
    ⟨"adapter.agent_target_invalid",
      "the agent dialect or discovery policy is inconsistent with its harness"⟩

end Policies

section Destinations

inductive PathComponent where
  | root
  | curDir
  | parentDir
  | normal (name : Bytes)
  deriving DecidableEq

/-- The path functions of the platform. -/
structure PathPlatform where
  isAbsolute : Bytes → Bool
  rawParentComponent : Bytes → Bool
  components : Bytes → List PathComponent
  join : Bytes → Bytes → Bytes
  toStr : Bytes → Option Bytes

variable (paths : PathPlatform)

/-- Components that do not go down. -/
def PathComponent.relative : PathComponent → Bool
  | .root => false
  | .curDir | .parentDir => true
  | .normal name => name == ascii "." || name == ascii ".."

def validateTargetAnchor (anchor : Bytes) : Except MaterializationError Unit :=
  refuseIf (!paths.isAbsolute anchor || paths.rawParentComponent anchor ||
      (paths.components anchor).any PathComponent.relative)
    ⟨"materialization.anchor_invalid",
      "the target anchor must be absolute without relative components"⟩

def stripLosslessVerbatimDiskPrefix (path : Bytes) : Bytes :=
  match stripPrefix (ascii "\\\\?\\") path with
  | none => path
  | some stripped =>
    match stripped with
    | letter :: colon :: separator :: _ =>
      if ((0x41 ≤ letter ∧ letter ≤ 0x5A) ∨ (0x61 ≤ letter ∧ letter ≤ 0x7A)) ∧ colon = 0x3A ∧
          (separator = 0x2F ∨ separator = 0x5C) ∧
          (NormalizedDestination.parse stripped).toOption.isSome then stripped
      else path
    | _ => path

def normalizedDestinationFromPath (destination : Bytes) :
    Except MaterializationError NormalizedDestination :=
  match paths.toStr destination with
  | none =>
    throw ⟨"materialization.destination_non_utf8", "the target destination must be valid UTF-8"⟩
  | some encoded =>
    (NormalizedDestination.parse (stripLosslessVerbatimDiskPrefix encoded)).mapError fun _ =>
      ⟨"materialization.destination_invalid",
        "the target destination is not a supported normalized absolute path"⟩

/-- `PortablePath::parse`. -/
def relativeDestinationOf (path : Bytes) (error : MaterializationError) :
    Except MaterializationError PortablePath :=
  match Name.parse .path path with
  | none => throw error
  | some path => pure path

/-- Where a skill lies beneath an absolute anchor. -/
def resolveTargetDestination (anchor : Bytes) (policy : TargetPolicy) (packageName : AssetId) :
    Except MaterializationError NormalizedDestination := do
  validateTargetAnchor paths anchor
  normalizedDestinationFromPath paths
    (paths.join (paths.join anchor policy.relativeRoot.bytes) packageName.bytes)

end Destinations

/-- The libraries that planning uses, and the path functions of the platform. -/
structure ApplyLibraries where
  blake3 : Bytes → Digest
  readYaml : Bytes → Skills.YamlNode
  readScalar : Bytes → Option Prompts.Utf8Text
  readToml : Bytes → Option Agents.TomlTable
  writeToml : Bytes → Bytes → Bytes → Option Bytes
  authority : AuthorityCodec
  states : LocalStateCodec
  encodeReceipt : DeploymentReceipt → Option Bytes
  paths : PathPlatform

def ApplyLibraries.agents (lib : ApplyLibraries) : Agents.AgentLibraries where
  readYaml := lib.readScalar
  readToml := lib.readToml
  writeToml := lib.writeToml
  blake3 := lib.blake3

section Files

/-- The identity of a file with its permissions. -/
def hashExactFileTarget (blake3 : Bytes → Digest) (domain bytes : Bytes) (mode : RegularFileMode) :
    ContentHash :=
  .ofDigest (blake3 (domain ++ textRecord bytes ++ mode.record))

end Files

end Kitrove.Materialization
