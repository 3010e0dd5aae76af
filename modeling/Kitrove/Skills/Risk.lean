import Kitrove.Mcp.Credential
import Kitrove.Skills.Projection
import Kitrove.Support.Substitution

/-! The risk of a captured tree, credential artifacts and executable content, and the identity of the
source it was captured from. -/

namespace Kitrove.Skills

open Std

section Identity

def SkillSourceLayout.tag : SkillSourceLayout → UInt8
  | .directory => 0
  | .standalone => 1

/-- The identity of a source with its layout and the name of its document. -/
def hashSkillSource (blake3 : Bytes → Digest) (layout : SkillSourceLayout)
    (originalDocumentName : Bytes) (tree : CapturedTree) : ContentHash :=
  .ofDigest (blake3 (ascii "kitrove-skill-source-v1" ++ [0] ++ [layout.tag] ++
    textRecord originalDocumentName ++
    tree.files.toList.flatMap fun entry => treeRecord entry.1 entry.2))

end Identity

section Credentials

def privateKeyMarkers : List Bytes :=
  [ascii "BEGIN PRIVATE KEY", ascii "BEGIN ENCRYPTED PRIVATE KEY", ascii "BEGIN RSA PRIVATE KEY",
    ascii "BEGIN EC PRIVATE KEY", ascii "BEGIN OPENSSH PRIVATE KEY"]

/-- `rsplit('/').next()`, in lower case. -/
def lowercaseBasename (path : Bytes) : Bytes :=
  ((splitOn 0x2F path).getLast?.getD path).map toAsciiLowercase

def reservedBasenames : List Bytes :=
  [ascii "auth.json", ascii ".credentials.json", ascii "credentials.json", ascii "id_rsa",
    ascii "id_ed25519", ascii ".netrc", ascii ".git-credentials", ascii ".npmrc", ascii ".pypirc"]

def credentialLikePath (path : Bytes) : Bool :=
  let components := (splitOn 0x2F path).map fun component => component.map toAsciiLowercase
  let basename := lowercaseBasename path
  basename == ascii ".env" || (ascii ".env.").isPrefixOf basename ||
    reservedBasenames.contains basename ||
    (components.zip components.tail).contains (ascii ".aws", ascii "credentials")

def containsPrivateKeyMarker (bytes : Bytes) : Bool :=
  privateKeyMarkers.any fun marker => Substitution.contains marker bytes

def credentialArtifact (path : Bytes) (message : String) : SkillError :=
  ⟨"skill.credential_artifact", path, message⟩

def rejectCredentialArtifacts (directory : Bytes) (exact' : CapturedTree) : Except SkillError Unit :=
  exact'.files.toList.forM fun (path, file) => do
    let displayPath := directory ++ ascii "/" ++ path.bytes
    refuseIf (credentialLikePath path.bytes)
      (credentialArtifact displayPath
        "credential-like filename is not eligible for portable capture")
    refuseIf (containsPrivateKeyMarker file.bytes)
      (credentialArtifact displayPath "private-key material is not eligible for portable capture")
    refuseIf (Mcp.containsCredentialShapedText file.bytes)
      (credentialArtifact displayPath
        "credential-shaped content is not eligible for portable capture")

end Credentials

section Executables

def executableExtensions : List Bytes :=
  [".sh", ".bash", ".zsh", ".fish", ".ps1", ".bat", ".cmd", ".exe", ".dll", ".dylib", ".so",
    ".wasm", ".bin", ".py", ".js", ".mjs", ".cjs", ".ts", ".jar"].map ascii

def executableMagics : List Bytes :=
  [0x7F :: ascii "ELF", ascii "MZ", [0xFE, 0xED, 0xFA, 0xCE], [0xCE, 0xFA, 0xED, 0xFE],
    [0xFE, 0xED, 0xFA, 0xCF], [0xCF, 0xFA, 0xED, 0xFE], [0xCA, 0xFE, 0xBA, 0xBE],
    [0xBE, 0xBA, 0xFE, 0xCA], 0 :: ascii "asm"]

def executableExtension (path : Bytes) : Bool :=
  executableExtensions.any fun extension => extension.isSuffixOf (lowercaseBasename path)

def executableSignature (bytes : Bytes) : Bool :=
  (ascii "#!").isPrefixOf bytes || executableMagics.any fun magic => magic.isPrefixOf bytes

def executableFields : List Bytes :=
  [ascii "plugin", ascii "plugins", ascii "extension", ascii "extensions", ascii "setup",
    ascii "install", ascii "installer", ascii "command", ascii "commands", ascii "hook",
    ascii "hooks", ascii "lifecycle"]

def classify (exact' : CapturedTree) (nativeFields : OrdSet Bytes) : ContentClass :=
  let executableFile := exact'.files.toList.any fun (path, file) =>
    file.mode == .executable || (ascii "scripts/").isPrefixOf path.bytes ||
      executableExtension path.bytes || executableSignature file.bytes
  let executableField := nativeFields.toList.any fun field =>
    executableFields.contains (field.map toAsciiLowercase)
  if executableFile || executableField then .executable else .agentActive

/-- The risk of an already verified portable tree, made out again. -/
def assessPortableTreeRisk (exact' : CapturedTree) : Except SkillError ContentClass := do
  rejectCredentialArtifacts (ascii "portable-object") exact'
  pure (classify exact' ∅)

end Executables

end Kitrove.Skills
