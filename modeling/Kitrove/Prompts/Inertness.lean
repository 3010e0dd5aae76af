import Kitrove.Prompts.RoundTrip

/-! A rendered prompt command holds no more than the command: it runs nothing, includes nothing and
takes its arguments where the command does. -/

namespace Kitrove.Prompts

open Substitution

variable {readYaml : Bytes → Option Utf8Text} {blake3 : Bytes → Digest}
  {dialect : NativePromptDialect} {command : PromptCommand} {text : Bytes}

section Inertness

variable {l : Bytes} {previous : Option UInt8}

theorem fileInterpolationAfter_separated {sep : UInt8} {rest : Bytes} (hsep : Gap sep) :
    fileInterpolationAfter previous (l ++ sep :: rest) =
      (fileInterpolationAfter previous l || fileInterpolationAfter none rest) := by
  induction l generalizing previous with
  | nil =>
    have hword : endsWord (some sep) = endsWord none := endsWord_gap hsep
    have hrest : fileInterpolationAfter (some sep) rest = fileInterpolationAfter none rest := by
      cases rest with
      | nil => rfl
      | cons b rest => rw [fileInterpolationAfter, fileInterpolationAfter, hword]
    have hleft : fileInterpolationAfter previous (sep :: rest) =
        fileInterpolationAfter (some sep) rest := by
      rw [fileInterpolationAfter, hsep.inert.2.2.2.1]
      rfl
    rw [List.nil_append, hleft, hrest]
    rfl
  | cons b l ih =>
    have hstarts : startsReference (l ++ sep :: rest) = startsReference l := by
      cases l with
      | cons c l => rfl
      | nil =>
        change (Mcp.isAsciiAlphanumeric sep || (ascii "./_-").contains sep) = false
        rw [hsep.inert.1, hsep.inert.2.1]
        rfl
    rw [List.cons_append, fileInterpolationAfter, fileInterpolationAfter, hstarts, ih, Bool.or_assoc]

theorem recognizesShellInterpolation_separated {sep : UInt8} {rest : Bytes} (hsep : Gap sep) :
    recognizesShellInterpolation dialect (l ++ sep :: rest) =
      (recognizesShellInterpolation dialect l || recognizesShellInterpolation dialect rest) := by
  have hshell : contains (ascii "!`") (l ++ sep :: rest) =
      (contains (ascii "!`") l || contains (ascii "!`") rest) := by
    rw [Bool.eq_iff_iff, Bool.or_eq_true, contains_iff, contains_iff, contains_iff]
    exact infix_separated (fun hmem => shell_gap sep hmem hsep) (List.cons_ne_nil _ _)
  cases dialect with
  | piLatest => rfl
  | claudeLegacy | openCodeV2 => exact hshell

theorem argumentPlaceholders_separated {sep : UInt8} {rest : Bytes} (hsep : Gap sep) :
    argumentPlaceholders dialect (l ++ sep :: rest) =
      argumentPlaceholders dialect l + argumentPlaceholders dialect rest := by
  have harguments : occurrences argumentsToken (l ++ sep :: rest) =
      occurrences argumentsToken l + occurrences argumentsToken rest :=
    occurrences_separated (fun hmem => argumentsToken_gap sep hmem hsep) argumentsToken_ne_nil
  have hevery : occurrences everyArgument (l ++ sep :: rest) =
      occurrences everyArgument l + occurrences everyArgument rest :=
    occurrences_separated (fun hmem => everyArgument_gap sep hmem hsep) everyArgument_ne_nil
  simp only [argumentPlaceholders, harguments, hevery]
  split <;> omega

theorem argumentPlaceholders_agree {r : Bytes} (h : Agree Gap l r) :
    argumentPlaceholders dialect l = argumentPlaceholders dialect r := by
  have harguments : occurrences argumentsToken l = occurrences argumentsToken r :=
    h.occurrences argumentsToken_ne_nil argumentsToken_gap
  have hevery : occurrences everyArgument l = occurrences everyArgument r :=
    h.occurrences everyArgument_ne_nil everyArgument_gap
  rw [argumentPlaceholders, argumentPlaceholders, harguments, hevery]

/-- The text of a dialect that runs no command, includes no file and takes its arguments in as many
places as it should. -/
structure Inert (dialect : NativePromptDialect) (placeholders : Nat) (text : Bytes) : Prop where
  shell : recognizesShellInterpolation dialect text = false
  files : dialect = .claudeLegacy → recognizesFileInterpolation text = false
  arguments : argumentPlaceholders dialect text = placeholders

theorem inert_agree {r : Bytes} {placeholders : Nat} (h : Agree Gap l r) :
    Inert dialect placeholders l ↔ Inert dialect placeholders r := by
  have hshell := @recognizesShellInterpolation_agree _ _ dialect h
  have hfile := recognizesFileInterpolation_agree h
  have harguments := @argumentPlaceholders_agree dialect _ _ h
  constructor
  · rintro ⟨hs, hf, ha⟩
    exact ⟨hshell ▸ hs, fun hd => hfile ▸ hf hd, harguments ▸ ha⟩
  · rintro ⟨hs, hf, ha⟩
    exact ⟨hshell ▸ hs, fun hd => hfile ▸ hf hd, harguments ▸ ha⟩

theorem inert_separated {sep : UInt8} {rest : Bytes} {placeholders : Nat} (hsep : Gap sep)
    (hrest : Inert dialect placeholders rest) :
    Inert dialect placeholders (l ++ sep :: rest) ↔ Inert dialect 0 l := by
  have hfiles : recognizesFileInterpolation (l ++ sep :: rest) =
      (recognizesFileInterpolation l || recognizesFileInterpolation rest) :=
    fileInterpolationAfter_separated hsep
  constructor
  · rintro ⟨hs, hf, ha⟩
    rw [recognizesShellInterpolation_separated hsep, Bool.or_eq_false_iff] at hs
    rw [argumentPlaceholders_separated hsep, hrest.arguments] at ha
    refine ⟨hs.1, fun hd => ?_, by omega⟩
    have hboth := hf hd
    rw [hfiles, Bool.or_eq_false_iff] at hboth
    exact hboth.1
  · rintro ⟨hs, hf, ha⟩
    refine ⟨?_, fun hd => ?_, ?_⟩
    · rw [recognizesShellInterpolation_separated hsep, hs, hrest.shell]
      rfl
    · rw [hfiles, hf hd, hrest.files hd]
      rfl
    · rw [argumentPlaceholders_separated hsep, ha, hrest.arguments, Nat.zero_add]

theorem inert_before {sep : UInt8} {rest : Bytes} {placeholders : Nat} (hsep : Gap sep)
    (hl : Inert dialect 0 l) :
    Inert dialect placeholders (l ++ sep :: rest) ↔ Inert dialect placeholders rest := by
  have hfiles : recognizesFileInterpolation (l ++ sep :: rest) =
      (recognizesFileInterpolation l || recognizesFileInterpolation rest) :=
    fileInterpolationAfter_separated hsep
  have hparts : recognizesShellInterpolation dialect (l ++ sep :: rest) =
      recognizesShellInterpolation dialect rest := by
    rw [recognizesShellInterpolation_separated hsep, hl.shell, Bool.false_or]
  have hcount : argumentPlaceholders dialect (l ++ sep :: rest) =
      argumentPlaceholders dialect rest := by
    rw [argumentPlaceholders_separated hsep, hl.arguments, Nat.zero_add]
  constructor
  · rintro ⟨hs, hf, ha⟩
    refine ⟨hparts ▸ hs, fun hd => ?_, hcount ▸ ha⟩
    have hboth := hf hd
    rwa [hfiles, hl.files hd, Bool.false_or] at hboth
  · rintro ⟨hs, hf, ha⟩
    refine ⟨hparts ▸ hs, fun hd => ?_, hcount ▸ ha⟩
    rw [hfiles, hl.files hd, hf hd]
    rfl

/-- The whole of a rendered text is inert if the prompt is, and the description. -/
theorem inert_rendered {body : Bytes} {placeholders : Nat} (hbody : Inert dialect placeholders body) :
    ∀ description : Option PromptDescription,
      (Inert dialect placeholders (renderFrontmatter description ++ body) ↔
        ∀ d ∈ description, Inert dialect 0 d.text.bytes)
  | none => iff_of_true hbody nofun
  | some description => by
    have hopening : Inert dialect 0 (ascii "---\ndescription: ") := by
      cases dialect <;> exact ⟨by decide, fun _ => by decide, by decide⟩
    have hdelimiter : Inert dialect 0 (ascii "\n---") := by
      cases dialect <;> exact ⟨by decide, fun _ => by decide, by decide⟩
    have hclosing : Inert dialect placeholders (ascii "\n---" ++ newline :: body) :=
      (inert_before (.inr (.inl rfl)) hdelimiter).mpr hbody
    have hquoted : renderFrontmatter (some description) ++ body =
        ascii "---\ndescription: " ++
          0x22 :: (description.escaped ++ 0x22 :: (ascii "\n---" ++ newline :: body)) := by
      rw [renderFrontmatter_quotes, List.append_assoc, List.cons_append, List.append_assoc,
        List.cons_append]
      rfl
    rw [hquoted, inert_before (.inr (.inr (.inl rfl))) hopening,
      inert_separated (.inr (.inr (.inl rfl))) hclosing, PromptDescription.escaped,
      ← inert_agree (escape_agree description.printable)]
    constructor
    · rintro h d hd
      cases hd
      exact h
    · intro h
      exact h description rfl

theorem rendered_inert (hyaml : ReadsDescriptions readYaml)
    (h : renderNativePromptCommand readYaml blake3 dialect command = .ok text) :
    text = renderFrontmatter command.description ++ renderBody command ∧
      Inert dialect (occurrences allArgumentsPlaceholder command.body.text) (renderBody command) := by
  obtain ⟨-, rfl, hreads⟩ := renderNativePromptCommand_eq_ok.mp h
  rw [renderBody_eq] at hreads ⊢
  have hprojects := projects_rendered hyaml hreads
  exact ⟨rfl, hprojects.inert, hprojects.fileFree,
    argumentPlaceholders_nativeText hprojects.supported_body⟩

end Inertness

section Samples

def unescape : Bytes → Bytes
  | 0x5C :: b :: rest => b :: unescape rest
  | b :: rest => b :: unescape rest
  | [] => []

/-- A reader of double-quoted scalars with escaped quotes and backslashes. -/
def sampleYaml : Bytes → Option Utf8Text
  | 0x22 :: rest =>
    if h : Utf8.valid (unescape rest.dropLast) = true then some ⟨unescape rest.dropLast, h⟩ else none
  | _ => none

theorem unescape_escape {text : Bytes} (h : ∀ b ∈ text, ¬ b < 0x20) :
    unescape (text.flatMap Mcp.escapeByte) = text := by
  induction text with
  | nil => rfl
  | cons b text ih =>
    obtain ⟨hb, htext⟩ := List.forall_mem_cons.mp h
    rw [List.flatMap_cons]
    by_cases hbackslash : b = 0x5C
    · rw [hbackslash]
      change 0x5C :: unescape (text.flatMap Mcp.escapeByte) = _
      rw [ih htext]
    · rcases escapeByte_printable hb with hplain | ⟨-, hescape⟩
      · rw [hplain, List.singleton_append, unescape, ih htext]
        intro _ _ hb
        exact absurd hb hbackslash
      · rw [hescape]
        change b :: unescape (text.flatMap Mcp.escapeByte) = _
        rw [ih htext]

theorem sampleYaml_reads : ReadsDescriptions sampleYaml := by
  intro description
  have hescape := unescape_escape description.printable
  have hlast : (description.text.bytes.flatMap Mcp.escapeByte ++ [0x22]).dropLast =
      description.text.bytes.flatMap Mcp.escapeByte := List.dropLast_concat
  have hvalid : Utf8.valid (unescape
      (description.text.bytes.flatMap Mcp.escapeByte ++ [0x22]).dropLast) = true := by
    rw [hlast, hescape]
    exact description.text.utf8
  have htext : (⟨_, hvalid⟩ : Utf8Text) = description.text :=
    Utf8Text.eq_of_bytes ((congrArg unescape hlast).trans hescape)
  exact (dif_pos hvalid).trans (congrArg some htext)

def sampleHash (_ : Bytes) : Digest := ⟨List.replicate 64 0x30, validDigest_zeros⟩

def sampleDocument : Bytes := ascii "Review $@.\r\n"

def isPortable : Except PromptCommandError ObservedPromptCommand → Bool
  | .ok observed =>
    match observed.portability with
    | .portable _ => true
    | .blocked _ => false
  | .error _ => false

theorem readsAs_of_isPortable {readYaml : Bytes → Option Utf8Text} {document bytes : Bytes}
    {limits : PromptCommandLimits}
    (h : isPortable (parseNativePromptCommand readYaml blake3 dialect document bytes limits) = true) :
    ∃ command, ReadsAs readYaml blake3 dialect document bytes limits command := by
  cases hparse : parseNativePromptCommand readYaml blake3 dialect document bytes limits with
  | error e =>
    rw [hparse] at h
    exact Bool.noConfusion h
  | ok observed =>
    cases hportability : observed.portability with
    | portable command => exact ⟨command, observed, hparse, hportability⟩
    | blocked reason =>
      rw [hparse, isPortable, hportability] at h
      exact Bool.noConfusion h

end Samples

end Kitrove.Prompts
