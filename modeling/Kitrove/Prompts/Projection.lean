import Kitrove.Prompts.Arguments

/-! When a native document is projected to a portable command, and to which one. -/

namespace Kitrove.Prompts

open Substitution

section Bodies

variable {input l : Bytes} {maxBodyBytes : Nat} {body : PromptBody}

theorem PromptBody.eq_of_text {other : PromptBody} (h : body.text = other.text) : body = other := by
  cases body
  cases other
  cases h
  rfl

/-- What a body is parsed from. -/
structure BodySource (input : Bytes) (maxBodyBytes : Nat) : Prop where
  nonempty : input ≠ []
  noNul : 0 ∉ input
  short : input.length ≤ maxBodyBytes
  lineEnds : (replaceCrlf input).contains 13 = false
  notBlank : isBlank (normalizeBody input) = false
  normalizedShort : (normalizeBody input).length ≤ maxBodyBytes

theorem PromptBody.parse_eq_ok : PromptBody.parse input maxBodyBytes = .ok body ↔
    BodySource input maxBodyBytes ∧ body.text = normalizeBody input := by
  unfold PromptBody.parse
  split
  · rename_i h
    refine iff_of_false nofun fun hsource => ?_
    exact h.elim hsource.1.nonempty hsource.1.noNul
  · rename_i hinput
    split
    · rename_i h
      exact iff_of_false nofun fun hsource => Nat.not_le.mpr h hsource.1.short
    · rename_i hshort
      split
      · rename_i h
        refine iff_of_false nofun fun hsource => ?_
        rw [hsource.1.lineEnds] at h
        exact Bool.noConfusion h
      · rename_i hreturn
        split
        · rename_i h
          refine iff_of_false nofun fun hsource => ?_
          rcases h with h | h
          · rw [hsource.1.notBlank] at h
            exact Bool.noConfusion h
          · exact Nat.not_le.mpr h hsource.1.normalizedShort
        · rename_i hblank
          rw [not_or] at hinput hblank
          constructor
          · intro h
            cases h
            refine ⟨⟨hinput.1, hinput.2, Nat.not_lt.mp hshort, ?_, ?_, Nat.not_lt.mp hblank.2⟩, rfl⟩
            · exact Bool.eq_false_iff.mpr hreturn
            · exact Bool.eq_false_iff.mpr hblank.1
          · rintro ⟨-, htext⟩
            exact congrArg Except.ok (PromptBody.eq_of_text htext.symm)

theorem replaceCrlf_of_noReturn (h : 13 ∉ l) : replaceCrlf l = l := by
  induction l using replaceCrlf.induct with
  | case1 rest _ => exact absurd List.mem_cons_self h
  | case2 b rest hno ih =>
    rw [replaceCrlf, ih fun hmem => h (List.mem_cons_of_mem b hmem)]
    exact hno
  | case3 => rfl

theorem PromptBody.normalized (body : PromptBody) : normalizeBody body.text = body.text := by
  rw [normalizeBody, replaceCrlf_of_noReturn body.noReturn, body.trimmed]

theorem PromptBody.ne_nil (body : PromptBody) : body.text ≠ [] := by
  rw [← body.trimmed]
  simp

theorem PromptBody.source (body : PromptBody) (h : body.text.length ≤ maxBodyBytes) :
    BodySource body.text maxBodyBytes where
  nonempty := body.ne_nil
  noNul := body.noNul
  short := h
  lineEnds := by
    rw [replaceCrlf_of_noReturn body.noReturn]
    simpa using body.noReturn
  notBlank := by
    rw [body.normalized]
    exact body.notBlank
  normalizedShort := by rwa [body.normalized]

theorem PromptBody.parse_text (body : PromptBody) (h : body.text.length ≤ maxBodyBytes) :
    PromptBody.parse body.text maxBodyBytes = .ok body :=
  PromptBody.parse_eq_ok.mpr ⟨body.source h, body.normalized.symm⟩

end Bodies

section Commands

variable {name : PromptCommandName} {description : Option PromptDescription} {body text : Bytes}
  {maxBodyBytes : Nat} {mode : PromptArgumentMode} {command : PromptCommand}
  {dialect : NativePromptDialect} {parsed : ParsedDocument} {execution : Bool}

theorem PromptCommand.tryNew_eq_ok {body : PromptBody} :
    PromptCommand.tryNew name description body mode = .ok command ↔
      command.name = name ∧ command.description = description ∧ command.body = body ∧
        command.argumentMode = mode := by
  unfold PromptCommand.tryNew
  split
  · constructor
    · intro h
      cases h
      exact ⟨rfl, rfl, rfl, rfl⟩
    · obtain ⟨name, description, body, mode, contract⟩ := command
      rintro ⟨rfl, rfl, rfl, rfl⟩
      rfl
  · rename_i hno
    refine iff_of_false nofun ?_
    rintro ⟨-, -, rfl, rfl⟩
    exact hno command.contract

theorem portableCommand_eq_portable :
    portableCommand name description maxBodyBytes body mode = .portable command ↔
      command.name = name ∧ command.description = description ∧ command.argumentMode = mode ∧
        BodySource body maxBodyBytes ∧ command.body.text = normalizeBody body := by
  unfold portableCommand
  cases hbody : PromptBody.parse body maxBodyBytes with
  | error e =>
    refine iff_of_false nofun ?_
    rintro ⟨-, -, -, hsource⟩
    rw [PromptBody.parse_eq_ok.mpr hsource] at hbody
    exact (nomatch hbody)
  | ok parsedBody =>
    obtain ⟨hsource, htext⟩ := PromptBody.parse_eq_ok.mp hbody
    dsimp only
    cases hnew : PromptCommand.tryNew name description parsedBody mode with
    | error e =>
      refine iff_of_false nofun ?_
      rintro ⟨hname, hdescription, hmode, -, hcommand⟩
      have hsame : command.body = parsedBody := PromptBody.eq_of_text (hcommand.trans htext.symm)
      rw [PromptCommand.tryNew_eq_ok.mpr ⟨hname, hdescription, hsame, hmode⟩] at hnew
      exact (nomatch hnew)
    | ok made =>
      constructor
      · intro h
        cases h
        obtain ⟨hname, hdescription, hsame, hmode⟩ := PromptCommand.tryNew_eq_ok.mp hnew
        exact ⟨hname, hdescription, hmode, hsource, by rw [hsame, htext]⟩
      · rintro ⟨hname, hdescription, hmode, -, hcommand⟩
        have hsame : command.body = parsedBody := PromptBody.eq_of_text (hcommand.trans htext.symm)
        rw [PromptCommand.tryNew_eq_ok.mpr ⟨hname, hdescription, hsame, hmode⟩] at hnew
        cases hnew
        rfl

theorem normalizeArguments_eq_some : normalizeArguments dialect body = some (text, mode) ↔
    contains allArgumentsPlaceholder body = false ∧ text = substituteArguments dialect body ∧
      containsUnsupportedDollarSyntax text = false ∧
      contains allArgumentsPlaceholder text = decide (mode = .allArguments) := by
  unfold normalizeArguments
  cases hbody : contains allArgumentsPlaceholder body with
  | true => exact iff_of_false nofun fun h => Bool.noConfusion h.1
  | false =>
    simp only [Bool.false_eq_true, if_false, true_and]
    cases hdollar : containsUnsupportedDollarSyntax (substituteArguments dialect body) with
    | true =>
      refine iff_of_false nofun ?_
      rintro ⟨rfl, h, -⟩
      rw [hdollar] at h
      exact Bool.noConfusion h
    | false =>
      simp only [Bool.false_eq_true, if_false]
      cases hplaceholder : contains allArgumentsPlaceholder (substituteArguments dialect body) with
      | true =>
        simp only [if_true, Option.some.injEq, Prod.mk.injEq]
        constructor
        · rintro ⟨rfl, rfl⟩
          exact ⟨rfl, hdollar, hplaceholder⟩
        · rintro ⟨rfl, -, h⟩
          rw [hplaceholder] at h
          exact ⟨rfl, (of_decide_eq_true h.symm).symm⟩
      | false =>
        simp only [Bool.false_eq_true, if_false, Option.some.injEq, Prod.mk.injEq]
        constructor
        · rintro ⟨rfl, rfl⟩
          exact ⟨rfl, hdollar, hplaceholder⟩
        · rintro ⟨rfl, -, h⟩
          rw [hplaceholder] at h
          have hmode := of_decide_eq_false h.symm
          cases mode with
          | none => exact ⟨rfl, rfl⟩
          | allArguments => exact absurd rfl hmode

/-- A document's text that a dialect reads as the portable command. -/
structure Projects (dialect : NativePromptDialect) (parsed : ParsedDocument) (maxBodyBytes : Nat)
    (command : PromptCommand) : Prop where
  inert : recognizesShellInterpolation dialect parsed.body = false
  fileFree : dialect = .claudeLegacy → recognizesFileInterpolation parsed.body = false
  fields : hasUnsupportedFields dialect parsed.fields = false
  plain : contains allArgumentsPlaceholder parsed.body = false
  supported : containsUnsupportedDollarSyntax (substituteArguments dialect parsed.body) = false
  mode : contains allArgumentsPlaceholder (substituteArguments dialect parsed.body) =
    decide (command.argumentMode = .allArguments)
  explicit : ¬ (dialect.appendsImplicitArguments = true ∧ command.argumentMode = .none)
  source : BodySource (substituteArguments dialect parsed.body) maxBodyBytes
  description : command.description = parsed.description
  body : command.body.text = normalizeBody (substituteArguments dialect parsed.body)

theorem projectPortable_eq_portable :
    projectPortable dialect name parsed maxBodyBytes (recognizesShellInterpolation dialect parsed.body) =
        .portable command ↔
      command.name = name ∧ Projects dialect parsed maxBodyBytes command := by
  unfold projectPortable
  split
  · rename_i h
    refine iff_of_false nofun fun hprojects => ?_
    rw [hprojects.2.inert] at h
    exact Bool.noConfusion h
  · rename_i hinert
    split
    · rename_i h
      refine iff_of_false nofun fun hprojects => ?_
      have hfile := hprojects.2.fileFree h.1
      rw [h.2] at hfile
      exact Bool.noConfusion hfile
    · rename_i hfile
      split
      · rename_i h
        refine iff_of_false nofun fun hprojects => ?_
        rw [hprojects.2.fields] at h
        exact Bool.noConfusion h
      · rename_i hfields
        cases hnormal : normalizeArguments dialect parsed.body with
        | none =>
          refine iff_of_false nofun fun hprojects => ?_
          have hsome := normalizeArguments_eq_some.mpr
            ⟨hprojects.2.plain, rfl, hprojects.2.supported, hprojects.2.mode⟩
          rw [hnormal] at hsome
          exact (nomatch hsome)
        | some normalized =>
          obtain ⟨text, mode⟩ := normalized
          obtain ⟨hplain, rfl, hsupported, hmode⟩ := normalizeArguments_eq_some.mp hnormal
          have hsame : Projects dialect parsed maxBodyBytes command → command.argumentMode = mode := by
            intro hprojects
            have hboth := hprojects.mode.symm.trans hmode
            cases hleft : command.argumentMode <;> cases mode <;> simp [hleft] at hboth ⊢
          dsimp only
          split
          · rename_i h
            refine iff_of_false nofun fun hprojects => hprojects.2.explicit ⟨h.1, ?_⟩
            rw [hsame hprojects.2]
            exact h.2
          · rename_i hexplicit
            rw [portableCommand_eq_portable]
            constructor
            · rintro ⟨hname, hdescription, hargument, hsource, hbody⟩
              exact ⟨hname,
                { inert := Bool.eq_false_iff.mpr hinert
                  fileFree := fun hd => Bool.eq_false_iff.mpr fun hf => hfile ⟨hd, hf⟩
                  fields := Bool.eq_false_iff.mpr hfields
                  plain := hplain
                  supported := hsupported
                  mode := by rw [hmode, hargument]
                  explicit := by rwa [hargument]
                  source := hsource
                  description := hdescription
                  body := hbody }⟩
            · rintro ⟨hname, hprojects⟩
              exact ⟨hname, hprojects.description, hsame hprojects, hprojects.source, hprojects.body⟩

end Commands

end Kitrove.Prompts
