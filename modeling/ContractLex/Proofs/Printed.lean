import ContractLex.Command.Run

/-!
# What the command prints

The log goes to the error output, so that the output has the printed lines of the batch and nothing
else (`lexAll_out`). The exit code tells whether there was a file and none failed (`lexAll_exit`).
-/

namespace ContractLex

/-- The text that actions put on the output. -/
def Batch.printed : List Action → String
  | [] => ""
  | .print text :: rest => text ++ "\n" ++ printed rest
  | _ :: rest => printed rest

theorem Batch.printed_append (actions rest : List Action) :
    printed (actions ++ rest) = printed actions ++ printed rest := by
  induction actions with
  | nil => simp [printed]
  | cons action actions ih =>
      cases action <;> simp [printed, ih, String.append_assoc]

/-! ## The journal -/

namespace Journal

variable {j k l : Journal} {min : Level}

/-- The text on the output so far. -/
def out (j : Journal) : String := Command.outputText false j.lines false

/-- The service stays, and a text is put on the output. -/
structure Puts (j k : Journal) (text : String) : Prop where
  service : k.service = j.service
  out : k.out = j.out ++ text

theorem Puts.refl (j : Journal) : Puts j j "" := ⟨rfl, by simp⟩

theorem Puts.trans {text text' : String} (h : Puts j k text) (h' : Puts k l text') :
    Puts j l (text ++ text') :=
  ⟨h'.service.trans h.service, by rw [h'.out, h.out, String.append_assoc]⟩

theorem Puts.after {text : String} (h : Puts j k "") (h' : Puts k l text) : Puts j l text := by
  simpa using h.trans h'

theorem puts_out (j : Journal) (text : String) : Puts j (j.put .out text) (text ++ "\n") :=
  ⟨rfl, by simp [out, put, Command.outputText, String.append_assoc]⟩

theorem puts_of_ne (j : Journal) (channel : Channel) (h : channel ≠ .out) (text : String) :
    Puts j (j.put channel text) "" := by
  refine ⟨rfl, ?_⟩
  cases channel with
  | out => exact absurd rfl h
  | err => simp [out, put, Command.outputText]
  | backend level => simp [out, put, Command.outputText]

theorem puts_offer (j : Journal) (level : Level) (text : String) :
    Puts j (j.offer level text) "" := by
  rw [offer]
  split
  · exact puts_of_ne j (.backend level) nofun text
  · exact .refl j

theorem puts_collect (j : Journal) (e : Event) : Puts j (j.collect e) "" := by
  rw [collect]
  split
  · split
    · exact ⟨rfl, by simp [out]⟩
    · exact .refl j
  · exact .refl j

/-- The log does not go to the output. -/
theorem puts_log (h : j.service = some ⟨.facade, min⟩) (e : Event) : Puts j (j.log e) "" := by
  simp only [log, h, deliver]
  have hcollect := puts_collect j (j.withFile e)
  split
  · exact hcollect.after (puts_offer _ _ _)
  · exact hcollect

theorem puts_logAll (h : j.service = some ⟨.facade, min⟩) (es : List Event) :
    Puts j (j.logAll es) "" := by
  induction es generalizing j with
  | nil => exact .refl j
  | cons e es ih =>
      have hfirst := puts_log h e
      exact hfirst.after (ih (hfirst.service.trans h))

theorem puts_act (h : j.service = some ⟨.facade, min⟩) (action : Action) :
    Puts j (j.act action) (Batch.printed [action]) := by
  cases action with
  | log e => exact puts_log h e
  | print text =>
      rw [Batch.printed, Batch.printed, String.append_empty]
      exact puts_out j text
  | complain text => exact puts_of_ne j .err nofun text
  | enter path id => exact ⟨rfl, by simp [out, act, enter, Batch.printed]⟩
  | leave => exact ⟨rfl, by simp [out, act, leave, Batch.printed]⟩

theorem puts_actAll (h : j.service = some ⟨.facade, min⟩) (actions : List Action) :
    Puts j (j.actAll actions) (Batch.printed actions) := by
  induction actions generalizing j with
  | nil => exact .refl j
  | cons action actions ih =>
      have hfirst := puts_act h action
      rw [← List.singleton_append, Batch.printed_append]
      exact hfirst.trans (ih (hfirst.service.trans h))

end Journal

/-! ## The command -/

namespace Command

/-- Colours are for the error output. -/
theorem out_finish (env : Environment) (exit : Nat) (j : Journal) (files : Files) :
    (finish env exit j files).out = j.out := by
  simp only [finish, Journal.out, outputText]
  refine congrArg (fun line => j.lines.foldl line "") (funext fun text => funext fun line => ?_)
  cases line.channel <;> rfl

theorem puts_warnings (warnings : List String) (j : Journal) :
    Journal.Puts j (warnings.foldl (fun j text => j.put .err text) j) "" := by
  induction warnings generalizing j with
  | nil => exact .refl j
  | cons text warnings ih => exact (Journal.puts_of_ne j .err nofun text).after (ih _)

/-- The journal of the command starts with nothing on the output. -/
theorem puts_journalFor (settings : Settings) (env : Environment) :
    (journalFor settings env).service = some ⟨.facade, settings.logging.minLevel⟩
      ∧ (journalFor settings env).out = "" := by
  let filter := Filter.ofEnvironment env settings.logging.minLevel
  let fresh : Journal := {
    defaults := env.logging
    installed := some settings.logging
    service := some { sink := .facade, min := settings.logging.minLevel }
    backend := filter.backend }
  have hputs : Journal.Puts fresh (journalFor settings env) "" :=
    (puts_warnings filter.warnings fresh).after (Journal.puts_offer _ _ _)
  exact ⟨hputs.service, hputs.out⟩

variable (a : Arguments) (env : Environment) (settings : Settings) (files : Files)

/-- The source files that the command finds. -/
def found : List Path := (Discovery.sources files a.paths).1

/-- How the command makes dumps. -/
def mode : Batch.Mode := ⟨settings.output.format, a.toOutput, settings.output.writeEmpty⟩

/-- The batch that the command works on. -/
def batch : Batch.Progress :=
  Batch.run (mode a settings) { files, lexer := { settings := settings.lexical } } 0 (found a files)

/-- What is left in the journal, but for what goes to the error output at the end. -/
def journalAfter (j : Journal) : Journal :=
  ((j.logAll (Discovery.sources files a.paths).2).actAll (batch a settings files).actions).log
    (batch a settings files).closing

theorem lexAll_of_nil (h : found a files = []) (j : Journal) :
    lexAll a env settings j files =
      let j := j.logAll (Discovery.sources files a.paths).2
      finish env 1 (j.put .err "Error: no .spc files found") files := by
  have hempty : (Discovery.sources files a.paths).1.isEmpty = true := by
    rw [List.isEmpty_iff]
    exact h
  simp only [lexAll, hempty, if_true]

theorem lexAll_of_ne_nil (h : found a files ≠ []) (j : Journal) :
    lexAll a env settings j files =
      let k := journalAfter a settings files j
      if 0 < (batch a settings files).failed then
        finish env 1 (k.put .err k.collector.report) (batch a settings files).files
      else finish env 0 k (batch a settings files).files := by
  have hempty : (Discovery.sources files a.paths).1.isEmpty = false := by
    rw [List.isEmpty_eq_false_iff]
    exact h
  simp only [lexAll, hempty, Bool.false_eq_true, if_false]
  rfl

theorem batch_of_nil (h : found a files = []) :
    batch a settings files = { files, lexer := { settings := settings.lexical } } := by
  rw [batch, h, Batch.run]

/-- The command leaves the files of its batch. -/
theorem lexAll_files (j : Journal) :
    (lexAll a env settings j files).files = (batch a settings files).files := by
  by_cases h : found a files = []
  · rw [lexAll_of_nil a env settings files h, batch_of_nil a settings files h]
    rfl
  · rw [lexAll_of_ne_nil a env settings files h]
    dsimp only
    split <;> rfl

/-- The output has what the batch prints, and nothing of the log. -/
theorem lexAll_out : (lexAll a env settings (journalFor settings env) files).out =
    Batch.printed (batch a settings files).actions := by
  obtain ⟨hservice, hout⟩ := puts_journalFor settings env
  have hfound := Journal.puts_logAll hservice (Discovery.sources files a.paths).2
  by_cases h : found a files = []
  · have herror := hfound.after (Journal.puts_of_ne _ .err nofun "Error: no .spc files found")
    rw [lexAll_of_nil a env settings files h, batch_of_nil a settings files h, out_finish,
      herror.out, hout]
    rfl
  · have hactions := hfound.after
      (Journal.puts_actAll (hfound.service.trans hservice) (batch a settings files).actions)
    have hclosing := hactions.trans
      (Journal.puts_log (hactions.service.trans hservice) (batch a settings files).closing)
    have hafter : (journalAfter a settings files (journalFor settings env)).out =
        Batch.printed (batch a settings files).actions := by
      rw [journalAfter, hclosing.out, hout, String.empty_append, String.append_empty]
    rw [lexAll_of_ne_nil a env settings files h]
    dsimp only
    split
    · rw [out_finish, (Journal.puts_of_ne _ .err nofun _).out, hafter, String.append_empty]
    · rw [out_finish, hafter]

end Command

end ContractLex
