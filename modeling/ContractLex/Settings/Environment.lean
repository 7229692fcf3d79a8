import ContractLex.Settings.Basic

/-!
# Settings from the environment

Variables of the environment give the values that hold where nothing else says otherwise. A variable
that cannot be read counts as absent.
-/

namespace ContractLex

abbrev Environment := List (String × String)

namespace Environment

/-- Reads a flag, which is spelled `true` or `false` and in no other way. -/
def flag (env : Environment) (name : String) (default : Bool) : Bool :=
  match env.lookup name with
  | some "true" => true
  | some "false" => false
  | _ => default

def lexical (env : Environment) : LexicalSettings where
  carryComments := env.flag "SPECULA_CARRY_BLOCK_COMMENTS" false
  logDiagnostics := env.flag "SPECULA_LOG_DIAGNOSTICS" true
  collectMetrics := env.flag "SPECULA_COLLECT_METRICS" true

def logging (env : Environment) : LoggingSettings where
  structured := env.flag "SPECULA_STRUCTURED_LOGGING" false
  console := env.flag "SPECULA_CONSOLE_LOGGING" false
  minLevel := ((env.lookup "SPECULA_LOG_LEVEL").bind Level.parse?).getD .warning
  fileContext := env.flag "SPECULA_INCLUDE_FILE_CONTEXT" true

def formatVariable : String := "SPECULA_OUTPUT_FORMAT"

def output (env : Environment) : OutputSettings where
  format := ((env.lookup formatVariable).bind OutputFormat.parse?).getD .plain
  writeEmpty := env.flag "SPECULA_WRITE_EMPTY" false

def settings (env : Environment) : Settings := ⟨env.lexical, env.logging, env.output⟩

/-- Where the environment says nothing, the settings are those given with their fields. -/
theorem settings_nil : settings [] = {} := by decide

end Environment

end ContractLex
