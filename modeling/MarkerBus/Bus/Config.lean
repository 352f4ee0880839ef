import MarkerBus.Bus.UniqueId
import MarkerBus.Environment
import MarkerBus.Numeral

namespace MarkerBus.Bus

structure Config where
  base : String
  directory : String := ".hoodie/.aux/ckp_meta"
  uniqueId : String := ""
  limit : Nat := 3
deriving DecidableEq, Repr

namespace Config

def path (config : Config) : String :=
  let root :=
    if config.base = "" ∨ config.base.toList.getLast? = some '/' then config.base
    else config.base ++ "/"
  let suffix := if config.uniqueId = "" then "" else "_" ++ config.uniqueId
  root ++ config.directory ++ suffix

def Valid (config : Config) : Prop :=
  config.base ≠ "" ∧ config.directory ≠ "" ∧ 1 ≤ config.limit ∧ '/' ∉ config.uniqueId.toList

instance (config : Config) : Decidable config.Valid :=
  inferInstanceAs (Decidable (_ ∧ _ ∧ _ ∧ _))

inductive EnvironmentDefect where
  | unreadableLimit (defect : Numeral.Defect)
  | limitBelowOne (text : String)
deriving DecidableEq, Repr

def EnvironmentDefect.message : EnvironmentDefect → String
  | .unreadableLimit .noDigits => "CKPBUS_MAX_RETAINED_INSTANTS is not a number"
  | .unreadableLimit .outOfRange => "CKPBUS_MAX_RETAINED_INSTANTS is out of range"
  | .limitBelowOne text => "CKPBUS_MAX_RETAINED_INSTANTS must be at least 1, got " ++ text

def limitOf (text : String) : Except EnvironmentDefect Nat :=
  match Numeral.signed text with
  | .error defect => .error (.unreadableLimit defect)
  | .ok number => if number < 1 then .error (.limitBelowOne text) else .ok number.toNat

/-- The default configuration, with the unique id and the limit that the
environment gives. -/
def ofEnvironment (environment : Environment) (base : String) :
    Except EnvironmentDefect Config := do
  let config : Config := { base }
  let config := match environment.value? "CKPBUS_UNIQUE_ID" with
    | some uniqueId => { config with uniqueId }
    | none => config
  match environment.value? "CKPBUS_MAX_RETAINED_INSTANTS" with
  | some text => return { config with limit := ← limitOf text }
  | none => return config

def withRandomId (config : Config) (high low : Nat) : Config :=
  { config with uniqueId := UniqueId.ofRandom high low }

end Config

end MarkerBus.Bus
