import Foreman.Config.Basic
import Foreman.Config.DotEnv
import Foreman.Decimal.Power
import Foreman.Text.Integer
import Foreman.Text.Quoted
import Foreman.Text.Real

namespace Foreman

structure EnvironmentFault where
  summary : String
  cause : Option String
  deriving DecidableEq, Repr, Inhabited

def EnvironmentFault.message (f : EnvironmentFault) : String :=
  match f.cause with
  | none => f.summary
  | some cause => f.summary ++ ": " ++ cause

namespace Config

structure Setting where
  name : String
  apply : Config → String → Except String Config

namespace Setting

def ofNat (name : String) (bits : Nat) (f : Config → Nat → Config) : Setting where
  name := "JOB_ENGINE_" ++ name
  apply := fun c s => match Text.readNat (twos bits - 1) s with
    | .ok n => .ok (f c n)
    | .error fault => .error fault.message

def ofReal (name : String) (f : Config → Float → Config) : Setting where
  name := "JOB_ENGINE_" ++ name
  apply := fun c s => match Text.readReal s with
    | .ok x => .ok (f c x)
    | .error fault => .error fault.message

def ofText (name : String) (f : Config → String → Config) : Setting where
  name := "JOB_ENGINE_" ++ name
  apply := fun c s => .ok (f c s)

def all : List Setting := [
  ofNat "MAX_CONCURRENT" 32 (fun c n => { c with slots := some n }),
  ofNat "MAX_QUEUE_SIZE" 64 (fun c n => { c with queueCapacity := n }),
  ofNat "JOB_TTL_HOURS" 64 (fun c n => { c with ttlHours := n }),
  ofNat "MAX_RETRIES" 32 (fun c n => { c with maxRetries := n }),
  ofNat "POLL_INTERVAL_MS" 64 (fun c n => { c with pollMillis := n }),
  ofNat "MAINTENANCE_INTERVAL_SECS" 64 (fun c n => { c with upkeepSecs := n }),
  ofText "OUTPUT_DIR" (fun c s => { c with retention := { c.retention with outputDir := s } }),
  ofNat "RETENTION_AGE_HOURS" 64
    (fun c n => { c with retention := { c.retention with ageHours := n } }),
  ofReal "CLEANUP_THRESHOLD_PERCENT"
    (fun c x => { c with retention := { c.retention with threshold := x } }),
  ofNat "SWEEP_INTERVAL_SECS" 64
    (fun c n => { c with retention := { c.retention with intervalSecs := n } })]

-- A variable that is not there changes nothing. Blanks around a value do not matter.
def applyFrom (env : Environment) (c : Config) (setting : Setting) :
    Except EnvironmentFault Config :=
  match env.get? setting.name with
  | none => .ok c
  | some raw => match setting.apply c (Text.trim raw) with
    | .ok c => .ok c
    | .error cause =>
      .error ⟨"invalid value for " ++ setting.name ++ ": " ++ Text.quoted raw, some cause⟩

def applyAll (env : Environment) (c : Config) : List Setting → Except EnvironmentFault Config
  | [] => .ok c
  | setting :: rest => match applyFrom env c setting with
    | .error fault => .error fault
    | .ok c => applyAll env c rest

end Setting

def ofEnvironment (env : Environment) : Except EnvironmentFault Config :=
  match Setting.applyAll env standard Setting.all with
  | .error fault => .error fault
  | .ok c => match c.flaw? with
    | some flaw => .error ⟨flaw.message, none⟩
    | none => .ok c

end Config

end Foreman
