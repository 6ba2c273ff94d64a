/-!
Why a run was cut off. Unlike a thrown value, none of these can be caught.
-/

namespace ScriptHost

inductive TerminationReason where
  | wallClockTimeout
  | memoryLimit
  | terminated
  deriving DecidableEq, Repr

namespace TerminationReason

def tag : TerminationReason → String
  | wallClockTimeout => "WallClockTimeout"
  | memoryLimit => "MemoryLimit"
  | terminated => "Terminated"

def all : List TerminationReason :=
  [wallClockTimeout, memoryLimit, terminated]

def ofTag? (s : String) : Option TerminationReason :=
  all.find? fun reason => reason.tag == s

def isLimitExceeded : TerminationReason → Bool
  | wallClockTimeout | memoryLimit => true
  | terminated => false

def isRequested : TerminationReason → Bool
  | terminated => true
  | _ => false

def description : TerminationReason → String
  | wallClockTimeout => "Script exceeded wall-clock time limit"
  | memoryLimit => "Script exceeded memory limit"
  | terminated => "Script execution was terminated"

end TerminationReason

end ScriptHost
