import SignalMap.FilePath

/-!
The environment of a run. A variable that is set to blanks counts as not set.
-/

namespace SignalMap

abbrev Environment := List (String × String)

namespace Environment

def nonblank? (env : Environment) (name : String) : Option String :=
  (env.lookup name).filter fun text => !Text.isBlankText text

/-- The home directory; without one the tilde stands for itself. -/
def home (env : Environment) : FilePath :=
  ⟨(env.lookup "HOME").getD "~"⟩

end Environment

end SignalMap
