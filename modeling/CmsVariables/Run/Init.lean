import CmsVariables.Config.Printing
import CmsVariables.Run.Outcome

/-!
# Starting a project

Starting a project writes a config file with the default settings into the working directory, unless
there is one.
-/

namespace CmsVariables.Run

open Console

/-- The config file of the working directory. -/
def newConfigPath : Path := ⟨false, [configFileName]⟩

/-- Writes a config file with the default settings. -/
def init (d : Disk) : Outcome :=
  if d.exists? newConfigPath then
    ⟨.ok .workLeft, [], [[plain ("Error: " ++ configFileName ++ " already exists")]], d⟩
  else
    match d.writeFile newConfigPath (Config.render {}).toUTF8 with
    | .error e => ⟨.error (.configUnwritable e), [], [], d⟩
    | .ok d => ⟨.ok .done, [successLine ("Created " ++ configFileName)], [], d⟩

end CmsVariables.Run
