import ApiCompiler.Fault
import ApiCompiler.Text.Blank

/-!
# Configuration — where secrets are stored

A secret of a connection is found under a path that names the application, the environment, the
API, the connection and the secret.
-/

namespace ApiCompiler

/-- The path of a secret, for an application whose id is known. -/
def secretPath (secret connection api environment app : String) : Except Fault String :=
  if Text.isBlankText app then .error (.invalidConfig "unable to read the app id")
  else .ok ("/amplify/" ++ app ++ "/" ++ environment ++ "/AMPLIFY_" ++ api ++ connection ++ "_"
    ++ secret)

end ApiCompiler
