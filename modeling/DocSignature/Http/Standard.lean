import DocSignature.Http.App
import DocSignature.Http.Body
import DocSignature.JavaScript.Program

/-!
# The libraries of the program

`standard` is what the program works with: its own reader of JavaScript, settings from the
variables of the process alone, and bodies read as leniently as they are written. Nothing else
names these readers; what is said of sessions and servers is said of any `Libraries`.
-/

namespace DocSignature.Http

/-- What the program works with. -/
def standard : Libraries where
  parse := JavaScript.parse
  settings := Settings.read []
  query := Query.ofRequest

end DocSignature.Http
