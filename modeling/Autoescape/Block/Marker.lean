/-!
# The lines around generated code

A generated block begins and ends with a line of its own, by which it is found again.
-/
namespace Autoescape.Block

def startMarker : String := "// START GENERATED CODE FOR ESCAPERS."

def endMarker : String := "// END GENERATED CODE"

end Autoescape.Block
