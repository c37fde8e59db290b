import Autoescape.Directive.Basic
import Autoescape.Text.Case

/-!
# Names of directives

The bars in front of a name belong to the template syntax. The rest identifies the directive: it
names the helper as it stands, and the tables, matchers and filters in capitals.
-/
namespace Autoescape.Directive

/-- The name without the bars in front. -/
def identifier (d : Directive) : String := String.ofList (d.name.toList.dropWhile (· = '|'))

/-- The name under which the directive owns what it shares with others. -/
def owner (d : Directive) : String := String.ofList (Text.Case.underscored d.identifier.toList)

end Autoescape.Directive
