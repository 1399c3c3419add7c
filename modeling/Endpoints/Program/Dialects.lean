import Endpoints.Decorator.Mapping
import Endpoints.Program.Basic
import Endpoints.Warning

/-! # Dialects that a program imports

The imports of a program show which dialects it uses. This only serves to warn of dialects that are
not active.
-/

namespace Endpoints

/-- Whether an import names a module or something inside it. -/
def importsModule (imported module : String) : Bool :=
  match Text.dropStart? module.toList imported.toList with
  | some [] => true
  | some (c :: _) => c == '/'
  | none => false

namespace Program

/-- Whether a program imports from a dialect. -/
def uses (program : Program) (dialect : Dialect) : Bool :=
  program.any fun file => file.content.imports.any fun imported =>
    dialect.modules.any (importsModule imported)

/-- The dialects that a program imports from. -/
def dialects (program : Program) : List Dialect :=
  Dialect.all.filter program.uses

/-- The dialects that a program imports from although they are not active. -/
def inactiveDialects (program : Program) (choice : DialectChoice) : List Dialect :=
  program.dialects.filter (!choice.isActive ·)

/-- The warnings of inactive dialects. -/
def dialectWarnings (program : Program) (choice : DialectChoice) : List Warning :=
  (program.inactiveDialects choice).map .inactiveDialect

end Program

end Endpoints
