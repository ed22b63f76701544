import HlsEmit.Digest
import HlsEmit.Model.Document

/-!
# Provenance of a model

What build systems keep beside the generated code: the digest of the model's canonical text, so
that models which differ only in their formatting agree, the number of functions, and the version
of the compiler.
-/

namespace HlsEmit

/-- The version that build information and the command line report. -/
def compilerVersion : String := "0.2.0"

/-- The SHA-256 digest of the canonical text, in hexadecimal. -/
def Module.hash (module : Module) : String :=
  Digest.hex (Digest.sha256 module.canonical.toUTF8.toList)

/-- The build information of a module, as an indented JSON text. -/
def Module.buildInfo (module : Module) : String :=
  (Json.object [
    ("model_hash", .text module.hash),
    ("functions", .integer module.functions.length),
    ("compiler_version", .text compilerVersion)]).pretty ++ "\n"

end HlsEmit
