import Abacus.Tool.Source

/-!
# What an invocation looks at

The paths an invocation of the tool may follow are known before any of them is looked at, and so is
whether it reads standard input. Following a path looks at the places it passes and at no others.
-/
namespace Abacus

/-- The place one segment further. -/
def FileSystem.Place.next (place : FileSystem.Place) (segment : Bytes) : FileSystem.Place :=
  if segment = [] ∨ segment = Path.here then place
  else if segment = Path.above then place.dropLast
  else place ++ [segment]

/-- The places that following segments from a place passes, the last one included. -/
def FileSystem.passed : FileSystem.Place → List Bytes → List FileSystem.Place
  | place, [] => [place]
  | place, segment :: rest => place :: passed (place.next segment) rest

/-- The places that following a path passes. -/
def FileSystem.placesOn (fs : FileSystem) (p : Bytes) : List FileSystem.Place :=
  passed (fs.origin p) (Path.segments p)

namespace Tool

/-- Where a configuration may be found. -/
def configPaths (workingDirectory : Bytes) (s : CommandLine.Settings) : List Bytes :=
  if s.config ≠ [] then [s.config]
  else (Path.ancestors workingDirectory).map (Path.join · Config.fileName)

/-- The paths that an invocation may follow. -/
def consulted (workingDirectory : Bytes) : CommandLine.Request → List Bytes
  | .run command s arguments =>
    let source := arguments.headD []
    configPaths workingDirectory s ++
      match command with
      | .tokens | .disasm | .exec => [source]
      | .build => [source, if s.output = [] then artifactPath source else s.output]
      | .lsp | .help | .completion => []
  | _ => []

def readsInput : CommandLine.Request → Bool
  | .run command _ arguments =>
    (command = .tokens || command = .disasm || command = .build || command = .exec)
      && isStandardInput (arguments.headD [])
  | _ => false

end Tool

end Abacus
