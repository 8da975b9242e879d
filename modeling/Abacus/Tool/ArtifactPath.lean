import Abacus.Path

/-!
# Names of sources and artifacts

No path, or a dash, stands for standard input. A file is taken for an artifact by its extension, in
any case. An artifact goes next to its source, with that extension in place of the source's own.
-/
namespace Abacus.Tool

def artifactExtension : Bytes := text ".dbc"

def isStandardInput (p : Bytes) : Bool := p = [] || p = text "-"

/-- Whether a file holds an encoded chunk instead of source. -/
def isArtifact (p : Bytes) : Bool := Bytes.toLower (Path.extension p) = artifactExtension

def artifactPath (source : Bytes) : Bytes :=
  if isStandardInput source then text "out" ++ artifactExtension
  else Path.withoutExtension source ++ artifactExtension

def title (p : Bytes) : Bytes := if isStandardInput p then text "<stdin>" else Path.fileName p

/-- Whether input and output are the same file, however they are written. Standard input never is
the output. -/
def isSameFile (workingDirectory input output : Bytes) : Bool :=
  !isStandardInput input
    && Path.absolute workingDirectory input = Path.absolute workingDirectory output

end Abacus.Tool
