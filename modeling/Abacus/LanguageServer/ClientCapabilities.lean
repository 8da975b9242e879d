import Abacus.Json.Shape

/-!
# Client capabilities

In the handshake an editor tells what it can do. The server makes no use of that, but it refuses
an editor whose statement does not have the shape that the protocol, in version 3.16, prescribes.
-/
namespace Abacus.ClientCapabilities

open JsonShape

/-- Members that are on or off. -/
def switches (names : List String) : List (String × JsonShape) := names.map fun name => (name, bool)

/-- A feature with nothing but switches. -/
def switched (names : List String) : JsonShape := record (switches names)

/-- A feature that can be registered later and has no other choices. -/
def registered : JsonShape := switched ["dynamicRegistration"]

/-- A feature that may answer with links in place of locations. -/
def linked : JsonShape := switched ["dynamicRegistration", "linkSupport"]

def strings : JsonShape := list string

/-- The kinds or tags that the editor knows, by their numbers. -/
def knownNumbers : JsonShape := record [("valueSet", list signed32)]

/-- The properties that the editor can ask for later. -/
def resolvable : JsonShape := record [("properties", strings)]

/-- A component of the editor and its version. -/
def component (name : String) : JsonShape := record [(name, string), ("version", string)]

/-! ## Workspace -/

def workspaceEdit : JsonShape :=
  record (switches ["documentChanges", "normalizesLineEndings"] ++
    [("resourceOperations", strings), ("failureHandling", string),
     ("changeAnnotationSupport", switched ["groupsOnLabel"])])

def workspaceSymbol : JsonShape :=
  record (switches ["dynamicRegistration"] ++
    [("symbolKind", knownNumbers), ("tagSupport", knownNumbers)])

def fileOperations : JsonShape :=
  switched ["dynamicRegistration", "didCreate", "willCreate", "didRename", "willRename",
    "didDelete", "willDelete"]

def workspace : JsonShape :=
  record (switches ["applyEdit", "workspaceFolders", "configuration"] ++
    [("workspaceEdit", workspaceEdit), ("didChangeConfiguration", registered),
     ("didChangeWatchedFiles", registered), ("symbol", workspaceSymbol),
     ("executeCommand", registered), ("semanticTokens", switched ["refreshSupport"]),
     ("codeLens", switched ["refreshSupport"]), ("fileOperations", fileOperations)])

/-! ## Documents -/

def synchronization : JsonShape :=
  switched ["dynamicRegistration", "willSave", "willSaveWaitUntil", "didSave"]

def completionItem : JsonShape :=
  record (switches ["snippetSupport", "commitCharactersSupport", "deprecatedSupport",
      "preselectSupport", "insertReplaceSupport"] ++
    [("documentationFormat", strings), ("tagSupport", knownNumbers),
     ("resolveSupport", resolvable), ("insertTextModeSupport", knownNumbers)])

def completion : JsonShape :=
  record (switches ["dynamicRegistration", "contextSupport"] ++
    [("completionItem", completionItem), ("completionItemKind", knownNumbers)])

def hover : JsonShape :=
  record (switches ["dynamicRegistration"] ++ [("contentFormat", strings)])

def signatureInformation : JsonShape :=
  record (switches ["activeParameterSupport"] ++
    [("documentationFormat", strings), ("parameterInformation", switched ["labelOffsetSupport"])])

def signatureHelp : JsonShape :=
  record (switches ["dynamicRegistration", "contextSupport"] ++
    [("signatureInformation", signatureInformation)])

def documentSymbol : JsonShape :=
  record (switches ["dynamicRegistration", "hierarchicalDocumentSymbolSupport", "labelSupport"] ++
    [("symbolKind", knownNumbers), ("tagSupport", knownNumbers)])

def codeAction : JsonShape :=
  record (switches ["dynamicRegistration", "isPreferredSupport", "disabledSupport", "dataSupport",
      "honorsChangeAnnotations"] ++
    [("codeActionLiteralSupport",
       record [("codeActionKind", record [("valueSet", strings)])]),
     ("resolveSupport", resolvable)])

def rename : JsonShape :=
  record (switches ["dynamicRegistration", "prepareSupport", "honorsChangeAnnotations"] ++
    [("prepareSupportDefaultBehavior", signed32)])

def publishDiagnostics : JsonShape :=
  record (switches ["relatedInformation", "versionSupport", "codeDescriptionSupport",
      "dataSupport"] ++
    [("tagSupport", knownNumbers)])

def foldingRange : JsonShape :=
  record (switches ["dynamicRegistration", "lineFoldingOnly"] ++ [("rangeLimit", unsigned32)])

/-- The requests for tokens are switched on by a truth value or by an object. -/
def semanticTokens : JsonShape :=
  record (switches ["dynamicRegistration", "overlappingTokenSupport", "multilineTokenSupport"] ++
    [("requests",
       record
         [("range", latest (either bool (record []))),
          ("full", latest (either bool (switched ["delta"])))]),
     ("tokenTypes", strings), ("tokenModifiers", strings), ("formats", strings)])

def textDocument : JsonShape :=
  record
    [("synchronization", synchronization), ("completion", completion), ("hover", hover),
     ("signatureHelp", signatureHelp), ("declaration", linked), ("definition", linked),
     ("typeDefinition", linked), ("implementation", linked), ("references", registered),
     ("documentHighlight", registered), ("documentSymbol", documentSymbol),
     ("codeAction", codeAction), ("codeLens", registered),
     ("documentLink", switched ["dynamicRegistration", "tooltipSupport"]),
     ("colorProvider", registered), ("formatting", registered), ("rangeFormatting", registered),
     ("onTypeFormatting", registered), ("rename", rename),
     ("publishDiagnostics", publishDiagnostics), ("foldingRange", foldingRange),
     ("selectionRange", registered), ("linkedEditingRange", registered),
     ("callHierarchy", registered), ("semanticTokens", semanticTokens), ("moniker", registered)]

/-! ## Window and the editor as a whole -/

def window : JsonShape :=
  record (switches ["workDoneProgress"] ++
    [("showMessage", record [("messageActionItem", switched ["additionalPropertiesSupport"])]),
     ("showDocument", switched ["support"])])

def general : JsonShape :=
  record [("regularExpressions", component "engine"), ("markdown", component "parser")]

def shape : JsonShape :=
  record [("workspace", workspace), ("textDocument", textDocument), ("window", window),
    ("general", general), ("experimental", anything)]

end Abacus.ClientCapabilities
