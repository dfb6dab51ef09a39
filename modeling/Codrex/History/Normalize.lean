import Codrex.Lib.Text

/-!
# Response items (`protocol/src/models.rs`)
-/

namespace Codrex.History

open Text

inductive ImageDetail
  | auto
  | low
  | high
  | original
  deriving DecidableEq

inductive ContentItem
  | inputText (text : Str)
  | inputImage (imageUrl : Str) (detail : Option ImageDetail)
  | outputText (text : Str)
  deriving DecidableEq

inductive FunctionCallOutputContentItem
  | inputText (text : Str)
  | inputImage (imageUrl : Str) (detail : Option ImageDetail)
  deriving DecidableEq

inductive FunctionCallOutputBody
  | text (content : Str)
  | contentItems (items : List FunctionCallOutputContentItem)
  deriving DecidableEq

structure FunctionCallOutputPayload where
  body : FunctionCallOutputBody
  success : Option Bool
  deriving DecidableEq

def FunctionCallOutputPayload.fromText (content : Str) : FunctionCallOutputPayload := ⟨.text content, none⟩

inductive MessagePhase
  | commentary
  | finalAnswer
  deriving DecidableEq

/-- The JSON values of a tool search are kept as their text. -/
inductive ResponseItem
  | message (id : Option Str) (role : Str) (content : List ContentItem) (phase : Option MessagePhase)
  | reasoning (id : Str) (encryptedContent : Option Str)
  | localShellCall (id callId : Option Str)
  | functionCall (id : Option Str) (name : Str) (space : Option Str) (arguments callId : Str)
  | toolSearchCall (id callId status : Option Str) (execution arguments : Str)
  | functionCallOutput (callId : Str) (output : FunctionCallOutputPayload)
  | customToolCall (id status : Option Str) (callId name input : Str)
  | customToolCallOutput (callId : Str) (name : Option Str) (output : FunctionCallOutputPayload)
  | toolSearchOutput (callId : Option Str) (status execution : Str) (tools : List Str)
  | webSearchCall (id status : Option Str)
  | imageGenerationCall (id status : Str) (revisedPrompt : Option Str) (result : Str)
  | ghostSnapshot (ghostCommit : Str)
  | compaction (encryptedContent : Str)
  | other
  deriving DecidableEq

inductive InputModality
  | text
  | image
  deriving DecidableEq

end Codrex.History

/-!
## Normalising a history (`core/src/context_manager/normalize.rs`)

`error_or_panic` only logs in a release build and is left out.
-/

namespace Codrex.History

open Text

def imageContentOmittedPlaceholder : Str := "image content omitted because you do not support image input"

/-! ## Calls without an output -/

def isFunctionCallOutputFor (callId : Str) : ResponseItem → Bool
  | .functionCallOutput existing _ => existing = callId
  | _ => false

def isToolSearchOutputFor (callId : Str) : ResponseItem → Bool
  | .toolSearchOutput (some existing) _ _ _ => existing = callId
  | _ => false

def isCustomToolCallOutputFor (callId : Str) : ResponseItem → Bool
  | .customToolCallOutput existing _ _ => existing = callId
  | _ => false

/-- The synthetic output that one turn of the loop adds for an item. -/
def missingOutput (items : List ResponseItem) : ResponseItem → Option ResponseItem
  | .functionCall _ _ _ _ callId =>
      if items.any (isFunctionCallOutputFor callId) then none
      else some (.functionCallOutput callId (.fromText "aborted"))
  | .toolSearchCall _ (some callId) _ _ _ =>
      if items.any (isToolSearchOutputFor callId) then none
      else some (.toolSearchOutput (some callId) "completed" "client" [])
  | .customToolCall _ _ callId _ _ =>
      if items.any (isCustomToolCallOutputFor callId) then none
      else some (.customToolCallOutput callId none (.fromText "aborted"))
  | .localShellCall _ (some callId) =>
      if items.any (isFunctionCallOutputFor callId) then none
      else some (.functionCallOutput callId (.fromText "aborted"))
  | _ => none

def missingOutputsToInsert (items : List ResponseItem) : List (Nat × ResponseItem) :=
  items.zipIdx.filterMap fun (item, idx) => (missingOutput items item).map fun output => (idx, output)

/-- The synthetic outputs are inserted in reverse order, so that no index shifts. -/
def ensureCallOutputsPresent (items : List ResponseItem) : List ResponseItem :=
  (missingOutputsToInsert items).reverse.foldl (fun items (idx, output) => items.insertIdx (idx + 1) output) items

/-! ## Outputs without a call -/

def functionCallIds (items : List ResponseItem) : List Str :=
  items.filterMap fun item => match item with
    | .functionCall _ _ _ _ callId => some callId
    | _ => none

def toolSearchCallIds (items : List ResponseItem) : List Str :=
  items.filterMap fun item => match item with
    | .toolSearchCall _ callId _ _ _ => callId
    | _ => none

def localShellCallIds (items : List ResponseItem) : List Str :=
  items.filterMap fun item => match item with
    | .localShellCall _ callId => callId
    | _ => none

def customToolCallIds (items : List ResponseItem) : List Str :=
  items.filterMap fun item => match item with
    | .customToolCall _ _ callId _ _ => some callId
    | _ => none

/-- Whether `retain` keeps an item. -/
def hasMatch (items : List ResponseItem) : ResponseItem → Bool
  | .functionCallOutput callId _ =>
      (functionCallIds items).contains callId || (localShellCallIds items).contains callId
  | .customToolCallOutput callId _ _ => (customToolCallIds items).contains callId
  | .toolSearchOutput callId _ execution _ =>
      if execution = "server".toList then true
      else match callId with
        | some callId => (toolSearchCallIds items).contains callId
        | none => true
  | _ => true

def removeOrphanOutputs (items : List ResponseItem) : List ResponseItem := items.filter (hasMatch items)

/-! ## The counterpart of an item -/

def isFunctionCallFor (callId : Str) : ResponseItem → Bool
  | .functionCall _ _ _ _ existing => existing = callId
  | _ => false

def isLocalShellCallFor (callId : Str) : ResponseItem → Bool
  | .localShellCall _ (some existing) => existing = callId
  | _ => false

def isToolSearchCallFor (callId : Str) : ResponseItem → Bool
  | .toolSearchCall _ (some existing) _ _ _ => existing = callId
  | _ => false

def isCustomToolCallFor (callId : Str) : ResponseItem → Bool
  | .customToolCall _ _ existing _ _ => existing = callId
  | _ => false

def removeFirstMatching (items : List ResponseItem) (predicate : ResponseItem → Bool) : List ResponseItem :=
  items.eraseP predicate

def removeCorrespondingFor (items : List ResponseItem) : ResponseItem → List ResponseItem
  | .functionCall _ _ _ _ callId => removeFirstMatching items (isFunctionCallOutputFor callId)
  | .functionCallOutput callId _ =>
      if items.any (isFunctionCallFor callId) then removeFirstMatching items (isFunctionCallFor callId)
      else removeFirstMatching items (isLocalShellCallFor callId)
  | .toolSearchCall _ (some callId) _ _ _ => removeFirstMatching items (isToolSearchOutputFor callId)
  | .toolSearchOutput (some callId) _ _ _ => removeFirstMatching items (isToolSearchCallFor callId)
  | .customToolCall _ _ callId _ _ => removeFirstMatching items (isCustomToolCallOutputFor callId)
  | .customToolCallOutput callId _ _ => removeFirstMatching items (isCustomToolCallFor callId)
  | .localShellCall _ (some callId) => removeFirstMatching items (isFunctionCallOutputFor callId)
  | _ => items

/-! ## Images -/

def ContentItem.stripImage : ContentItem → ContentItem
  | .inputImage _ _ => .inputText imageContentOmittedPlaceholder
  | item => item

def FunctionCallOutputContentItem.stripImage : FunctionCallOutputContentItem → FunctionCallOutputContentItem
  | .inputImage _ _ => .inputText imageContentOmittedPlaceholder
  | item => item

def FunctionCallOutputPayload.stripImages (output : FunctionCallOutputPayload) : FunctionCallOutputPayload :=
  match output.body with
  | .contentItems items => { output with body := .contentItems (items.map (·.stripImage)) }
  | .text _ => output

def ResponseItem.stripImages : ResponseItem → ResponseItem
  | .message id role content phase => .message id role (content.map (·.stripImage)) phase
  | .functionCallOutput callId output => .functionCallOutput callId output.stripImages
  | .customToolCallOutput callId name output => .customToolCallOutput callId name output.stripImages
  | .imageGenerationCall id status revisedPrompt _ => .imageGenerationCall id status revisedPrompt []
  | item => item

def stripImagesWhenUnsupported (inputModalities : List InputModality) (items : List ResponseItem) :
    List ResponseItem :=
  if .image ∈ inputModalities then items else items.map (·.stripImages)

/-! ## The whole normalisation (`core/src/context_manager/history.rs`) -/

def normalizeHistory (inputModalities : List InputModality) (items : List ResponseItem) : List ResponseItem :=
  stripImagesWhenUnsupported inputModalities (removeOrphanOutputs (ensureCallOutputsPresent items))

def ResponseItem.isGhostSnapshot : ResponseItem → Bool
  | .ghostSnapshot _ => true
  | _ => false

def forPrompt (inputModalities : List InputModality) (items : List ResponseItem) : List ResponseItem :=
  (normalizeHistory inputModalities items).filter fun item => !item.isGhostSnapshot

end Codrex.History
