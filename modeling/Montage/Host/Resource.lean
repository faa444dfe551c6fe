/-
The resources of a host: its project files, each with a summary.
-/
import Montage.Host.Address
import Montage.Host.Call

namespace Montage

/-- A resource, as the host lists it. -/
structure Resource where
  address : String
  name : String
  description : String
deriving DecidableEq, Repr

namespace Resource

/-- The media type of all resources. -/
def mediaType : String := "application/json"

/-- The resource for a project file. -/
def ofPath (text : String) : Resource :=
  let p := Path.resolve ⟨[]⟩ text
  { address := Address.ofPath text, name := p.stem, description := "Video project: " ++ p.name }

/-- The resource as a value. -/
def toValue (r : Resource) : Value :=
  .object [
    ("uri", .text r.address), ("name", .text r.name), ("description", .text r.description),
    ("mimeType", .text mediaType)]

end Resource

namespace Host

/-- The project files of the host. -/
def resources (h : Host) (fs : FileSystem) : List Resource :=
  (Files.projectFiles fs (h.home.resolve h.projects)).map Resource.ofPath

/-- The project at a path, or the text that tells why it cannot be read. -/
def loadOrExplain (h : Host) (fs : FileSystem) (raw : String) :
    Except Fault (String ⊕ Project) :=
  let loaded := do
    let (_, file) ← Files.existing fs h.home Files.projectSuffixes (.text raw)
    Files.load file
  match loaded with
  | .ok p => .ok (.inr p)
  | .error (.fileNotFound m) => .ok (.inl m)
  | .error f =>
    match f.badValue? with
    | some m => .ok (.inl m)
    | none => .error f

/-- The summary of the project at an address. -/
def readResource (h : Host) (fs : FileSystem) (address : String) : Except Fault String := do
  let raw := Text.replace address Address.scheme ""
  match ← h.loadOrExplain fs raw with
  | .inl reason => return reason
  | .inr p => return (← p.summary) ++ "\nPath: " ++ raw

end Host

end Montage
