import Checkpoint.Pickle.Graph
/-!
Modules: trees of named parts with named tensors.  The state of a module is the list of its saved
tensors, where a part's names follow the part's own; with it goes one version for each part.
-/

namespace Checkpoint

inductive Module
  /-- Transient tensors belong to a module and are not saved with it. -/
  | node (parameters buffers transient : List (Text × Tensor)) (children : List (Text × Module))
  deriving Inhabited

namespace Module

def separator : Text := "."

mutual

/-- The saved tensors: parameters, buffers, then the parts. -/
def entriesUnder (path : Text) : Module → List (Text × Tensor)
  | .node parameters buffers _ children =>
    (parameters ++ buffers).map (fun (name, t) => (path ++ name, t)) ++ childEntries path children

def childEntries (path : Text) : List (Text × Module) → List (Text × Tensor)
  | [] => []
  | (name, m) :: rest => entriesUnder (path ++ name ++ separator) m ++ childEntries path rest

end

/-- The live tensors that are saved and loaded. -/
def entries (m : Module) : List (Text × Tensor) := entriesUnder "" m

mutual

/-- The paths of a module and all its parts. -/
def pathsFrom (path : Text) : Module → List Text
  | .node _ _ _ children => path :: childPaths (if path.isEmpty then "" else path ++ separator) children

def childPaths (path : Text) : List (Text × Module) → List Text
  | [] => []
  | (name, m) :: rest => pathsFrom (path ++ name) m ++ childPaths path rest

end

def paths (m : Module) : List Text := pathsFrom "" m

/-- The tensors to be saved: all but those that are skipped. -/
def saved (m : Module) (skip : List Text) : List (Text × Tensor) :=
  m.entries.filter fun (name, _) => !skip.contains name

/-! ### As an object graph -/

open Pickle

/-- The version of every module. -/
def currentVersion : Int := 1

/-- Adds the mapping of paths to versions; the word `version` is one object for all of them. -/
def addVersions (paths : List Text) (g : Graph) : Nat × Graph :=
  let (word, g) := g.add (.text "version")
  let (entries, g) := paths.foldl (fun (entries, g) path =>
    let (key, g) := g.add (.text path)
    let (version, g) := g.add (.int currentVersion)
    let (versions, g) := g.add (.dict [(word, version)])
    (entries ++ [(key, versions)], g)) ([], g)
  g.add (.ordered entries [])

/-- Adds each name and each tensor as an object of its own. -/
def addTensors (tensors : List (Text × Tensor)) (g : Graph) : List (Nat × Nat) × Graph :=
  tensors.foldl (fun (entries, g) (name, t) =>
    let (key, g) := g.add (.text name)
    let (value, g) := g.add (.tensor t)
    (entries ++ [(key, value)], g)) ([], g)

/-- The state of a module as an object graph, and the mapping in it. -/
def graph (m : Module) (memory : Memory) (skip : List Text) : Nat × Graph :=
  let (versions, g) := addVersions m.paths { memory }
  let (entries, g) := addTensors (m.saved skip) g
  g.add (.ordered entries [(metadataName, versions)])

end Module

end Checkpoint
