import Autoescape.Storage.Disk

/-!
# Setting up a file system

Operations that make a file system ready for a run: files, directories, devices, marks.
-/
namespace Autoescape.Storage.Disk

/-- An empty current directory below the root, on a sound medium. -/
def fresh : Disk := ⟨["work"], [(["work"], .directory false)], .sound⟩

/-- Puts a node where a path leads, instead of a file or device that is there. -/
def place (d : Disk) (path : String) (change : Option Node → Node) : Except Refusal Disk := do
  let (l, _) ← d.create path
  return d.put l (change (d.node? l))

/-- Puts a file with given contents; its mark stays. -/
def putFile (d : Disk) (path : String) (contents : ByteArray) : Except Refusal Disk :=
  d.place path fun before => .file contents (before.any Node.isReadOnly)

def putDevice (d : Disk) (path : String) (device : Device) : Except Refusal Disk :=
  d.place path fun _ => .device device

def makeDirectories (d : Disk) (path : String) : Except Refusal Disk := do
  checkPath path
  let (d, _) ← (Path.segments path).foldlM (fun (state : Disk × Location) segment => do
    let l ← state.1.enter state.2 segment
    match state.1.node? l with
    | none => return (state.1.put l (.directory false), l)
    | some (.directory _) => return (state.1, l)
    | some _ => throw Refusal.notDirectory) (d, d.origin path)
  return d

def remove (d : Disk) (path : String) : Except Refusal Disk := do
  let (l, _) ← d.locate path
  return { d with nodes := d.nodes.filter fun entry => !l.isPrefixOf entry.1 }

def mark (d : Disk) (path : String) (readOnly : Bool) : Except Refusal Disk := do
  match ← d.locate path with
  | (l, .directory _) => return d.put l (.directory readOnly)
  | (l, .file contents _) => return d.put l (.file contents readOnly)
  | (_, .device _) => return d

/-- What is no directory, below the current directory, by its path from there. -/
def listing (d : Disk) : List (String × Node) :=
  d.nodes.filterMap fun entry =>
    if d.here.isPrefixOf entry.1 ∧ ¬entry.2.isDirectory then
      some (Path.join (entry.1.drop d.here.length), entry.2)
    else none

end Autoescape.Storage.Disk
