import Foreman.Files.Path

namespace Foreman

-- What can stand under a name. `changed` is when a file was last written, in
-- milliseconds of wall time, and may lie before the beginning of all time.
inductive Node where
  | file (size : Nat) (changed : Int)
  | directory
  | link (target : Path)
  deriving DecidableEq, Repr, Inhabited

-- Why a path leads to nothing. One with a null character in it is `severed`, because a name
-- would end there.
inductive PathFault where
  | missing
  | notDirectory
  | tooManyLinks
  | tooLong
  | invalid
  | severed
  deriving DecidableEq, Repr, Inhabited

def PathFault.message : PathFault → String
  | .missing => "No such file or directory (os error 2)"
  | .notDirectory => "Not a directory (os error 20)"
  | .tooManyLinks => "Too many levels of symbolic links (os error 40)"
  | .tooLong => "File name too long (os error 36)"
  | .invalid => "Invalid argument (os error 22)"
  | .severed => "file name contained an unexpected NUL byte"

structure Tree where
  home : List String
  nodes : List (List String × Node)
  deriving DecidableEq, Repr, Inhabited

namespace Tree

-- No more links than these are followed on one path.
def maxLinks : Nat := 40

-- No path is longer than this, in bytes, and no step longer than the other.
def maxPath : Nat := 4095

def maxStep : Nat := 255

def ofHome (home : List String) : Tree :=
  ⟨home, (List.range home.length).map (fun n => (home.take (n + 1), .directory))⟩

def node? (t : Tree) (place : List String) : Option Node :=
  if place = [] then some .directory
  else (t.nodes.find? (fun entry => entry.1 == place)).map Prod.snd

def put (t : Tree) (place : List String) (node : Node) : Tree :=
  { t with nodes := t.nodes.filter (fun entry => entry.1 != place) ++ [(place, node)] }

def erase (t : Tree) (place : List String) : Tree :=
  { t with nodes := t.nodes.filter (fun entry => entry.1 != place) }

def eraseAll (t : Tree) (places : List (List String)) : Tree :=
  { t with nodes := t.nodes.filter (fun entry => !places.contains entry.1) }

-- The place that steps lead to from a directory, following at most `links` links.
-- A step back leads to the directory above; above the root is the root. A single dot
-- stays in the directory.
def walk (t : Tree) (links : Nat) (place : List String) (steps : List String) :
    Except PathFault (List String) :=
  match steps with
  | [] => .ok place
  | step :: rest =>
    if step = "." then walk t links place rest
    else if step = ".." then walk t links place.dropLast rest
    else if maxStep < step.utf8ByteSize then .error .tooLong
    else match t.node? (place ++ [step]) with
      | none => .error .missing
      | some .directory => walk t links (place ++ [step]) rest
      | some (.file _ _) => if rest = [] then .ok (place ++ [step]) else .error .notDirectory
      | some (.link target) => match links with
        | 0 => .error .tooManyLinks
        | links + 1 => match target with
          | .nowhere => .error .missing
          | .along .here more ending => walk t links place (Path.route more ending ++ rest)
          | .along _ more ending => walk t links [] (Path.route more ending ++ rest)
  termination_by (links, steps.length)

def resolve (t : Tree) : Path → Except PathFault (List String)
  | .nowhere => .error .missing
  | .along .here steps ending => t.walk maxLinks t.home (Path.route steps ending)
  | .along _ steps ending => t.walk maxLinks [] (Path.route steps ending)

def locate (t : Tree) (s : String) : Except PathFault (List String) :=
  if s.toList.contains '\x00' then .error .severed
  else if maxPath < s.utf8ByteSize then .error .tooLong
  else t.resolve (Path.ofText s)

def entries (t : Tree) (place : List String) : List (String × Node) :=
  t.nodes.filterMap fun entry =>
    if entry.1.dropLast = place then entry.1.getLast?.map (fun name => (name, entry.2)) else none

def directory (t : Tree) (s : String) : Except PathFault (List String) :=
  match t.locate s with
  | .error fault => .error fault
  | .ok place => match t.node? place with
    | some .directory => .ok place
    | some _ => .error .notDirectory
    | none => .error .missing

def list (t : Tree) (s : String) : Except PathFault (List (String × Node)) :=
  match t.directory s with
  | .error fault => .error fault
  | .ok place => .ok (t.entries place)

def makeDirectories (t : Tree) : List String → List String → Tree
  | _, [] => t
  | place, step :: rest =>
    if step = ".." then makeDirectories t place.dropLast rest
    else match t.walk maxLinks place [step] with
      | .ok next => makeDirectories t next rest
      | .error _ => makeDirectories (t.put (place ++ [step]) .directory) (place ++ [step]) rest

def makeDirectory (t : Tree) (p : Path) : Tree :=
  match p with
  | .nowhere => t
  | .along .here steps _ => t.makeDirectories t.home steps
  | .along _ steps _ => t.makeDirectories [] steps

def prepare (t : Tree) : Path → Option (Tree × List String)
  | .nowhere => none
  | .along start steps _ => match steps.getLast? with
    | none => none
    | some name =>
      let above := Path.along start steps.dropLast .step
      let t := t.makeDirectory above
      match t.resolve above with
      | .error _ => none
      | .ok place => some (t, place ++ [name])

def putAt (t : Tree) (p : Path) (node : Node) : Tree :=
  match t.prepare p with
  | none => t
  | some (t, place) => t.put place node

-- A file is written at the end of a path. Links that stand there are followed first.
def writeWithin : Nat → Tree → Path → Node → Tree
  | 0, t, _, _ => t
  | links + 1, t, p, node => match t.prepare p with
    | none => t
    | some (t, place) => match t.node? place with
      | some (.link target) => writeWithin links t (target.absolute place.dropLast) node
      | _ => t.put place node

def write (t : Tree) (p : Path) (node : Node) : Tree := writeWithin (maxLinks + 1) t p node

end Tree

end Foreman
