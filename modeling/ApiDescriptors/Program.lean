import ApiDescriptors.CommandLine
import ApiDescriptors.FileTree
import ApiDescriptors.Manifest
import ApiDescriptors.Summary

/-!
What the commands do, on any host that lets them read and write files and print: a command reads
its options and the document, and then prints a summary or writes the manifest.

One such host is a file tree together with the text printed. What a command has done to it stays
done when the command fails later.
-/

namespace ApiDescriptors.Program

-- Why a command fails.
inductive Failure
  | commandLine
  | noInput (path : String)
  | noFile (path : String)
  | document (e : Error)
  | notWritten

def Failure.exitCode : Failure → Nat
  | commandLine => 2
  | _           => 1

def Failure.message : Failure → String
  | commandLine  => "usage: check INPUT [--config FILE] | generate INPUT --out-dir DIR [--config FILE]"
  | noInput path => "Input document not found: " ++ path
  | noFile path  => "File cannot be read: " ++ path
  | document e   => e.message
  | notWritten   => "File cannot be written"

-- What a command asks of the host that it runs on.
class Host (m : Type → Type) extends Monad m where
  has             : String → m Bool
  read?           : String → m (Option String)
  -- Makes a directory, and those on the way to it.
  makeDirectories : String → m Unit
  write           : (path contents : String) → m Unit
  print           : String → m Unit
  fail            : {α : Type} → Failure → m α

-- The commands

section Commands

variable {m : Type → Type} [Host m]

open Host

def readFile (path : String) : m String := do
  match ← read? path with
  | some text => return text
  | none      => fail (.noFile path)

def ofResult {α : Type} : Result α → m α
  | .ok a    => return a
  | .error e => fail (.document e)

-- The options in a file, or the defaults without one.
def loadOptions : Option String → m Options
  | none      => return {}
  | some path => do
    let text ← readFile path
    ofResult ((Options.ofText text).mapError .options)

-- The registry of the document that a command reads.
def build (input : String) (config : Option String) : m Registry := do
  if ← has input then
    let o ← loadOptions config
    let text ← readFile input
    ofResult (Registry.ofText text o)
  else fail (.noInput input)

-- Writes files into a directory, and tells their paths.
def save (directory : String) : List (String × String) → m (List String)
  | []                        => return []
  | (name, contents) :: files => do
    let path := FileTree.join directory name
    makeDirectories (FileTree.parent path)
    write path contents
    return path :: (← save directory files)

def generate (input outDir : String) (config : Option String) : m (List String) := do
  let g ← build input config
  makeDirectories outDir
  save outDir (Manifest.files g)

def execute : Command → m Unit
  | .check input config           => do
    let g ← build input config
    print (Summary.ofRegistry g)
  | .generate input outDir config => do
    let written ← generate input outDir config
    print (String.join (written.map fun path => "Generated " ++ path ++ "\n"))

end Commands

-- Running on a file tree

structure World where
  files  : FileTree
  output : String := ""

-- A part of a command, with the world that it leaves in success and in failure.
abbrev Run := EStateM Failure World

instance : Host Run where
  has path w             := .ok (w.files.has path) w
  read? path w           := .ok (w.files.read? path) w
  makeDirectories path w :=
    match w.files.makeDirectories path with
    | (files, true)  => .ok () { w with files }
    | (files, false) => .error .notWritten { w with files }
  write path contents w  :=
    match w.files.write? path contents with
    | some files => .ok () { w with files }
    | none       => .error .notWritten w
  print text w           := .ok () { w with output := w.output ++ text }
  fail failure w         := .error failure w

-- What a command leaves behind: its exit code, its output and the files.
structure Outcome where
  exitCode : Nat
  output   : String
  files    : FileTree

def runCommand (files : FileTree) (command : Command) : Outcome :=
  match (execute command : Run Unit) { files } with
  | .ok _ w          => ⟨0, w.output, w.files⟩
  | .error failure w => ⟨failure.exitCode, w.output, w.files⟩

def run (env : CommandLine.Environment) (files : FileTree) (words : List String) : Outcome :=
  match CommandLine.ofWords? env words with
  | none      => ⟨Failure.commandLine.exitCode, "", files⟩
  | some line => runCommand files line.command

end ApiDescriptors.Program
