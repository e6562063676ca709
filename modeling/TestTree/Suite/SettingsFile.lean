/-
The settings file of a suite, a TOML document.

* `Slot` : what lies where the file is looked for, and what can be done with it;
* `Settings.ofEntries?`, `Settings.written?` : settings from a document and as one;
* `Slot.load` : read checked settings;
* `Slot.write`, `Slot.save` : put settings in the place of what was there.

## Design notes

Reading checks the settings and writing does not, so a file can be written that will be refused.
Whole numbers of a document have 64 bits with a sign; settings with more workers than that have no
written form, and the attempt to save them changes nothing.  Reading and writing can be given
another format of documents than the standard one.
-/
import TestTree.Suite.Settings
import TestTree.Toml.Format

namespace TestTree

/-- What lies where a settings file is looked for. -/
inductive Slot where
  | missing
  | directory
  | text (content : String)
  /-- A file that is no text. -/
  | undecodable
  deriving DecidableEq, Inhabited

namespace Slot

/-- A file with given bytes. -/
def ofBytes (bytes : ByteArray) : Slot :=
  match String.fromUTF8? bytes with
  | some s => text s
  | none => undecodable

/-- The text of the file. -/
def text? : Slot → Option String
  | text s => some s
  | _ => none

/-- Why there is no text to read. -/
def fault : Slot → String
  | directory => "Is a directory (os error 21)"
  | undecodable => "stream did not contain valid UTF-8"
  | _ => "No such file or directory (os error 2)"

/-- Put a file in the place of what is there, unless that is a directory. -/
def replace (s file : Slot) : Except StructuralError Slot :=
  match s with
  | directory => .error (.io s.fault)
  | _ => .ok file

/-- Make a directory where nothing is. -/
def makeDirectory : Slot → Option Slot
  | missing => some directory
  | _ => none

/-- Remove a file. -/
def remove : Slot → Option Slot
  | missing | directory => none
  | _ => some missing

end Slot

namespace Settings

/-- A setting: its default if it is not there, nothing if it is of the wrong kind. -/
def setting? {α : Type} (entries : List (String × Toml.Value)) (name : String) (dflt : α)
    (ofValue : Toml.Value → Option α) : Option α :=
  match entries.lookup name with
  | none => some dflt
  | some v => ofValue v

/-- The settings that the entries of a document give.  Entries of other names do not count. -/
def ofEntries? (entries : List (String × Toml.Value)) : Option Settings := do
  let dflt : Settings := {}
  let lazy ← setting? entries "lazy" dflt.lazy fun
    | .flag b => some b
    | _ => none
  let workers ← setting? entries "worker_threads" dflt.workers fun
    | .whole (.ofNat n) => some (some n)
    | _ => none
  let threadPrefix ← setting? entries "thread_name_prefix" dflt.threadPrefix fun
    | .text s => some s
    | _ => none
  return { lazy, workers, threadPrefix }

/-- The entries that settings are written as. -/
def entries (s : Settings) : List (String × Toml.Scalar) :=
  ("lazy", .flag s.lazy) :: (s.workers.toList.map fun n => ("worker_threads", .whole n))
    ++ [("thread_name_prefix", .text s.threadPrefix)]

/-- The settings as a document, unless the number of workers is too large for one. -/
def written? (s : Settings) (f : Toml.Format := .standard) : Option String :=
  f.write s.entries

/-- A document with the defaults and a comment on each setting. -/
def template : String :=
  String.join <| List.map (· ++ "\n")
    ["# Canopy suite configuration",
     "#",
     "# Start tests only when their result is awaited (default: false)",
     "lazy = false",
     "",
     "# Number of worker threads (default: available parallelism)",
     "# worker_threads = 4",
     "",
     "# Prefix of worker thread names",
     "thread_name_prefix = \"canopy-worker\""]

end Settings

namespace Slot

/-- The settings in the file, read and checked.  The error of a document that cannot be understood
names the file; the message ends there, before the colon with which the reader's own message would
follow. -/
def load (s : Slot) (path : String) (f : Toml.Format := .standard) :
    Except StructuralError Settings :=
  match s.text? with
  | none => .error (.io s.fault)
  | some content =>
    match (f.read content).bind Settings.ofEntries? with
    | none => .error (.invalidConfig ("failed to parse config file '" ++ path ++ "'"))
    | some settings => settings.validate

/-- Write settings, whatever is there but a directory; the error if there is one, and what is there
then.  The document is made before the file is touched.  The message of the error ends before the
colon with which the writer's own message would follow. -/
def write (s : Slot) (settings : Settings) (f : Toml.Format := .standard) :
    Except StructuralError Unit × Slot :=
  match settings.written? f with
  | none => (.error (.invalidConfig "failed to serialize config"), s)
  | some content =>
    match s.replace (text content) with
    | .error e => (.error e, s)
    | .ok file => (.ok (), file)

/-- The file that settings were written to, unless there was an error: `write` tells the messages,
and what is there then. -/
def save (s : Slot) (settings : Settings) (f : Toml.Format := .standard) :
    Except StructuralError Slot :=
  match s.write settings f with
  | (.error e, _) => .error e
  | (.ok (), file) => .ok file

/-- Write the template where nothing is. -/
def saveDefault : Slot → Slot
  | missing => text Settings.template
  | s => s

end Slot

end TestTree
