import CallbackLint.Files.Tree
import CallbackLint.Settings.Basic
import CallbackLint.Text.Utf8
import CallbackLint.Toml.Document

namespace CallbackLint

/-!
# The settings file

The settings for a folder are in a TOML file right in the folder.  Without such
a file every setting has its default.
-/

/-- Why the settings file of a folder gives no settings.  These are the faults of the file and of
what it says.  That a reader of documents gives up on an integer of thousands of digits, or on
lists inside lists to a great depth, is a limit of the reader and left out. -/
inductive SettingsFault where
  | unreadable (fault : AccessFault)
  /-- The file is not text. -/
  | notText
  /-- The text is no TOML document. -/
  | malformed (file : Location)
  /-- The document does not describe settings. -/
  | invalid (file : Location) (problems : List Problem)
deriving DecidableEq, Repr

namespace SettingsFault

/-- The lines that show a fault of what is in a settings file. -/
def lines : SettingsFault → List String
  | unreadable fault => [fault.reason]
  | notText => ["The settings file is not UTF-8 text"]
  | malformed file => [s!"Invalid TOML in {file.text}"]
  | invalid file problems =>
    match Problem.report .settings problems with
    | [] => []
    | first :: rest => s!"Invalid config in {file.text}: {first}" :: rest

end SettingsFault

namespace Settings

def fileName : String := "callback-return.toml"

/-- The settings in the bytes of a settings file.  The bytes must be text, the text a document and
the document settings; the first of the three that fails is the fault.  No limit is set to the
digits of an integer or to the depth of a value. -/
def ofBytes (file : Location) (bytes : List UInt8) : Except SettingsFault Settings :=
  match Utf8.decode? bytes with
  | none => .error .notText
  | some text =>
    match Toml.read? text with
    | none => .error (.malformed file)
    | some document =>
      match read document with
      | .ok settings => .ok settings
      | .error problems => .error (.invalid file problems)

/-- The settings for a folder.  The defaults stand in only for a file that is not there: one that
is there and cannot be opened is a fault. -/
def load (files : FileTree) (folder : Location) : Except SettingsFault Settings :=
  let file := folder.below [fileName]
  match files.file? file with
  | none => .ok {}
  | some _ =>
    match files.read file with
    | .error fault => .error (.unreadable fault)
    | .ok bytes => ofBytes file bytes

end Settings

end CallbackLint
