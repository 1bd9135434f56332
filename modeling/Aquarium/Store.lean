import Aquarium.Json.Printer
import Aquarium.Schedule.Format
import Aquarium.Settings.Format

/-!
# The data directory

Three files hold what outlives a restart: the runtime settings, the schedule, and the channel times.
A store is the content of their directory together with the rights that the controller has there. A
file may be missing, in which case its value is a default; it may hold any text; or a directory may
stand in its place. Each file may be open to reading or not, and to writing or not, and the
directory itself may be one that can be made or not; what a file holds stays when rights change.

A save that fails leaves the files alone. Where a write breaks off half-way, as on a full disk, the
file is one that cannot be written, and what is found in it afterwards counts as put there from
outside.

Main statement: what was saved is what is read, where the file can be read (`read?_save`).
-/

namespace Aquarium

/-- The files of the data directory. -/
inductive DataFile where
  | settings
  | schedule
  | channelState
  deriving DecidableEq, Repr

/-- The name of a file. -/
def DataFile.name : DataFile → String
  | .settings => "runtime.json"
  | .schedule => "schedule.json"
  | .channelState => "channel_state.json"

/-- What stands under the name of a file. -/
inductive Content where
  | missing
  | text (s : String)
  | directory
  deriving DecidableEq, Repr

/-- Why a file could not be used. -/
inductive StoreError where
  /-- Its text is not of its form. -/
  | parse (file : DataFile)
  /-- It cannot be read. -/
  | read (file : DataFile)
  /-- The data directory cannot be made. -/
  | create
  /-- It cannot be written. -/
  | write (file : DataFile)
  deriving DecidableEq, Repr

/-- The text of an error, for a data directory. -/
def StoreError.message (directory : String) : StoreError → String
  | .parse file => "failed to parse " ++ directory ++ "/" ++ file.name
  | .read file => "failed to read " ++ directory ++ "/" ++ file.name
  | .create => "failed to create " ++ directory
  | .write file => "failed to write " ++ directory ++ "/" ++ file.name

/-- What the controller may do in the data directory. -/
structure Rights where
  /-- The directory exists, or can be made. -/
  make : Bool
  /-- The files that can be read. -/
  read : DataFile → Bool
  /-- The files that can be written. -/
  write : DataFile → Bool

/-- Everything is allowed. -/
def Rights.all : Rights := ⟨true, fun _ => true, fun _ => true⟩

/-- Nothing is allowed. -/
def Rights.none : Rights := ⟨false, fun _ => false, fun _ => false⟩

/-- The data directory: what may be done there, and what it holds. -/
structure Store where
  rights : Rights
  settings : Content
  schedule : Content
  channelState : Content

namespace Store

/-- A directory that does not exist yet. -/
def empty : Store := ⟨.all, .missing, .missing, .missing⟩

instance : Inhabited Store := ⟨empty⟩

/-- What stands under the name of a file. -/
def content (s : Store) : DataFile → Content
  | .settings => s.settings
  | .schedule => s.schedule
  | .channelState => s.channelState

/-- Puts something under the name of a file. -/
def put (s : Store) (file : DataFile) (c : Content) : Store :=
  match file with
  | .settings => { s with settings := c }
  | .schedule => { s with schedule := c }
  | .channelState => { s with channelState := c }

theorem content_put (s : Store) (f g : DataFile) (c : Content) :
    (s.put f c).content g = if g = f then c else s.content g := by
  cases f <;> cases g <;> rfl

@[simp] theorem rights_put (s : Store) (f : DataFile) (c : Content) :
    (s.put f c).rights = s.rights := by
  cases f <;> rfl

/-! ## Reading and saving -/

/-- The text of a file; nothing if it is missing. -/
def read? (s : Store) (file : DataFile) : Except StoreError (Option String) :=
  if s.rights.read file then
    match s.content file with
    | .missing => .ok none
    | .text t => .ok (some t)
    | .directory => .error (.read file)
  else .error (.read file)

/-- Replaces the text of a file, and makes the directory first if there is none. -/
def save (s : Store) (file : DataFile) (text : String) : Except StoreError Store :=
  if s.rights.make then
    if s.rights.write file ∧ s.content file ≠ .directory then .ok (s.put file (.text text))
    else .error (.write file)
  else .error .create

/-- The value of a file, and a default if it is missing. -/
def load (s : Store) (file : DataFile) (read : Json → Except ReadError α) (missing : α) :
    Except StoreError α := do
  match ← s.read? file with
  | none => return missing
  | some text =>
    match Json.readText read text with
    | .ok a => return a
    | .error _ => throw (.parse file)

theorem save_eq_ok {s t : Store} {file : DataFile} {text : String} (h : s.save file text = .ok t) :
    t = s.put file (.text text) := by
  unfold save at h
  split at h
  · split at h
    · cases h
      rfl
    · cases h
  · cases h

theorem read?_of_text {s : Store} {file : DataFile} {text : String}
    (hreads : s.rights.read file = true) (htext : s.content file = .text text) :
    s.read? file = .ok (some text) := by
  rw [read?, if_pos hreads, htext]

theorem read?_save {s t : Store} {file : DataFile} {text : String}
    (hreads : s.rights.read file = true) (h : s.save file text = .ok t) :
    t.read? file = .ok (some text) := by
  rw [save_eq_ok h]
  exact read?_of_text (by rwa [rights_put]) (by rw [content_put, if_pos rfl])

/-! ## What else happens to the directory -/

/-- Somebody writes a file, where that is possible. -/
def overwrite (s : Store) (file : DataFile) (text : String) : Store :=
  match s.save file text with
  | .ok t => t
  | .error _ => s

/-- Somebody makes a directory in the place of a missing file. -/
def makeDirectory (s : Store) (file : DataFile) : Store :=
  if s.rights.make ∧ s.content file = .missing then s.put file .directory else s

/-- Somebody puts a plain file in the place of the data directory; all that it held is gone. -/
def block (_ : Store) : Store := { empty with rights := .none }

/-- Somebody forbids to write a file; what it holds stays, and can be read as before. -/
def protect (s : Store) (file : DataFile) : Store :=
  { s with rights.write := fun other => other ≠ file && s.rights.write other }

/-- Somebody deletes a file. -/
def delete (s : Store) (file : DataFile) : Store :=
  match s.content file with
  | .text _ => s.put file .missing
  | _ => s

/-- The text of a file, if it can be read at all. -/
def text? (s : Store) (file : DataFile) : Option String :=
  match s.read? file with
  | .ok t => t
  | .error _ => none

end Store

/-! ## The three values -/

/-- The second of the week at which each channel last reported, as it is kept. -/
structure ChannelState where
  times : List (Option Nat)
  deriving DecidableEq, Repr

namespace ChannelState

/-- The keys of the channel state. -/
def fields : List (Json.Field ChannelState) :=
  [.needed "channelTimes" (Json.asList (Json.asOption (Json.asNat word32)))
    fun x _ => ⟨x⟩]

/-- The channel state from a file. -/
def ofJson : Json → Except ReadError ChannelState := Json.asRecord fields ⟨[]⟩

/-- The channel state for a file. -/
def toJson (c : ChannelState) : Json :=
  .record [("channelTimes", .list (c.times.map (Json.option .nat)))]

end ChannelState

namespace Store

/-- The runtime settings; standard ones if the file is missing. -/
def loadSettings (s : Store) : Except StoreError Settings :=
  s.load .settings Settings.ofJson .standard

/-- Saves the runtime settings. -/
def saveSettings (s : Store) (x : Settings) : Except StoreError Store :=
  s.save .settings x.toJson.pretty

/-- The entries of the schedule; none if the file is missing. -/
def loadSchedule (s : Store) : Except StoreError (List (Entry Float32)) :=
  s.load .schedule lightEntriesOfJson []

/-- Saves the entries of the schedule. -/
def saveSchedule (s : Store) (es : List (Entry Float32)) : Except StoreError Store :=
  s.save .schedule (lightEntriesToJson es).pretty

/-- The channel times; none if the file is missing. -/
def loadChannelState (s : Store) : Except StoreError ChannelState :=
  s.load .channelState ChannelState.ofJson ⟨[]⟩

/-- Saves the channel times. -/
def saveChannelState (s : Store) (c : ChannelState) : Except StoreError Store :=
  s.save .channelState c.toJson.pretty

end Store

end Aquarium
