import Odtone.Support.Book
import Odtone.Support.FileSystem
import Odtone.Support.Prog
import Odtone.NetworkManager.SettingTypes

/-! # Connections and their files

`Settings` with its map of `Connection` objects, each of which keeps its settings in a file: the
calls that D-Bus clients make to add, update and delete connections, and what they do to the file
system.

## Modelling decisions

The path of a connection's file is fixed when the object is made. For one that is loaded at start it
is the path of a directory entry, for a new one it is the settings directory followed by the `uuid`
the caller gave.

A text archive is its contents, and a file that is no archive of settings holds `none`. A stream
that could not be opened makes the archive throw. An error of D-Bus becomes the reply to a call; any
other exception is caught by nobody and ends the process, as does a look-up that dereferences the
end of a map. Activating a connection opens no file and is left out, as are the signals.

The list of changes is not part of the source. It records what a call does to the file system. -/

namespace Odtone.NetworkManager

open FileSystem (Entry Errno Location Name)

/-- What a call can fail with. -/
inductive Failure where
  /-- `DBus::Error` -/
  | dbus (name : String)
  /-- a value is not of the type asked for, an error of D-Bus -/
  | setting (e : SettingError)
  /-- an exception of a stream, an archive or `boost::filesystem` -/
  | io (e : Errno)
  /-- the end of a map is dereferenced -/
  | undefined
deriving DecidableEq

/-- What happens to a location: a file is created, overwritten or removed. -/
structure Change where
  loc : Location
  before : Option (Entry (Option ConnectionSettings))
  after : Option (Entry (Option ConnectionSettings))

/-- `Connection` as an object with the path of its file -/
structure StoredConnection where
  filePath : List Char
  settings : SettingsMap

/-- `Settings`, and the file system it works on -/
structure Settings where
  fs : FileSystem (Option ConnectionSettings)
  workingDir : List Char
  path : String
  connections : Book String StoredConnection
  connectionCounter : UInt32
  changes : List Change

/-- Computations on the settings. -/
abbrev SettingsM := EStateM Failure Settings

namespace Settings

/-- The path of a name in the settings directory. -/
def filePath (st : Settings) (name : List Char) : List Char := st.workingDir ++ '/' :: name

/-- `ss << _path << "/" << ++_connection_counter` -/
def nextConnectionPath (st : Settings) : String :=
  st.path ++ "/" ++ toString (st.connectionCounter + 1).toNat

/-- Fill an open file. -/
def write (st : Settings) (loc : {loc : Location // st.fs.Writable loc}) (s : ConnectionSettings) :
    Settings :=
  { st with
    fs := st.fs.write loc (some s)
    changes := st.changes ++ [⟨loc.val, st.fs.entry loc.val, some (.file (some s))⟩] }

/-- Remove a file. -/
def unlink (st : Settings) (loc : {loc : Location // st.fs.Childless loc}) : Settings :=
  { st with
    fs := st.fs.unlink loc
    changes := st.changes ++ [⟨loc.val, st.fs.entry loc.val, none⟩] }

/-! ## Loading -/

/-- `Connection::read_settings`, if there is a regular file at the path -/
def readSettings (st : Settings) (filePath : List Char) : Except Failure (Option SettingsMap) :=
  match st.fs.resolve true filePath with
  | .error _ => .ok none
  | .ok loc =>
    match st.fs.entry loc with
    | some (.file none) => .error (.io .noent)
    | some (.file (some s)) => .ok (some s.restored.toMap)
    | _ => .ok none

/-- The connection of a directory entry. -/
def loadConnection (st : Settings) (n : Name) : Except Failure Settings :=
  match st.readSettings (st.filePath n.val) with
  | .error e => .error e
  | .ok none => .ok st
  | .ok (some settings) =>
    .ok { st with
      connections := st.connections.insert st.nextConnectionPath ⟨st.filePath n.val, settings⟩
      connectionCounter := st.connectionCounter + 1 }

/-- The constructor of `Settings`, for a settings directory that exists and whose entries come in
the given order -/
def load (fs : FileSystem (Option ConnectionSettings)) (workingDir : List Char) (path : String)
    (listing : List Name) : Except Failure Settings :=
  match fs.resolve true workingDir with
  | .error e => .error (.io e)
  | .ok dir =>
    if fs.IsDirectory dir then listing.foldlM loadConnection ⟨fs, workingDir, path, [], 0, []⟩
    else .error (.io .notdir)

/-! ## Calls -/

/-- `Connection::write_settings` -/
def writeSettings (filePath : List Char) (settings : SettingsMap) : SettingsM Unit := fun st =>
  match ConnectionSettings.fromMap settings with
  | .error e => .error (.setting e) st
  | .ok s =>
    match st.fs.openWrite filePath with
    | .error e => .error (.io e) st
    | .ok loc => .ok () (st.write loc s)

/-- The error `AddConnection` reports for every exception. -/
def connectionInvalid : Failure := .dbus "org.freedesktop.NetworkManager.Error.ConnectionInvalid"

/-- `properties.find("connection")->second.find("uuid")->second` -/
def findUuid (properties : SettingsMap) : Option Variant :=
  (properties.lookup "connection").bind fun p => p.lookup "uuid"

def readString (v : Variant) : Except SettingError String := v.read .string

/-- `AddConnection` with a `uuid` that has been read: make the connection and its file. -/
def newConnection (filename : List Char) (properties : SettingsMap) : SettingsM String := fun st =>
  let connectionPath := st.nextConnectionPath
  let st := { st with connectionCounter := st.connectionCounter + 1 }
  let filePath := st.filePath filename
  match writeSettings filePath properties st with
  | .error _ st => .error connectionInvalid st
  | .ok _ st => .ok connectionPath
      { st with connections := st.connections.insert connectionPath ⟨filePath, properties⟩ }

/-- `Settings::AddConnection` -/
def addConnection (properties : SettingsMap) : SettingsM String := fun st =>
  match findUuid properties with
  | none => .error .undefined st
  | some v =>
    match readString v with
    | .error _ => .error connectionInvalid st
    | .ok filename => newConnection filename.toList properties st

/-- `Connection::Update` -/
def update (path : String) (properties : SettingsMap) : SettingsM Unit := fun st =>
  match st.connections.get? path with
  | none => .error (.dbus "org.freedesktop.DBus.Error.UnknownObject") st
  | some c =>
    writeSettings c.filePath properties
      { st with
        connections := st.connections.modify path fun c => { c with settings := properties } }

/-- `Connection::Delete` -/
def delete (path : String) : SettingsM Unit := fun st =>
  match st.connections.get? path with
  | none => .error (.dbus "org.freedesktop.DBus.Error.UnknownObject") st
  | some c =>
    match st.fs.remove c.filePath with
    | .error e => .error (.io e) st
    | .ok none => .ok () { st with connections := st.connections.erase path }
    | .ok (some loc) =>
      .ok () { st.unlink loc with connections := st.connections.erase path }

end Settings

/-! ## Devices -/

/-- `Device::DeviceType`; a wireless device has access points with their `SSID`. -/
inductive Device where
  | ethernet
  | modem
  | wifi (accessPoints : Book String (List UInt8))
  | wimax
  | unknown

namespace Settings

def readBytes (v : Variant) : Except SettingError (List UInt8) := v.read .bytes

/-- `Settings::get_connection_by_attribute("802-11-wireless", "ssid", ssid)` -/
def getConnectionBySsid (ssid : List UInt8) :
    Book String StoredConnection → Except SettingError (Option String)
  | [] => .ok none
  | (path, c) :: l =>
    match (c.settings.lookup "802-11-wireless").bind fun p => p.lookup "ssid" with
    | none => getConnectionBySsid ssid l
    | some v =>
      match readBytes v with
      | .error e => .error e
      | .ok x => if x = ssid then .ok (some path) else getConnectionBySsid ssid l

/-- `sm["802-11-wireless"]["ssid"] = ssid` -/
def setSsid (ssid : List UInt8) (sm : SettingsMap) : SettingsMap :=
  sm.insert "802-11-wireless"
    (((sm.lookup "802-11-wireless").getD ∅).insert "ssid" ⟨.bytes, ssid⟩)

/-- `catch (std::exception &e)` around a call of `AddConnection` -/
def addConnectionQuietly (properties : SettingsMap) : SettingsM Unit := fun st =>
  match addConnection properties st with
  | .ok _ st => .ok () st
  | .error .undefined st => .error .undefined st
  | .error _ st => .ok () st

/-- `NetworkManager::AddAndActivateConnection`, with the devices there are -/
def addAndActivateConnection (devices : Book String Device) (connection : SettingsMap)
    (device specificObject : String) : SettingsM Unit := fun st =>
  match devices.get? device with
  | some .ethernet => addConnectionQuietly connection st
  | some (.wifi accessPoints) =>
    match accessPoints.get? specificObject with
    | none => .ok () st
    | some ssid =>
      match getConnectionBySsid ssid st.connections with
      | .ok none => addConnectionQuietly (setSsid ssid connection) st
      | _ => .ok () st
  | _ => .ok () st

/-! ## Runs -/

/-- A call of a D-Bus client. -/
inductive Call where
  | addConnection (properties : SettingsMap)
  | addAndActivateConnection (devices : Book String Device) (connection : SettingsMap)
      (device specificObject : String)
  | update (path : String) (properties : SettingsMap)
  | delete (path : String)

def Call.perform : Call → SettingsM Unit
  | .addConnection properties => (Settings.addConnection properties).after fun _ st => st
  | .addAndActivateConnection devices connection device specificObject =>
    Settings.addAndActivateConnection devices connection device specificObject
  | .update path properties => Settings.update path properties
  | .delete path => Settings.delete path

/-- A call as it is dispatched: errors of D-Bus become the reply. -/
def step (c : Call) : SettingsM Unit := fun st =>
  match c.perform st with
  | .ok _ st => .ok () st
  | .error (.dbus _) st | .error (.setting _) st => .ok () st
  | .error e st => .error e st

/-- The settings after a sequence of calls. -/
def run : List Call → Settings → Settings := EStateM.runAll step

end Settings

end Odtone.NetworkManager
