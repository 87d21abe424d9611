import TapeC.Peephole.Json
import TapeC.Settings

namespace TapeC

open Json (Record)

/-- The fields of the C layout as far as they have been read. -/
structure CLayoutDraft where
  memorySize : Option Nat := none
  indentWidth : Option Nat := none

def CLayoutDraft.toLayout (d : CLayoutDraft) : CLayout where
  memorySize := d.memorySize.getD ({} : CLayout).memorySize
  indentWidth := d.indentWidth.getD ({} : CLayout).indentWidth

def CLayoutDraft.record : Record CLayoutDraft CLayout where
  expected := "struct EmitterConfig"
  fields :=
    [.of "memory_size" memorySize (fun d n => { d with memorySize := some n })
        (Json.readNat64 "usize"),
      .of "indent_width" indentWidth (fun d n => { d with indentWidth := some n })
        (Json.readNat64 "usize")]
  draft := {}
  complete d := .ok d.toLayout
  shortened _ d := .ok d.toLayout

/-- The fields of the machine's limits as far as they have been read. -/
structure LimitsDraft where
  memorySize : Option Nat := none
  maxFuel : Option Nat := none

def LimitsDraft.toLimits (d : LimitsDraft) : Limits where
  memorySize := d.memorySize.getD ({} : Limits).memorySize
  maxFuel := d.maxFuel.getD ({} : Limits).maxFuel

def LimitsDraft.record : Record LimitsDraft Limits where
  expected := "struct RuntimeConfig"
  fields :=
    [.of "memory_size" memorySize (fun d n => { d with memorySize := some n })
        (Json.readNat64 "usize"),
      .of "max_fuel" maxFuel (fun d n => { d with maxFuel := some n }) (Json.readNat64 "u64")]
  draft := {}
  complete d := .ok d.toLimits
  shortened _ d := .ok d.toLimits

/-- The sections of the settings as far as they have been read. -/
structure SettingsDraft where
  peephole : Option Peephole := none
  layout : Option CLayout := none
  limits : Option Limits := none

def SettingsDraft.toSettings (d : SettingsDraft) : Settings where
  peephole := d.peephole.getD {}
  layout := d.layout.getD {}
  limits := d.limits.getD {}

def SettingsDraft.record : Record SettingsDraft Settings where
  expected := "struct TranspilerConfig"
  fields :=
    [.of "optimizer" peephole (fun d p => { d with peephole := some p })
        PeepholeDraft.record.read,
      .of "emitter" layout (fun d l => { d with layout := some l }) CLayoutDraft.record.read,
      .of "runtime" limits (fun d l => { d with limits := some l }) LimitsDraft.record.read]
  draft := {}
  complete d := .ok d.toSettings
  shortened _ d := .ok d.toSettings

/-- Why a text gives no settings. -/
inductive SettingsFileError where
  | json (error : Json.Error)
  | settings (error : SettingsError)
deriving DecidableEq, Repr

def SettingsFileError.message : SettingsFileError → String
  | .json error => error.message
  | .settings error => error.message

/-- Reads settings from a JSON text and checks them. -/
def Settings.ofJson (text : String) : Except SettingsFileError Settings :=
  match Json.readText SettingsDraft.record.read text with
  | .error error => .error (.json error)
  | .ok settings =>
    match settings.check with
    | .error error => .error (.settings error)
    | .ok () => .ok settings

end TapeC
