import StatRollup.Document.Settings
import StatRollup.Service.Address
/-!
# Options of the service

Where the service listens and keeps its data, how it logs, the settings of its engine and the
statistics that it knows from the start.
-/
namespace StatRollup.Service

/-- The form of log lines. -/
inductive LogFormat where
  /-- For readers. -/
  | pretty
  /-- For programs. -/
  | json
  deriving DecidableEq, Repr

/-- The log format of a name. -/
def LogFormat.ofName? : String → Option LogFormat
  | "pretty" => some pretty
  | "json" => some json
  | _ => none

/-- Options of the service. -/
structure Options where
  /-- Where it listens. -/
  address : Address := .v4 [0, 0, 0, 0] 8087
  /-- Where it keeps its data. -/
  dataDirectory : String := "data"
  /-- The form of its log lines. -/
  logFormat : LogFormat := .pretty
  /-- Settings of its engine. -/
  engine : Settings := {}
  /-- The statistics registered at the start. -/
  statistics : List Statistic := []

/-- Reads an address. -/
def Address.ofJson : Json.Decoder Address := fun j => do
  match ofText? (← Json.asText j) with
  | some address => return address
  | none => throw .mismatch

namespace Options

/-- The fields of the options. -/
def form : Json.Form Options :=
  let default : Options := {}
  Options.mk <$> .optional "http_addr" default.address Address.ofJson
    <*> .optional "data_dir" default.dataDirectory Json.asText
    <*> .optional "log_format" default.logFormat (Json.asName LogFormat.ofName?)
    <*> .optional "stats" default.engine Settings.form.read
    <*> .optional "statistics" default.statistics (Json.asList Statistic.ofJson)

end Options

end StatRollup.Service
