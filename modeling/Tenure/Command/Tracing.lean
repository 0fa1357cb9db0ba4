import Tenure.Command.Session
import Tenure.Trace.Ring

/- Where the trace of a command goes. -/
namespace Tenure.Command

open Trace (Tracer Ring)

def World.create (w : World) (path : String) (content : Bytes) : Except Disk.Fault World :=
  match w.disk.writeFile (w.place path) content with
  | .ok disk => .ok { w with disk }
  | .error f => .error { f with path }

inductive TraceFault where
  | level (s : String)
  | mode (s : String)
  | format (s : String)
  | output (f : Disk.Fault)

def TraceFault.message : TraceFault → String
  | .level s => s!"invalid trace level: {Trace.Level.unknownMessage s}"
  | .mode s => s!"invalid trace mode: {Trace.Storage.unknownMessage s}"
  | .format s => Trace.Format.unknownMessage s
  | .output f => s!"failed to create tracer: failed to open trace output: {f.message}"

structure TracePlan where
  level : Trace.Level := .off
  mode : Trace.Storage := .stream
  format : Trace.Format := .text
  /-- A file, or `-` for the error stream, which is also meant when it is empty. -/
  output : String := ""
  ringSize : Int := Ring.defaultCapacity

namespace TracePlan

def toFile (p : TracePlan) : Bool :=
  p.level.isOn && p.mode.streams && !(p.output.isEmpty || p.output == "-")

def levelFor (output : String) (l : Trace.Level) : Trace.Level :=
  if l = .off ∧ !output.isEmpty then .phase else l

/-- Reads the flags. Of a trace that is off only the level is looked at. -/
def read (s : Settings) : Except TraceFault TracePlan := do
  let output := s.text "trace"
  let name := s.text "trace-level" "off"
  let some level := Trace.Level.ofName? name | throw (.level name)
  let level := levelFor output level
  if !level.isOn then return {}
  let name := s.text "trace-mode" "stream"
  let some mode := Trace.Storage.ofName? name | throw (.mode name)
  let name := s.text "trace-format" "text"
  let some format := Trace.Format.ofName? name | throw (.format name)
  return { level, mode, format, output, ringSize := s.int "trace-ring-size" Ring.defaultCapacity }

def start (p : TracePlan) (w : World) : Except TraceFault World :=
  if p.toFile then (w.create p.output []).mapError .output else .ok w

def streamed (p : TracePlan) (w : World) (e : Trace.Event) : String :=
  Trace.Event.line { e with micros := w.clock } (p.format.forPath p.output)

def live (p : TracePlan) (w : World) (t : Tracer) : String :=
  if p.level.isOn && p.mode.streams && !p.toFile then t.transcript (p.streamed w) else t.said

/-- What the error stream gets at the end: the kept events, unless they were streamed to a place of
their own. -/
def dump (p : TracePlan) (w : World) (t : Tracer) : String :=
  if p.level.isOn && (p.mode == .ring || p.mode == .both && p.output.isEmpty) then
    let kept := ((Ring.new p.ringSize p.level).emitAll t.events.toList).snapshot
    String.join (kept.map fun e => Trace.Event.line { e with micros := w.clock } p.format)
  else ""

def fill (p : TracePlan) (w : World) (t : Tracer) : World :=
  if p.toFile then
    let text := String.join (t.events.toList.map (p.streamed w))
    (w.create p.output (Bytes.ofString text)).toOption.getD w
  else w

end TracePlan

end Tenure.Command
