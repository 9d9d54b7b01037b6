import SynthRack.Numeral.Shortest
import SynthRack.Rack.Allocate

/-!
# Compilation

`Rack.compile` makes an edited rack playable: IDs are assigned, deleted nodes removed, and every
register allocated anew. The version is the caller's and has to be one that no compilation was
given before; it is how a voice notices that its rack changed. `Rack.compileNotices` lists what a
compilation has to report.
-/

namespace SynthRack

/-- What a compilation reports. -/
inductive Notice where
  /-- Nodes marked for deletion were removed. -/
  | removed (count : Nat)
  /-- A reference to a removed node became a constant. -/
  | deletedReference (id : Nat) (default : Float32)
  /-- A reference to a node that never was became a constant. -/
  | missingReference (id : Nat) (default : Float32)
  /-- A delay asked for more than the longest duration. -/
  | clampedDelay (requested : Float32)
  /-- The compilation is done. -/
  | compiled (name : String) (nodes registers buffers : Nat)
  deriving DecidableEq

/-- A number in a notice: the fewest digits that read back, without an exponent. -/
def numberText (x : Float32) : String :=
  match x.reading with
  | .finite negative significand exponent =>
    let size :=
      if significand = 0 then ['0']
      else ((Decimal.shortest? .single .up significand exponent).map (·.plain)).getD []
    String.ofList (if negative then '-' :: size else size)
  | .infinite negative => if negative then "-inf" else "inf"
  | .nan => "NaN"

namespace Notice

/-- How much a notice matters. -/
def level : Notice → String
  | clampedDelay _ => "WARN"
  | _ => "DEBUG"

/-- The text of a notice. -/
def text : Notice → String
  | removed count => "removed " ++ toString count ++ " deleted effect(s)"
  | deletedReference id default =>
    "reference to deleted effect " ++ toString id ++ " demoted to " ++ numberText default
  | missingReference id default =>
    "reference to missing effect " ++ toString id ++ " demoted to " ++ numberText default
  | clampedDelay requested =>
    "delay of " ++ numberText requested ++ "s clamped to " ++ numberText maxDelaySeconds ++ "s"
  | compiled name nodes registers buffers =>
    "compiled effect rack '" ++ name ++ "': " ++ toString nodes ++ " nodes, " ++
      toString registers ++ " registers, " ++ toString buffers ++ " buffers"

/-- A notice as a line of a log. -/
def line (notice : Notice) : String := notice.level ++ ": " ++ notice.text

end Notice

namespace Rack

/-- The rack after IDs are assigned and deleted nodes removed. -/
def settle (rack : Rack) : Rack :=
  let identified := rack.identify
  (if identified.hasDeleted then identified.compact else identified).locate

/-- Drops a cursor that points past the last node. -/
def clampCursor (rack : Rack) : Rack :=
  { rack with cursor := rack.cursor.filter (· < rack.nodes.length) }

/-- Assigns IDs, removes deleted nodes, and allocates every register. -/
def compile (rack : Rack) (version : Nat) : Rack :=
  (rack.settle.allocate version).clampCursor

/-- References that compaction turns into constants. -/
def deletedReferences (survivors : List Node) : List Notice :=
  survivors.flatMap fun node => node.effect.withDefaults.params.filterMap fun (param, default) =>
    match param.binding with
    | .node id => if (newId? survivors id).isNone then some (.deletedReference id default) else none
    | _ => none

/-- References that allocation turns into constants. -/
def missingReferences (positions : Array Nat) (effect : Effect Param) : List Notice :=
  effect.withDefaults.params.filterMap fun (param, default) =>
    match param.binding with
    | .node id => if id < positions.size then none else some (.missingReference id default)
    | _ => none

/-- The notice of a delay that asks for too much. -/
def clampedDelays : Effect Param → List Notice
  | .delay d =>
    let requested := requestedSeconds d.seconds.binding
    if maxDelaySeconds < requested then [.clampedDelay requested] else []
  | _ => []

/-- Everything a compilation reports, in order. -/
def compileNotices (rack : Rack) : List Notice :=
  let identified := rack.identify
  let removal :=
    if identified.hasDeleted then
      .removed (identified.nodes.length - identified.survivors.length) ::
        deletedReferences identified.survivors
    else []
  let settled := rack.settle
  let done := rack.compile 1
  removal ++
    settled.nodes.flatMap (fun node =>
      missingReferences settled.positions node.effect ++ clampedDelays node.effect) ++
    [.compiled rack.name done.nodes.length done.template.size done.template.bufferSeconds.size]

end Rack

end SynthRack
