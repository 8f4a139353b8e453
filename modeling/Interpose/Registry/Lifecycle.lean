import Interpose.Registry.Assembly
import Interpose.Registry.World

/-!
Registering, installing and uninstalling patches. A method's points are all applied to a copy and
activated together, so that the host runs the patched body or the one before it, and nothing
between. While a method is on its way, a call back from the host finds it busy.
-/

set_option autoImplicit false
set_option relaxedAutoImplicit false

namespace Interpose

open Interpose.Text (decimal)

structure InstallOutcome where
  handle : Handle
  /-- The patch was installed now, and not before. -/
  isNew : Bool
  deriving DecidableEq

namespace World

variable {σ : Type}

/-- The result of an operation or its failure, and the world afterwards. -/
abbrev Outcome (σ α : Type) := Except PatchError α × World σ

def register (w : World σ) (host : Host σ) (patch : MethodPatch) : Outcome σ MethodId :=
  match host.resolve w.host patch.target with
  | .error e => (.error (.host e), w)
  | .ok m =>
    match w.registry.add m (host.describe w.host m) patch.points with
    | .error e => (.error e, w)
    | .ok registry => (.ok m, w.withRegistry registry)

/-- What is known of a method, or the refusal of one that has no points. -/
def slot (w : World σ) (host : Host σ) (m : MethodId) : Except PatchError Slot :=
  match w.registry.find? m with
  | some slot => .ok slot
  | none => .error (.notRegistered (host.describe w.host m))

/-- Warns of the anchors that were found by a fallback, if the registry is strict. -/
def warnFallbacks (w : World σ) (method : String) (reports : List SpliceReport) : World σ :=
  if w.registry.strict then
    (reports.filter SpliceReport.usedFallback).foldl (fun w r => w.logged .warning <|
      "'" ++ r.point ++ "' in " ++ method ++ " matched fallback anchor '" ++ r.pattern ++ "'") w
  else w

/-- Loads a body, applies points to it and activates the result. -/
def activatePatched (w : World σ) (host : Host σ) (m : MethodId) (name : String)
    (points : List Point) : Outcome σ Handle :=
  match host.loadBody w m with
  | (.error e, w) => (.error (.host e), w)
  | (.ok body, w) =>
    let (applied, result) := Assembly.assemble name points body
    let w := w.warnFallbacks name applied
    match result with
    | .error e => (.error e, w)
    | .ok patched =>
      match host.activate w m patched with
      | (.error e, w) => (.error (.host e), w)
      | (.ok (), w) => (.ok ⟨m, name, body, patched, applied⟩, w)

/-- Installs the points of a method. Installing again changes nothing; a failure leaves the method
unpatched. -/
def install (w : World σ) (host : Host σ) (m : MethodId) : Outcome σ InstallOutcome :=
  match w.slot host m with
  | .error e => (.error e, w)
  | .ok slot =>
    match slot.state with
    | .installed handle => (.ok ⟨handle, false⟩, w)
    | .installing | .uninstalling _ => (.error (.busy slot.name), w)
    | .unpatched =>
      let started := w.withRegistry (w.registry.startInstall m)
      match started.activatePatched host m slot.name slot.points with
      | (.ok handle, w) => (.ok ⟨handle, true⟩, w.setState m (.installed handle))
      | (.error e, w) =>
        (.error e, (w.setState m .unpatched).logged .error
          ("Failed to install patch for " ++ slot.name ++ ": " ++ e.message))

/-- Puts the saved body of a method back, and tells whether a patch was installed. If the host
refuses, the patch stays. -/
def uninstall (w : World σ) (host : Host σ) (m : MethodId) : Outcome σ Bool :=
  match w.slot host m with
  | .error e => (.error e, w)
  | .ok slot =>
    match slot.state with
    | .unpatched => (.ok false, w)
    | .installing | .uninstalling _ => (.error (.busy slot.name), w)
    | .installed handle =>
      match host.restore (w.setState m (.uninstalling handle)) m handle.saved with
      | (.ok (), w) => (.ok true, w.setState m .unpatched)
      | (.error e, w) =>
        (.error (.restoreFailed slot.name e), (w.setState m (.installed handle)).logged .error
          ("Failed to restore original body of " ++ slot.name ++ ": " ++ e.message))

/-- Uninstalls methods in order after a failure. The first that fails ends the roll-back, and its
failure counts instead of the given one. -/
def rollBack (w : World σ) (host : Host σ) (failure : PatchError) :
    List MethodId → PatchError × World σ
  | [] => (failure, w)
  | m :: rest =>
    match w.uninstall host m with
    | (.ok _, w) => w.rollBack host failure rest
    | (.error e, w) => (e, w)

/-- Installs methods in order; `done` are the outcomes so far, the latest first. A failure takes
back what was newly installed. -/
def installEach (w : World σ) (host : Host σ) (done : List InstallOutcome) :
    List MethodId → Outcome σ (List InstallOutcome)
  | [] => (.ok done.reverse, w)
  | m :: rest =>
    match w.install host m with
    | (.ok outcome, w) => w.installEach host (outcome :: done) rest
    | (.error e, w) =>
      let new := done.filter InstallOutcome.isNew
      let w := w.logged .warning
        ("Rolling back " ++ decimal new.length ++ " method(s) after install failure")
      let (e, w) := w.rollBack host e (new.map (·.handle.method))
      (.error e, w)

def installAll (w : World σ) (host : Host σ) : Outcome σ (List InstallOutcome) :=
  w.installEach host [] w.registry.methods

/-- Uninstalls methods in order and goes on after failures. Gives the number of patches taken back
and the first failure. -/
def uninstallEach (w : World σ) (host : Host σ) :
    List MethodId → (Nat × Option PatchError) × World σ
  | [] => ((0, none), w)
  | m :: rest =>
    let (result, w) := w.uninstall host m
    let ((restored, failure), w) := w.uninstallEach host rest
    match result with
    | .ok true => ((restored + 1, failure), w)
    | .ok false => ((restored, failure), w)
    | .error e => ((restored, some e), w)

/-- Uninstalls every registered method in reverse order of registration, and gives the number of
patches taken back, or else the first failure. -/
def uninstallAll (w : World σ) (host : Host σ) : Outcome σ Nat :=
  match w.uninstallEach host w.registry.methods.reverse with
  | ((_, some e), w) => (.error e, w)
  | ((restored, none), w) => (.ok restored, w)

end World

end Interpose
