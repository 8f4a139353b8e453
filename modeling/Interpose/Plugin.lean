import Interpose.Blueprint
import Interpose.Home
import Interpose.Registry.Lifecycle

/-!
Plugins: patches that are loaded and unloaded together. Loading installs every patch or none.
Unloading gives every saved body back; where the host refuses one, it runs a body that nobody
owns, and must not go on. A plugin that is dropped instead gives back what it can, unless a failure
is already under way.
-/

set_option autoImplicit false
set_option relaxedAutoImplicit false

namespace Interpose

inductive UnloadError
  /-- The host refused a saved body. It cannot go on from here. -/
  | unrestored (method : String) (source : HostError)
  | refused (source : PatchError)
  deriving DecidableEq

namespace Plugin

variable {σ : Type}

def registerEach (w : World σ) (host : Host σ) : List MethodPatch → World.Outcome σ Unit
  | [] => (.ok (), w)
  | patch :: rest =>
    match w.register host patch with
    | (.ok _, w) => registerEach w host rest
    | (.error e, w) =>
      (.error e, w.logged .error
        ("Failed to register patch for " ++ patch.target ++ ": " ++ e.message))

/-- The world of a host in some state, before anything is registered. -/
def fresh (settings : Settings) (state : σ) : World σ := ⟨state, .empty settings.strict, []⟩

/-- Registers patches with a host and installs them all. -/
def load (host : Host σ) (settings : Settings) (patches : List MethodPatch) (state : σ) :
    World.Outcome σ Unit :=
  match registerEach (fresh settings state) host patches with
  | (.error e, w) => (.error e, w)
  | (.ok (), w) =>
    match w.installAll host with
    | (.ok _, w) => (.ok (), w)
    | (.error e, w) => (.error e, w.logged .error ("ilsplice load failed: " ++ e.message))

def buildEach (table : AnchorTable) : List PatchBlueprint → Except LoadError (List MethodPatch)
  | [] => .ok []
  | blueprint :: rest =>
    match blueprint.build table with
    | .error e => .error e
    | .ok patch => (buildEach table rest).map (patch :: ·)

/-- Builds patches with the anchors of a table, and loads them. -/
def loadWith (host : Host σ) (settings : Settings) (table : AnchorTable)
    (blueprints : List PatchBlueprint) (state : σ) : Except LoadError Unit × World σ :=
  match buildEach table blueprints with
  | .error e => (.error e, fresh settings state)
  | .ok patches =>
    match load host settings patches state with
    | (.error e, w) => (.error (.patch e), w)
    | (.ok (), w) => (.ok (), w)

/-- Loads patches with the settings and the anchors of an installation. Gives the settings, and the
installation with a file of settings if it had none. -/
def loadFromHome (host : Host σ) (home : Home) (blueprints : List PatchBlueprint) (state : σ) :
    (Except LoadError Settings × World σ) × Home :=
  match home.load with
  | (.error e, home) => ((.error (.settings e), fresh .standard state), home)
  | (.ok settings, home) =>
    match home.loadAnchors settings.gamedata with
    | .error e => ((.error (.anchors e), fresh settings state), home)
    | .ok table =>
      match loadWith host settings table blueprints state with
      | (.error e, w) => ((.error e, w), home)
      | (.ok (), w) => ((.ok settings, w), home)

/-- Gives back what is still installed, without a way to report failures but the log. Where the
plugin goes only because a panic is unwinding, the host is left alone. -/
def drop (host : Host σ) (unwinding : Bool) (w : World σ) : World σ :=
  if unwinding || w.registry.installed.isEmpty then w
  else
    let w := w.logged .warning "Module dropped without unload, restoring original bodies"
    match w.uninstallAll host with
    | (.ok _, w) => w
    | (.error e, w) => w.logged .error ("Restore on drop failed: " ++ e.message)

/-- Gives every saved body back, and tells how many there were. The plugin is dropped afterwards,
which is part of the unwinding if the host cannot go on. -/
def unload (host : Host σ) (w : World σ) : Except UnloadError Nat × World σ :=
  match w.uninstallAll host with
  | (.ok restored, w) => (.ok restored, drop host false w)
  | (.error (.restoreFailed method source), w) =>
    (.error (.unrestored method source),
      drop host true (w.logged .error ("Could not restore " ++ method ++ ": " ++ source.message)))
  | (.error e, w) =>
    (.error (.refused e),
      drop host false (w.logged .error ("ilsplice unload failed: " ++ e.message)))

end Plugin

/-- The last words of a host that cannot go on, or the wording of a refusal. -/
def UnloadError.message : UnloadError → String
  | .unrestored method source =>
    "ilsplice: could not restore " ++ method ++ ": " ++ source.message
  | .refused source => (LoadError.patch source).message

end Interpose
