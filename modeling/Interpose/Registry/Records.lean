import Interpose.Registry.Lifecycle
import Mathlib.Logic.Function.Basic

/-!
The records behind a registry, in which the phase of a patch and its handle are fields of their own
and either may be assigned without the other. Patching and restoring come in two parts. The first
answers at once or leaves an errand to the host, and the second takes in what the host says. Other
calls may come between the two.
-/

set_option autoImplicit false
set_option relaxedAutoImplicit false

namespace Interpose

inductive Phase
  | unpatched
  | installing
  | installed
  | uninstalling

def PatchState.phase : PatchState → Phase
  | .unpatched => .unpatched
  | .installing => .installing
  | .installed _ => .installed
  | .uninstalling _ => .uninstalling

structure Record where
  method : MethodId
  name : String
  points : List Point
  phase : Phase
  handle : Option Handle
  searches : Nat

def Slot.record (slot : Slot) : Record :=
  ⟨slot.method, slot.name, slot.points, slot.state.phase, slot.state.handle?, slot.searches⟩

abbrev Records := MethodId → Option Record

def Registry.records (r : Registry) : Records := fun m => (r.find? m).map Slot.record

namespace Record

/-- The answer of an installation that needs nothing from the host, and the record from then on. -/
def beginInstall (r : Record) : Option (Except PatchError InstallOutcome) × Record :=
  match r.phase, r.handle with
  | .installed, some handle => (some (.ok ⟨handle, false⟩), r)
  | .installing, _ | .uninstalling, _ => (some (.error (.busy r.name)), r)
  | .installed, none | .unpatched, _ =>
    (none, { r with phase := .installing, searches := r.searches + 1 })

def endInstall (r : Record) : Except PatchError Handle → Record
  | .ok handle => { r with phase := .installed, handle := some handle }
  | .error _ => { r with phase := .unpatched }

/-- The handle to be taken back, or the answer if there is none, and the record from then on. -/
def beginUninstall (r : Record) : Except (Except PatchError Bool) Handle × Record :=
  match r.phase, r.handle with
  | .unpatched, _ => (.error (.ok false), r)
  | .installing, _ | .uninstalling, _ => (.error (.error (.busy r.name)), r)
  | .installed, none => (.error (.ok false), { r with phase := .unpatched })
  | .installed, some handle => (.ok handle, { r with phase := .uninstalling })

def endUninstall (r : Record) : Except HostError Unit → Record
  | .ok () => { r with phase := .unpatched, handle := none }
  | .error _ => { r with phase := .installed }

end Record

/-- Points are added behind those of an unpatched method. A new method gets a record, with the
name. -/
def Records.add (t : Records) (m : MethodId) (name : String) (points : List Point) : Records :=
  match t m with
  | none => Function.update t m (some ⟨m, name, points, .unpatched, none, 0⟩)
  | some record =>
    match record.phase with
    | .unpatched =>
      Function.update t m (some { record with points := record.points ++ points })
    | _ => t

/-- A request that the host has not answered yet. -/
inductive Errand
  | patch (m : MethodId)
  | restore (m : MethodId)
  deriving DecidableEq

def Errand.method : Errand → MethodId
  | .patch m | .restore m => m

def Errand.phase : Errand → Phase
  | .patch _ => .installing
  | .restore _ => .uninstalling

structure Desk where
  records : Records
  errands : List Errand

namespace Desk

/-- One part of a call. It ends an errand only if the host was sent on it, but errands may end in
any order and with any result. -/
inductive Step : Desk → Desk → Prop
  | add {t : Records} {es : List Errand} (m : MethodId) (name : String) (points : List Point) :
      Step ⟨t, es⟩ ⟨t.add m name points, es⟩
  | installAnswered {t : Records} {es : List Errand} {m : MethodId} {record after : Record}
      {answer : Except PatchError InstallOutcome} : t m = some record →
      record.beginInstall = (some answer, after) →
      Step ⟨t, es⟩ ⟨Function.update t m (some after), es⟩
  | patch {t : Records} {es : List Errand} {m : MethodId} {record after : Record} :
      t m = some record → record.beginInstall = (none, after) →
      Step ⟨t, es⟩ ⟨Function.update t m (some after), .patch m :: es⟩
  | patched {t : Records} {es : List Errand} {m : MethodId} {record : Record}
      (result : Except PatchError Handle) : Errand.patch m ∈ es → t m = some record →
      Step ⟨t, es⟩ ⟨Function.update t m (some (record.endInstall result)), es.erase (.patch m)⟩
  | uninstallAnswered {t : Records} {es : List Errand} {m : MethodId} {record after : Record}
      {answer : Except PatchError Bool} : t m = some record →
      record.beginUninstall = (.error answer, after) →
      Step ⟨t, es⟩ ⟨Function.update t m (some after), es⟩
  | restore {t : Records} {es : List Errand} {m : MethodId} {record after : Record}
      {handle : Handle} : t m = some record → record.beginUninstall = (.ok handle, after) →
      Step ⟨t, es⟩ ⟨Function.update t m (some after), .restore m :: es⟩
  | restored {t : Records} {es : List Errand} {m : MethodId} {record : Record}
      (result : Except HostError Unit) : Errand.restore m ∈ es → t m = some record →
      Step ⟨t, es⟩ ⟨Function.update t m (some (record.endUninstall result)), es.erase (.restore m)⟩

end Desk

end Interpose
