import Interpose.Registry.Basic

/-!
The world a registry works in: the host with its state, and the log. A host may call back into the
registry while it serves a request, so what it does is a step of the whole world.
-/

set_option autoImplicit false
set_option relaxedAutoImplicit false

namespace Interpose

inductive Severity
  | warning | error
  deriving DecidableEq

structure LogLine where
  severity : Severity
  text : String
  deriving DecidableEq

/-- A host in some state, the registry of its patched methods, and the log, the oldest line
first. -/
structure World (σ : Type) where
  host : σ
  registry : Registry
  log : List LogLine

namespace World

variable {σ : Type}

def withRegistry (w : World σ) (registry : Registry) : World σ := { w with registry }

def setState (w : World σ) (m : MethodId) (state : PatchState) : World σ :=
  w.withRegistry (w.registry.setState m state)

def logged (w : World σ) (severity : Severity) (text : String) : World σ :=
  { w with log := w.log ++ [⟨severity, text⟩] }

end World

/-- What a host does. Names are looked up in its state alone; to hand over, replace or restore a
body it may do anything to the world. -/
structure Host (σ : Type) where
  resolve : σ → String → Except HostError MethodId
  nameOf? : σ → MethodId → Option String
  loadBody : World σ → MethodId → Except HostError Body × World σ
  activate : World σ → MethodId → Body → Except HostError Unit × World σ
  restore : World σ → MethodId → Body → Except HostError Unit × World σ

namespace Host

variable {σ : Type}

/-- A method in texts: its name if the host knows it, its identity otherwise. -/
def describe (host : Host σ) (state : σ) (m : MethodId) : String :=
  (host.nameOf? state m).getD m.text

/-- The host in memory keeps to itself, and restores a body as it activates one. -/
def memory : Host Memory where
  resolve := Memory.resolve
  nameOf? := Memory.nameOf?
  loadBody w m := (w.host.loadBody m, w)
  activate := replace
  restore := replace
where
  replace (w : World Memory) (m : MethodId) (body : Body) : Except HostError Unit × World Memory :=
    let (result, host) := w.host.activate m body
    (result, { w with host })

end Host

end Interpose
