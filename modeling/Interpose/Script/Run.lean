import Interpose.Script.Command

/-!
Running commands against a host in memory with hooks. A hook is a command that the host runs of its
own accord when it is asked to activate a body of a certain method, before it does so; so the
registry is called back while it waits for the host. A hook may lead to the activation of another
method and so to further hooks, but never of a method that is being activated, which the registry
holds busy: as many levels as there are hooks are enough.
-/

set_option autoImplicit false
set_option relaxedAutoImplicit false

namespace Interpose

/-- A command to run whenever a body of a method is about to be activated. -/
structure Hook where
  /-- The name of the method. -/
  on : String
  command : Command

/-- A host in memory with a record of what its hooks answered, and of the calls that augment
callbacks received. -/
structure Stage where
  memory : Memory
  answers : List (Except CommandError Answer)
  receipts : List Receipt

namespace Script

abbrev Outcome := Except CommandError Answer × World Stage

def withMemory (w : World Stage) (memory : Memory) : World Stage :=
  { w with host := { w.host with memory } }

def answered (w : World Stage) (answer : Except CommandError Answer) : World Stage :=
  { w with host := { w.host with answers := w.host.answers ++ [answer] } }

def received (w : World Stage) (receipt : Receipt) : World Stage :=
  { w with host := { w.host with receipts := w.host.receipts ++ [receipt] } }

/-- Activates a body past the hooks. -/
def activatePlain (w : World Stage) (m : MethodId) (body : Body) :
    Except HostError Unit × World Stage :=
  let (result, memory) := w.host.memory.activate m body
  (result, withMemory w memory)

def ofRegistry {α : Type} (answer : α → Answer) : World.Outcome Stage α → Outcome
  | (.ok a, w) => (.ok (answer a), w)
  | (.error e, w) => (.error (.patch e), w)

def ofHost {α : Type} (answer : α → Answer) (result : Except HostError α) (w : World Stage) :
    Outcome :=
  match result with
  | .ok a => (.ok (answer a), w)
  | .error e => (.error (.host e), w)

def resolve (w : World Stage) : Target → Except HostError MethodId
  | .named name => w.host.memory.resolve name
  | .numbered m => .ok m

def withTarget (w : World Stage) (target : Target) (run : MethodId → Outcome) : Outcome :=
  match resolve w target with
  | .ok m => run m
  | .error e => (.error (.host e), w)

def withDispatcher (w : World Stage) (dispatcher : Dispatcher) : World Stage :=
  w.withRegistry { w.registry with dispatcher }

def ofDispatch {α : Type} (answer : α → Answer) (result : Except DispatchError α)
    (w : World Stage) : Outcome :=
  match result with
  | .ok a => (.ok (answer a), w)
  | .error e => (.error (.dispatch e), w)

/-- The world after a dispatched call: what an augment callback received is recorded. -/
def afterReply (w : World Stage) : Except DispatchError Reply → World Stage
  | .ok (.received receipt) => received w receipt
  | _ => w

def run (host : Host Stage) (table : AnchorTable) (w : World Stage) : Command → Outcome
  | .register blueprint =>
    match blueprint.build table with
    | .error e => (.error (.load e), w)
    | .ok patch => ofRegistry .method (w.register host patch)
  | .install target => withTarget w target fun m => ofRegistry .installation (w.install host m)
  | .uninstall target => withTarget w target fun m => ofRegistry .flag (w.uninstall host m)
  | .installAll => ofRegistry .installations (w.installAll host)
  | .uninstallAll => ofRegistry .count (w.uninstallAll host)
  | .methods => (.ok (.methods w.registry.methods), w)
  | .installed => (.ok (.methods w.registry.installed), w)
  | .state target => withTarget w target fun m => (.ok (.state (w.registry.state? m)), w)
  | .handle target => withTarget w target fun m => (.ok (.handle (w.registry.handle? m)), w)
  | .searches target => withTarget w target fun m => (.ok (.count (w.registry.searchCount m)), w)
  | .enroll point callback =>
    match w.registry.dispatcher.register point callback with
    | .ok dispatcher => (.ok .done, withDispatcher w dispatcher)
    | .error e => (.error (.dispatch e), w)
  | .dismiss point =>
    let (found, dispatcher) := w.registry.dispatcher.unregister point
    (.ok (.flag found), withDispatcher w dispatcher)
  | .dispatchInfo point =>
    (.ok (.dispatchInfo (w.registry.dispatcher.contains point) w.registry.dispatcher.size), w)
  | .invoke method args =>
    let result := w.registry.dispatcher.invoke method args
    ofDispatch .reply result (afterReply w result)
  | .consume point active => ofDispatch .flag (w.registry.dispatcher.consume point active) w
  | .augment point active context =>
    let result := w.registry.dispatcher.augment point active context
    ofDispatch (fun _ => .done) result (afterReply w (result.map .received))
  | .define name body =>
    let (m, memory) := w.host.memory.define name body
    (.ok (.method m), withMemory w memory)
  | .lock target locked =>
    withTarget w target fun m => (.ok .done, withMemory w (w.host.memory.setLocked m locked))
  | .resolve target => withTarget w target fun m => (.ok (.method m), w)
  | .loadBody target => withTarget w target fun m => ofHost .body (w.host.memory.loadBody m) w
  | .activate target body =>
    withTarget w target fun m =>
      let (result, w) := activatePlain w m body
      ofHost (fun () => .done) result w
  | .methodInfo target => withTarget w target fun m => (.ok (.methodInfo (w.host.memory.info m)), w)

def hooksOn (hooks : List Hook) (w : World Stage) (m : MethodId) : List Hook :=
  hooks.filter fun hook => w.host.memory.nameOf? m = some hook.on

/-- A host in memory that runs hooks, nested up to a number of levels. Hooks have no anchor
table. -/
def hooked (hooks : List Hook) : (levels : Nat) → Host Stage
  | 0 => {
      resolve := fun stage name => stage.memory.resolve name
      nameOf? := fun stage m => stage.memory.nameOf? m
      loadBody := fun w m => (w.host.memory.loadBody m, w)
      activate := activatePlain
      restore := activatePlain }
  | levels + 1 =>
    let inner := hooked hooks levels
    let replace (w : World Stage) (m : MethodId) (body : Body) :
        Except HostError Unit × World Stage :=
      let w := (hooksOn hooks w m).foldl (fun w hook =>
        let (answer, w) := run inner .empty w hook.command
        answered w answer) w
      activatePlain w m body
    { inner with activate := replace, restore := replace }

def host (hooks : List Hook) : Host Stage := hooked hooks hooks.length

def Hook.isLock (hook : Hook) : Bool :=
  match hook.command with
  | .lock .. => true
  | _ => false

/-- The host in memory with some methods defined, each locked or not. -/
def defineAll (methods : List (String × Body × Bool)) : Memory :=
  methods.foldl (fun memory (name, body, locked) =>
    let (m, memory) := memory.define name body
    memory.setLocked m locked) .empty

def stage (memory : Memory) : Stage := ⟨memory, [], []⟩

/-- The world in which nothing is recorded any more. -/
def cleared (w : World Stage) : World Stage :=
  { w with host := stage w.host.memory, log := [] }

end Script

end Interpose
