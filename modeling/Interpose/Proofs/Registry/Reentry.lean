import Interpose.Proofs.Registry.Evolves

/-!
Calls from inside. While a host serves a request for a method that is being patched or restored, it
may call the same registry for the same method. The host is followed together with a journal of
these calls. Each is refused and changes nothing, so that the operation they came from has the
result, and leaves the world, that it would have over the host without them.
-/

set_option autoImplicit false
set_option relaxedAutoImplicit false

namespace Interpose

variable {σ : Type}

def Call.failure? (host : Host σ) (w : World σ) : Call → Option PatchError
  | .register patch => error? (w.register host patch).1
  | .install m => error? (w.install host m).1
  | .uninstall m => error? (w.uninstall host m).1
  | .installAll => error? (w.installAll host).1
  | .uninstallAll => error? (w.uninstallAll host).1
where
  error? {α : Type} : Except PatchError α → Option PatchError
    | .error e => some e
    | .ok _ => none

inductive Call.Targets (host : Host σ) (w : World σ) (m : MethodId) : Call → Prop
  | install : Targets host w m (.install m)
  | uninstall : Targets host w m (.uninstall m)
  | register {patch : MethodPatch} : host.resolve w.host patch.target = .ok m →
      Targets host w m (.register patch)

def World.Busy (w : World σ) (m : MethodId) (slot : Slot) : Prop :=
  w.registry.find? m = some slot ∧ slot.Busy

/-! ### Calls for a busy method -/

namespace World

variable {w : World σ} {m : MethodId} {slot : Slot}

theorem Busy.install (busy : w.Busy m slot) (host : Host σ) :
    w.install host m = (.error (.busy slot.name), w) := by
  obtain ⟨found, state | ⟨handle, state⟩⟩ := busy <;>
    simp only [World.install, World.slot, found, state]

theorem Busy.uninstall (busy : w.Busy m slot) (host : Host σ) :
    w.uninstall host m = (.error (.busy slot.name), w) := by
  obtain ⟨found, state | ⟨handle, state⟩⟩ := busy <;>
    simp only [World.uninstall, World.slot, found, state]

/-- The points are checked before the method is looked at, so any error may be the first. -/
theorem Busy.register (busy : w.Busy m slot) {host : Host σ} {patch : MethodPatch}
    (target : host.resolve w.host patch.target = .ok m) :
    ∃ e, w.register host patch = (.error e, w) := by
  obtain ⟨found, state⟩ := busy
  cases enrolled : Registry.enroll w.registry.dispatcher patch.points with
  | error e => exact ⟨e, by simp only [World.register, target, Registry.add, enrolled]⟩
  | ok d =>
    refine ⟨.methodPatched slot.name, ?_⟩
    rcases state with state | ⟨handle, state⟩ <;>
      simp only [World.register, target, Registry.add, enrolled, found, state]

theorem Busy.perform (busy : w.Busy m slot) {host : Host σ} {c : Call}
    (target : c.Targets host w m) : c.performOn host w = w := by
  cases target with
  | install => exact congrArg Prod.snd (busy.install host)
  | uninstall => exact congrArg Prod.snd (busy.uninstall host)
  | register target =>
    obtain ⟨e, refused⟩ := busy.register target
    exact congrArg Prod.snd refused

end World

/-! ### The journal -/

/-- A call that a host made while it served a request, with the registry before and after it. -/
structure Nested where
  call : Call
  before : Registry
  failure : Option PatchError
  after : Registry

/-- The call failed and changed nothing. Patching and restoring failed because the method was
busy. -/
structure Nested.Refused (m : MethodId) (e : Nested) : Prop where
  unchanged : e.after = e.before
  failed : e.failure.isSome
  busy : e.call = .install m ∨ e.call = .uninstall m →
    ∃ slot, e.before.find? m = some slot ∧ e.failure = some (.busy slot.name)

structure Journaled (σ : Type) where
  own : σ
  nested : List Nested

namespace World

def own (w : World (Journaled σ)) : World σ := ⟨w.host.own, w.registry, w.log⟩

def journaled (w : World σ) (nested : List Nested) : World (Journaled σ) :=
  ⟨⟨w.host, nested⟩, w.registry, w.log⟩

def call (w : World (Journaled σ)) (host : Host (Journaled σ)) (c : Call) : World (Journaled σ) :=
  let after := c.performOn host w
  after.own.journaled
    (after.host.nested ++ [⟨c, w.registry, c.failure? host w, after.registry⟩])

/-- The worlds that calls for a method lead to. -/
inductive Interrupted (host : Host (Journaled σ)) (m : MethodId) :
    World (Journaled σ) → World (Journaled σ) → Prop
  | rest (w : World (Journaled σ)) : Interrupted host m w w
  | more {w u : World (Journaled σ)} {c : Call} : c.Targets host w m →
      Interrupted host m (w.call host c) u → Interrupted host m w u

/-- Some work is done on the world without the journal, step by step. Calls for a method are made
before, between and after the steps. -/
inductive Interrupts (host : Host (Journaled σ)) (m : MethodId) {α : Type} :
    (World σ → α × World σ) → World (Journaled σ) → α × World (Journaled σ) → Prop
  | last {work : World σ → α × World σ} {w u v : World (Journaled σ)} : Interrupted host m w u →
      Interrupted host m ((work u.own).2.journaled u.host.nested) v →
      Interrupts host m work w ((work u.own).1, v)
  | step {first : World σ → World σ} {rest : World σ → α × World σ} {w u : World (Journaled σ)}
      {served : α × World (Journaled σ)} : Interrupted host m w u →
      (∀ w, (first w).registry = w.registry) →
      Interrupts host m rest ((first u.own).journaled u.host.nested) served →
      Interrupts host m (fun w => rest (first w)) w served

end World

/-- The journaling host does what `own` does. Whenever it serves a request for a method that is
being patched or restored, it calls back for that method any number of times. -/
structure Host.Reenters (own : Host σ) (host : Host (Journaled σ)) : Prop where
  resolve : ∀ s name, host.resolve s name = own.resolve s.own name
  named : ∀ s m, host.nameOf? s m = own.nameOf? s.own m
  load : ∀ w m slot, w.Busy m slot →
    World.Interrupts host m (own.loadBody · m) w (host.loadBody w m)
  activate : ∀ w m slot body, w.Busy m slot →
    World.Interrupts host m (own.activate · m body) w (host.activate w m body)
  restore : ∀ w m slot body, w.Busy m slot →
    World.Interrupts host m (own.restore · m body) w (host.restore w m body)

namespace World

variable {own : Host σ} {host : Host (Journaled σ)} {m : MethodId} {slot : Slot}
  {w u v : World (Journaled σ)}

def Notes (m : MethodId) (w u : World (Journaled σ)) : Prop :=
  ∃ more, u.host.nested = w.host.nested ++ more ∧ ∀ e ∈ more, e.Refused m

theorem Notes.none (same : u.host.nested = w.host.nested) : Notes m w u :=
  ⟨[], by rw [same, List.append_nil], by simp⟩

theorem Notes.trans (first : Notes m w u) (second : Notes m u v) : Notes m w v := by
  obtain ⟨more, grown, refused⟩ := first
  obtain ⟨last, onward, late⟩ := second
  refine ⟨more ++ last, by rw [onward, grown, List.append_assoc], fun e member => ?_⟩
  rcases List.mem_append.mp member with early | behind
  · exact refused e early
  · exact late e behind

theorem Busy.own_iff : w.own.Busy m slot ↔ w.Busy m slot := Iff.rfl

theorem Busy.call (busy : w.Busy m slot) {c : Call} (target : c.Targets host w m) :
    (w.call host c).own = w.own ∧ Notes m w (w.call host c) := by
  have same := busy.perform target
  have kept : (c.performOn host w).own = w.own := congrArg World.own same
  refine ⟨kept, [⟨c, w.registry, c.failure? host w, w.registry⟩], ?_, ?_⟩
  · simp only [World.call, same, journaled]
  · intro e member
    obtain rfl := List.mem_singleton.mp member
    refine ⟨rfl, ?_, ?_⟩
    · cases target with
      | install => simp [Call.failure?, Call.failure?.error?, busy.install host]
      | uninstall => simp [Call.failure?, Call.failure?.error?, busy.uninstall host]
      | register target =>
        obtain ⟨e, refused⟩ := busy.register target
        simp [Call.failure?, Call.failure?.error?, refused]
    · rintro (rfl | rfl)
      · exact ⟨slot, busy.1, by simp [Call.failure?, Call.failure?.error?, busy.install host]⟩
      · exact ⟨slot, busy.1, by simp [Call.failure?, Call.failure?.error?, busy.uninstall host]⟩

theorem Interrupted.refused (interrupted : Interrupted host m w u) (busy : w.Busy m slot) :
    u.own = w.own ∧ Notes m w u := by
  induction interrupted with
  | rest w => exact ⟨rfl, .none rfl⟩
  | more target _ ih =>
    obtain ⟨same, noted⟩ := busy.call target
    obtain ⟨still, onward⟩ := ih (by rwa [← Busy.own_iff, same])
    exact ⟨still.trans same, noted.trans onward⟩

/-- An operation over the journaling host has the same outcome as the operation without the journal,
and what was called meanwhile is refused. -/
structure Agrees (m : MethodId) {α : Type} (w : World (Journaled σ)) (plain : α × World σ)
    (served : α × World (Journaled σ)) : Prop where
  result : served.1 = plain.1
  own : served.2.own = plain.2
  notes : Notes m w served.2

theorem Agrees.start {α : Type} {plain : α × World σ} {served : α × World (Journaled σ)}
    (agrees : Agrees m u plain served) (same : u.host = w.host) : Agrees m w plain served := by
  obtain ⟨result, kept, noted⟩ := agrees
  exact ⟨result, kept, (Notes.none (congrArg Journaled.nested same)).trans noted⟩

theorem Interrupts.agrees {α : Type} {work : World σ → α × World σ}
    {served : α × World (Journaled σ)} (interrupts : Interrupts host m work w served)
    (busy : w.Busy m slot) (keeps : (work w.own).2.registry = w.registry) :
    Agrees m w (work w.own) served := by
  have busy_after : ∀ {u : World σ} {nested : List Nested}, u.registry = w.registry →
      (u.journaled nested).Busy m slot :=
    fun same => ⟨(congrArg (·.find? m) same).trans busy.1, busy.2⟩
  -- Calls find the method busy and leave the world, and the steps between them leave it busy.
  induction interrupts with
  | @last work w u v before after =>
    obtain ⟨same, early⟩ := before.refused busy
    rw [same] at after ⊢
    obtain ⟨kept, late⟩ := after.refused (busy_after keeps)
    exact ⟨rfl, kept, early.trans ((Notes.none rfl).trans late)⟩
  | @step first rest w u served before first_keeps _ ih =>
    obtain ⟨same, early⟩ := before.refused busy
    rw [same] at ih
    have first_keeps := first_keeps w.own
    obtain ⟨result, kept, late⟩ := ih (busy_after first_keeps) (keeps.trans first_keeps.symm)
      fun still => busy_after (still.trans first_keeps)
    exact ⟨result, kept, early.trans ((Notes.none rfl).trans late)⟩

theorem own_warnFallbacks (w : World (Journaled σ)) (method : String)
    (reports : List SpliceReport) :
    (w.warnFallbacks method reports).own = w.own.warnFallbacks method reports ∧
      (w.warnFallbacks method reports).host = w.host := by
  refine ⟨?_, (w.warnFallbacks_same method reports).2⟩
  unfold warnFallbacks
  change World.own (if w.registry.strict then _ else _) = if w.registry.strict then _ else _
  split
  · next strict =>
    clear strict
    generalize reports.filter SpliceReport.usedFallback = warned
    induction warned generalizing w with
    | nil => rfl
    | cons report warned ih => exact ih (w.logged .warning _)
  · rfl

theorem activatePatched_agrees (keeps : own.KeepsRegistry) (reenters : own.Reenters host)
    (busy : w.Busy m slot) (name : String) (points : List Point) :
    Agrees m w (w.own.activatePatched own m name points)
      (w.activatePatched host m name points) := by
  have load := (reenters.load w m slot busy).agrees busy (keeps.load _ m)
  have still := keeps.load w.own m
  simp only [activatePatched]
  generalize own.loadBody w.own m = plain at load still ⊢
  generalize host.loadBody w m = served at load ⊢
  obtain ⟨result, u⟩ := plain
  obtain ⟨answer, v⟩ := served
  obtain ⟨rfl, rfl, noted⟩ := load
  cases answer with
  | error e => exact ⟨rfl, rfl, noted⟩
  | ok body =>
    dsimp only
    generalize Assembly.assemble name points body = assembled
    obtain ⟨applied, result⟩ := assembled
    obtain ⟨warned, unmoved⟩ := v.own_warnFallbacks name applied
    have onward : Notes m w (v.warnFallbacks name applied) :=
      noted.trans (.none (congrArg Journaled.nested unmoved))
    cases result with
    | error e => exact ⟨rfl, warned, onward⟩
    | ok patched =>
      have busy : (v.warnFallbacks name applied).Busy m slot := by
        refine ⟨?_, busy.2⟩
        rw [(v.warnFallbacks_same name applied).1]
        exact (congrArg (·.find? m) still).trans busy.1
      have activate := (reenters.activate _ m slot patched busy).agrees busy
        (keeps.activate _ m patched)
      rw [warned] at activate
      dsimp only
      generalize own.activate (v.own.warnFallbacks name applied) m patched = plain at activate ⊢
      generalize host.activate (v.warnFallbacks name applied) m patched = served at activate ⊢
      obtain ⟨result, x⟩ := plain
      obtain ⟨answer, y⟩ := served
      obtain ⟨rfl, rfl, late⟩ := activate
      cases answer <;> exact ⟨rfl, rfl, onward.trans late⟩

theorem own_slot (reenters : own.Reenters host) (w : World (Journaled σ)) (m : MethodId) :
    w.slot host m = w.own.slot own m := by
  simp only [World.slot, Host.describe, reenters.named, World.own]

theorem find_of_slot {slot : Slot} (known : w.slot host m = .ok slot) :
    w.registry.find? m = some slot := by
  unfold World.slot at known
  split at known
  · next found => rw [found, Except.ok.inj known]
  · cases known

theorem install_agrees (keeps : own.KeepsRegistry) (reenters : own.Reenters host)
    (w : World (Journaled σ)) (m : MethodId) :
    Agrees m w (w.own.install own m) (w.install host m) := by
  have same := own_slot reenters w m
  cases known : w.slot host m with
  | error e =>
    simp only [install, ← same, known]
    exact ⟨rfl, rfl, .none rfl⟩
  | ok slot =>
    cases state : slot.state with
    | installed handle | installing | uninstalling handle =>
      simp only [install, ← same, known, state]
      exact ⟨rfl, rfl, .none rfl⟩
    | unpatched =>
      have busy : (w.withRegistry (w.registry.startInstall m)).Busy m
          { slot with state := .installing, searches := slot.searches + 1 } :=
        ⟨Registry.find_started (find_of_slot known), .inl rfl⟩
      have agrees : Agrees m w
          ((w.own.withRegistry (w.own.registry.startInstall m)).activatePatched own m slot.name
            slot.points) _ :=
        (activatePatched_agrees keeps reenters busy slot.name slot.points).start rfl
      simp only [install, ← same, known, state]
      generalize (w.own.withRegistry (w.own.registry.startInstall m)).activatePatched own m
        slot.name slot.points = plain at agrees ⊢
      generalize (w.withRegistry (w.registry.startInstall m)).activatePatched host m slot.name
        slot.points = served at agrees ⊢
      obtain ⟨result, u⟩ := plain
      obtain ⟨answer, v⟩ := served
      obtain ⟨rfl, rfl, noted⟩ := agrees
      cases answer <;> exact ⟨rfl, rfl, noted⟩

theorem uninstall_agrees (keeps : own.KeepsRegistry) (reenters : own.Reenters host)
    (w : World (Journaled σ)) (m : MethodId) :
    Agrees m w (w.own.uninstall own m) (w.uninstall host m) := by
  have same := own_slot reenters w m
  cases known : w.slot host m with
  | error e =>
    simp only [uninstall, ← same, known]
    exact ⟨rfl, rfl, .none rfl⟩
  | ok slot =>
    cases state : slot.state with
    | unpatched | installing | uninstalling handle =>
      simp only [uninstall, ← same, known, state]
      exact ⟨rfl, rfl, .none rfl⟩
    | installed handle =>
      have busy : (w.setState m (.uninstalling handle)).Busy m
          { slot with state := .uninstalling handle } :=
        ⟨Registry.find_set (find_of_slot known) _, .inr ⟨handle, rfl⟩⟩
      have agrees : Agrees m w
          (own.restore (w.own.setState m (.uninstalling handle)) m handle.saved) _ :=
        ((reenters.restore _ m _ handle.saved busy).agrees busy
          (keeps.restore _ m handle.saved)).start rfl
      simp only [uninstall, ← same, known, state]
      generalize own.restore (w.own.setState m (.uninstalling handle)) m handle.saved = plain
        at agrees ⊢
      generalize host.restore (w.setState m (.uninstalling handle)) m handle.saved = served
        at agrees ⊢
      obtain ⟨result, u⟩ := plain
      obtain ⟨answer, v⟩ := served
      obtain ⟨rfl, rfl, noted⟩ := agrees
      cases answer <;> exact ⟨rfl, rfl, noted⟩

end World

/-! ### Hosts that call back -/

/-- The host itself, with a journal that stays as it is. -/
def Host.quiet (own : Host σ) : Host (Journaled σ) where
  resolve s := own.resolve s.own
  nameOf? s := own.nameOf? s.own
  loadBody w m := ((own.loadBody w.own m).1, (own.loadBody w.own m).2.journaled w.host.nested)
  activate w m body :=
    ((own.activate w.own m body).1, (own.activate w.own m body).2.journaled w.host.nested)
  restore w m body :=
    ((own.restore w.own m body).1, (own.restore w.own m body).2.journaled w.host.nested)

/-- A host that makes the same calls before and after all that it is asked to do for a method. -/
def Host.calling (own : Host σ) (calls : World σ → MethodId → List Call) : Host (Journaled σ) where
  resolve := own.quiet.resolve
  nameOf? := own.quiet.nameOf?
  loadBody w m := serve (own.loadBody · m) m w
  activate w m body := serve (own.activate · m body) m w
  restore w m body := serve (own.restore · m body) m w
where
  callAll (w : World (Journaled σ)) (cs : List Call) : World (Journaled σ) :=
    cs.foldl (fun w c => w.call own.quiet c) w
  serve {α : Type} (work : World σ → α × World σ) (m : MethodId) (w : World (Journaled σ)) :
      α × World (Journaled σ) :=
    let u := callAll w (calls w.own m)
    let v := (work u.own).2.journaled u.host.nested
    ((work u.own).1, callAll v (calls v.own m))

namespace Host

variable {own : Host σ} {calls : World σ → MethodId → List Call} {w : World (Journaled σ)}
  {m : MethodId} {slot : Slot}

/-- Which host serves a call for a busy method makes no difference. -/
theorem calling_call (busy : w.Busy m slot) {c : Call}
    (target : c.Targets (own.calling calls) w m) :
    w.call (own.calling calls) c = w.call own.quiet c := by
  cases target with
  | install =>
    simp only [World.call, Call.performOn, Call.failure?, busy.install]
  | uninstall =>
    simp only [World.call, Call.performOn, Call.failure?, busy.uninstall]
  | register target => rfl

theorem calling_interrupted (busy : w.Busy m slot) {cs : List Call}
    (targets : ∀ c ∈ cs, c.Targets own w.own m) :
    World.Interrupted (own.calling calls) m w (calling.callAll own w cs) := by
  induction cs generalizing w with
  | nil => exact .rest w
  | cons c cs ih =>
    have target : c.Targets (own.calling calls) w m := by
      cases targets c List.mem_cons_self with
      | install => exact .install
      | uninstall => exact .uninstall
      | register target => exact .register target
    have same := calling_call busy target
    obtain ⟨kept, -⟩ := busy.call target
    rw [same] at kept
    refine .more target ?_
    rw [same]
    refine ih (w := w.call own.quiet c) ?_ fun d member => ?_
    · rwa [← World.Busy.own_iff, kept]
    · rw [kept]
      exact targets d (List.mem_cons_of_mem _ member)

theorem calling_reenters (keeps : own.KeepsRegistry)
    (targets : ∀ w m, ∀ c ∈ calls w m, c.Targets own w m) : own.Reenters (own.calling calls) := by
  have serves : ∀ {α : Type} {work : World σ → α × World σ} {w : World (Journaled σ)}
      {m : MethodId} {slot : Slot}, w.Busy m slot → (∀ w, (work w).2.registry = w.registry) →
      World.Interrupts (own.calling calls) m work w (calling.serve own calls work m w) := by
    intro α work w m slot busy keeps
    have before : World.Interrupted (own.calling calls) m w _ :=
      calling_interrupted busy (targets w.own m)
    have same := (before.refused busy).1
    have still : ((work (calling.callAll own w (calls w.own m)).own).2.journaled
        (calling.callAll own w (calls w.own m)).host.nested).Busy m slot := by
      rw [same]
      exact ⟨(congrArg (·.find? m) (keeps w.own)).trans busy.1, busy.2⟩
    exact .last before (calling_interrupted still (targets _ m))
  exact ⟨fun _ _ => rfl, fun _ _ => rfl, fun w m slot busy => serves busy (keeps.load · m),
    fun w m slot body busy => serves busy (keeps.activate · m body),
    fun w m slot body busy => serves busy (keeps.restore · m body)⟩

/-- Calls for a method of a host in memory: both operations, and a registration under the name of
the method. -/
def pestering (w : World Memory) (m : MethodId) : List Call :=
  [.install m, .uninstall m] ++
    match w.host.resolve "guarded" with
    | .ok k => if k = m then [.register ⟨"guarded", []⟩] else []
    | .error _ => []

theorem pestering_targets (w : World Memory) (m : MethodId) :
    ∀ c ∈ pestering w m, c.Targets .memory w m := by
  intro c member
  rcases List.mem_append.mp member with first | later
  · rcases List.mem_pair.mp first with rfl | rfl
    · exact .install
    · exact .uninstall
  · split at later
    · next k resolved =>
      split at later
      · next same =>
        obtain rfl := List.mem_singleton.mp later
        exact .register (same ▸ resolved)
      · cases later
    · cases later

end Host

namespace World

variable {own : Host σ} {host : Host (Journaled σ)}

/-- Patching and restoring a method have the result, and leave the world, that they would without
the calls which the host makes meanwhile for the same method. Each of these calls fails, and finds
and leaves the same registry: the method with its state and its searches, all other methods in their
order, and the dispatch table. -/
theorem nested_calls_refused (keeps : own.KeepsRegistry) (reenters : own.Reenters host)
    (w : World (Journaled σ)) (m : MethodId) :
    (∃ result after more, w.own.install own m = (result, after) ∧
      w.install host m = (result, after.journaled (w.host.nested ++ more)) ∧
      ∀ e ∈ more, e.Refused m) ∧
    ∃ result after more, w.own.uninstall own m = (result, after) ∧
      w.uninstall host m = (result, after.journaled (w.host.nested ++ more)) ∧
      ∀ e ∈ more, e.Refused m := by
  have parts : ∀ {α : Type} {plain : α × World σ} {served : α × World (Journaled σ)},
      Agrees m w plain served → ∃ result after more, plain = (result, after) ∧
        served = (result, after.journaled (w.host.nested ++ more)) ∧ ∀ e ∈ more, e.Refused m := by
    rintro α ⟨result, u⟩ ⟨answer, v⟩ ⟨rfl, rfl, more, grown, refused⟩
    refine ⟨answer, v.own, more, rfl, Prod.ext rfl ?_, refused⟩
    rw [← grown]
    rfl
  exact ⟨parts (install_agrees keeps reenters w m), parts (uninstall_agrees keeps reenters w m)⟩

def guardedWorld : World Memory :=
  (Call.register (guardPatch "guarded")).perform ⟨guardedHost, .empty true, []⟩

theorem pestering_refused : ∃ outcome after more,
    guardedWorld.install .memory ⟨1⟩ = (.ok outcome, after) ∧ outcome.isNew = true ∧
    (guardedWorld.journaled []).install (Host.memory.calling Host.pestering) ⟨1⟩ =
      (.ok outcome, after.journaled more) ∧
    more.map (·.failure) = (List.replicate 4 [some (.busy "guarded"), some (.busy "guarded"),
      some (.methodPatched "guarded")]).flatten ∧
    ∀ e ∈ more, e.Refused ⟨1⟩ := by
  have keeps := Memory.atomic.keepsRegistry
  obtain ⟨⟨result, after, more, plain, served, refused⟩, -⟩ := nested_calls_refused keeps
    (Host.calling_reenters keeps Host.pestering_targets) (guardedWorld.journaled []) ⟨1⟩
  obtain ⟨outcome, ok, new⟩ : ∃ outcome, (guardedWorld.install .memory ⟨1⟩).1 = .ok outcome ∧
      outcome.isNew = true := ⟨_, rfl, rfl⟩
  have failures : ((guardedWorld.journaled []).install (Host.memory.calling Host.pestering)
      ⟨1⟩).2.host.nested.map (·.failure) = (List.replicate 4 [some (.busy "guarded"),
        some (.busy "guarded"), some (.methodPatched "guarded")]).flatten := rfl
  change guardedWorld.install .memory ⟨1⟩ = _ at plain
  rw [plain] at ok
  obtain rfl : result = .ok outcome := ok
  rw [served] at failures
  exact ⟨outcome, after, more, plain, new, served, failures, refused⟩

end World

end Interpose
