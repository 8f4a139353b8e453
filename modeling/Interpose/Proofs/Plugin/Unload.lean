import Interpose.Plugin
import Interpose.Proofs.Registry.Assembled
import Interpose.Proofs.Registry.InstallAll
import Interpose.Proofs.Registry.UninstallAll

/-!
Loading and unloading over a host in memory. A load is a run of the registry at whose end every
method is installed, or it leaves every body as it was. A saved body is refused for no reason but a
lock, so unloading gives back the bodies of all methods that are not locked, and fails if one is.
-/

set_option autoImplicit false
set_option relaxedAutoImplicit false

namespace Interpose

/-! ### What activations leave alone -/

namespace Memory

variable {h : Memory} {m k : MethodId} {body : Body}

def isLocked (h : Memory) (m : MethodId) : Bool := (h.method? m).any (·.locked)

def fixed (h : Memory) (m : MethodId) : Option (String × Body × Bool) :=
  (h.method? m).map fun e => (e.name, e.pristine, e.locked)

theorem locked_fixed (h : Memory) (m : MethodId) : h.isLocked m = (h.fixed m).any (·.2.2) := by
  rw [fixed, Option.any_map]
  rfl

theorem pristine_fixed (h : Memory) (m : MethodId) :
    h.pristineBody? m = (h.fixed m).map (·.2.1) := by
  rw [fixed, Option.map_map]
  rfl

theorem known_fixed (h : Memory) (m : MethodId) : (h.method? m).isSome = (h.fixed m).isSome := by
  rw [fixed, Option.isSome_map]

theorem known_of_fixed {after : Memory} (same : after.fixed m = h.fixed m) :
    (after.method? m).isSome = (h.method? m).isSome := by
  rw [known_fixed, same, known_fixed]

theorem known_pristine (h : Memory) (m : MethodId) :
    (h.method? m).isSome = (h.pristineBody? m).isSome := by
  rw [pristineBody?, Option.isSome_map]

theorem activate_fixed (h : Memory) (m k : MethodId) (body : Body) :
    (h.activate m body).2.fixed k = h.fixed k := by
  unfold activate
  split
  · rfl
  · split
    · rfl
    · split
      · rw [fixed, method_modify]
        split
        · rw [Option.map_map]
          rfl
        · rfl
      · rfl

theorem unlocked_of_granted (granted : (h.activate m body).1 = .ok ()) : h.isLocked m = false := by
  unfold activate at granted
  split at granted
  · cases granted
  · next e found =>
    split at granted
    · cases granted
    · next unlocked => simpa [isLocked, found] using unlocked

theorem locked_of_refused {e : HostError} (refused : (h.activate m body).1 = .error e)
    (known : (h.method? m).isSome) (sound : body.danglingLabels = []) : h.isLocked m = true := by
  obtain ⟨entry, found⟩ := Option.isSome_iff_exists.mp known
  by_contra unlocked
  have accepted := activate_accepts found (by simpa [isLocked, found] using unlocked) sound
  rw [refused] at accepted
  cases accepted

end Memory

namespace World

variable {w u : World Memory} {m k : MethodId}

theorem install_fixed (w : World Memory) (m k : MethodId) :
    (w.install .memory m).2.host.fixed k = w.host.fixed k := by
  have tried : ∀ (w : World Memory) name points,
      (w.activatePatched .memory m name points).2.host.fixed k = w.host.fixed k := by
    intro w name points
    cases loaded : w.host.loadBody m with
    | error e => simp [activatePatched, Host.memory, loaded]
    | ok body =>
      rcases assembled : Assembly.assemble name points body with ⟨applied, e | patched⟩
      · have same := (w.warnFallbacks_same name applied).2
        simp [activatePatched, Host.memory, loaded, assembled, same]
      · have same := (w.warnFallbacks_same name applied).2
        have kept := w.host.activate_fixed m k patched
        rcases answered : w.host.activate m patched with ⟨e | done, after⟩
        all_goals
          rw [answered] at kept
          simpa [activatePatched, Host.memory, Host.memory.replace, loaded, assembled, same,
            answered] using kept
  unfold install
  split
  · rfl
  · next slot _ =>
    split
    · rfl
    · rfl
    · rfl
    · have here := tried (w.withRegistry (w.registry.startInstall m)) slot.name slot.points
      dsimp only
      split <;> next done =>
        rw [done] at here
        exact here

theorem uninstall_fixed (w : World Memory) (m k : MethodId) :
    (w.uninstall .memory m).2.host.fixed k = w.host.fixed k := by
  unfold uninstall
  split
  · rfl
  · split
    · rfl
    · rfl
    · rfl
    · next handle _ =>
      have kept := w.host.activate_fixed m k handle.saved
      split <;> next done =>
        simp only [Host.memory, Host.memory.replace, Prod.mk.injEq] at done
        rw [← done.2]
        exact kept

theorem register_host {σ : Type} (host : Host σ) (w : World σ) (patch : MethodPatch) :
    (w.register host patch).2.host = w.host := by
  unfold register
  split
  · rfl
  · split <;> rfl

end World

theorem Call.perform_fixed (w : World Memory) (c : Call) (k : MethodId) :
    (c.perform w).host.fixed k = w.host.fixed k := by
  rw [c.perform_eq_on]
  refine c.performOn_preserves (P := fun (u : World Memory) => u.host.fixed k = w.host.fixed k)
    (fun u patch same => ?_) (fun u m same => (u.install_fixed m k).trans same)
    (fun u m same => (u.uninstall_fixed m k).trans same) (fun _ _ _ same => same) rfl
  rwa [World.register_host]

namespace World

variable {w u : World Memory} {m k : MethodId}

/-- What was installed can be given back: every method is known to the host and not on its way, and
the saved bodies load. -/
structure Restorable (w : World Memory) : Prop where
  distinct : w.registry.methods.Nodup
  settled : ∀ k ∈ w.registry.methods, w.Settled k
  known : ∀ k ∈ w.registry.methods, (w.host.method? k).isSome
  loads : ∀ k handle, w.registry.state? k = some (.installed handle) →
    ∃ s, Stream.ofBody handle.saved = .ok s

theorem Restorable.over {host : Memory} (restorable : w.Restorable)
    (known : ∀ k ∈ w.registry.methods, (host.method? k).isSome) (log : List LogLine) :
    Restorable ⟨host, w.registry, log⟩ :=
  ⟨restorable.distinct, restorable.settled, known, restorable.loads⟩

/-- A method whose patch can be taken back gives back its saved body. Any other stays as it is. -/
inductive Unloaded (w u : World Memory) (k : MethodId) : Except PatchError Bool → Prop
  | idle : k ∉ w.registry.installed → SameAt Memory.method? k w u → Unloaded w u k (.ok false)
  | restored {handle : Handle} : w.registry.state? k = some (.installed handle) →
      w.host.isLocked k = false → u.registry.state? k = some .unpatched →
      u.host.activeBody? k = some handle.saved → Unloaded w u k (.ok true)
  | locked {name : String} {e : HostError} : k ∈ w.registry.installed →
      w.host.isLocked k = true → SameAt Memory.method? k w u →
      Unloaded w u k (.error (.restoreFailed name e))

theorem TakenBack.unloaded {result : Except PatchError Bool} (restorable : w.Restorable)
    (member : k ∈ w.registry.methods)
    (back : TakenBack .memory Memory.method? (Option.map MemoryMethod.active) w u k result) :
    Unloaded w u k result := by
  cases back with
  | idle unpatched same =>
    refine .idle ?_ same
    simp [Registry.mem_installed_iff restorable.distinct, unpatched]
  | restored installed grants unpatched runs =>
    obtain ⟨x, y, granted, there⟩ := grants
    have unlocked : x.host.isLocked k = false :=
      Memory.unlocked_of_granted (congrArg Prod.fst granted)
    rw [Memory.isLocked, there] at unlocked
    exact .restored installed unlocked unpatched runs
  | @refused slot handle _ found state refuses same =>
    obtain ⟨x, y, refusal, refused, there, rfl⟩ := refuses
    have installed : w.registry.state? k = some (.installed handle) := by
      rw [Registry.state?, found, Option.map_some, state]
    obtain ⟨s, loaded⟩ := restorable.loads k handle installed
    have known : (x.host.method? k).isSome := there ▸ restorable.known k member
    have locked : x.host.isLocked k = true := Memory.locked_of_refused (congrArg Prod.fst refused)
      known (Body.dangling_nil_iff.mpr ⟨s, loaded⟩)
    rw [Memory.isLocked, there] at locked
    exact .locked ((Registry.mem_installed_iff restorable.distinct).mpr ⟨handle, installed⟩) locked
      same

namespace Unloaded

variable {result : Except PatchError Bool} {handle : Handle}

theorem stays (unloaded : Unloaded w u k result) (distinct : w.registry.methods.Nodup)
    (locked : k ∈ w.registry.installed → w.host.isLocked k = true) :
    SameAt Memory.method? k w u := by
  cases unloaded with
  | idle _ same | locked _ _ same => exact same
  | restored installed unlocked _ _ =>
    have locked := locked ((Registry.mem_installed_iff distinct).mpr ⟨_, installed⟩)
    rw [unlocked] at locked
    cases locked

theorem gives_back (unloaded : Unloaded w u k result) (distinct : w.registry.methods.Nodup)
    (installed : w.registry.state? k = some (.installed handle))
    (unlocked : w.host.isLocked k = false) : tookBack result = true ∧
      u.registry.state? k = some .unpatched ∧ u.host.activeBody? k = some handle.saved := by
  have member := (Registry.mem_installed_iff distinct).mpr ⟨handle, installed⟩
  cases unloaded with
  | idle outside _ => exact absurd member outside
  | restored there _ unpatched active =>
    obtain rfl := PatchState.installed.inj (Option.some.inj (there.symm.trans installed))
    exact ⟨rfl, unpatched, active⟩
  | locked _ locked _ =>
    rw [unlocked] at locked
    cases locked

theorem installed_of_tookBack (unloaded : Unloaded w u k result)
    (distinct : w.registry.methods.Nodup) (took : tookBack result = true) :
    k ∈ w.registry.installed := by
  cases unloaded with
  | idle _ _ | locked _ _ _ => cases took
  | restored installed _ _ _ => exact (Registry.mem_installed_iff distinct).mpr ⟨_, installed⟩

theorem failure (unloaded : Unloaded w u k result) {e : PatchError}
    (failed : failure? result = some e) : k ∈ w.registry.installed ∧ w.host.isLocked k = true ∧
      ∃ name source, e = .restoreFailed name source := by
  cases unloaded with
  | idle _ _ | restored _ _ _ _ => cases failed
  | locked member locked _ => exact ⟨member, locked, _, _, (Option.some.inj failed).symm⟩

theorem fails (unloaded : Unloaded w u k result) (member : k ∈ w.registry.installed)
    (locked : w.host.isLocked k = true) : failure? result ≠ none := by
  cases unloaded with
  | idle outside _ => exact absurd member outside
  | restored _ unlocked _ _ =>
    rw [unlocked] at locked
    cases locked
  | locked _ _ _ => simp [failure?]

variable {answer : MethodId → Except PatchError Bool} {ms : List MethodId}

theorem none_fails (unloaded : ∀ k ∈ ms, Unloaded w u k (answer k))
    (unlocked : ∀ k ∈ w.registry.installed, w.host.isLocked k = false) :
    ms.findSome? (failure? ∘ answer) = none := by
  refine List.findSome?_eq_none_iff.mpr fun k member => Option.eq_none_iff_forall_ne_some.mpr ?_
  intro e failed
  obtain ⟨installed, locked, -⟩ := (unloaded k member).failure failed
  rw [unlocked k installed] at locked
  cases locked

theorem first_failure (unloaded : ∀ k ∈ ms, Unloaded w u k (answer k)) (known : k ∈ ms)
    (member : k ∈ w.registry.installed) (locked : w.host.isLocked k = true) :
    ∃ name source, ms.findSome? (failure? ∘ answer) = some (.restoreFailed name source) := by
  cases failing : ms.findSome? (failure? ∘ answer) with
  | none =>
    exact absurd (List.findSome?_eq_none_iff.mp failing k known)
      ((unloaded k known).fails member locked)
  | some e =>
    obtain ⟨j, there, failed⟩ := List.exists_of_findSome?_eq_some failing
    obtain ⟨-, -, name, source, rfl⟩ := (unloaded j there).failure failed
    exact ⟨name, source, rfl⟩

end Unloaded

/-- What becomes of the world of a registry that is told to uninstall everything. -/
structure UninstallsAll (w u : World Memory) (result : Except PatchError Nat) : Prop where
  methods : u.registry.methods = w.registry.methods
  fixed : ∀ k, u.host.fixed k = w.host.fixed k
  stays : ∀ k, (k ∈ w.registry.installed → w.host.isLocked k = true) →
    SameAt Memory.method? k w u
  gives_back : ∀ k handle, w.registry.state? k = some (.installed handle) →
    w.host.isLocked k = false →
    u.registry.state? k = some .unpatched ∧ u.host.activeBody? k = some handle.saved
  complete : (∀ k ∈ w.registry.installed, w.host.isLocked k = false) →
    result = .ok w.registry.installed.length
  fails : (∃ k ∈ w.registry.installed, w.host.isLocked k = true) →
    ∃ name source, result = .error (.restoreFailed name source)

theorem Restorable.uninstallAll (restorable : w.Restorable) :
    ∃ result u, w.uninstallAll .memory = (result, u) ∧ UninstallsAll w u result := by
  obtain ⟨answer, u, -, done, outside, each⟩ :=
    uninstallAll_takenBack Memory.atomic restorable.distinct restorable.settled
  have distinct := restorable.distinct
  have unloaded : ∀ k ∈ w.registry.methods, Unloaded w u k (answer k) := fun k member =>
    (each k member).unloaded restorable member
  have backwards : ∀ k ∈ w.registry.methods.reverse, Unloaded w u k (answer k) := fun k member =>
    unloaded k (List.mem_reverse.mp member)
  refine ⟨_, u, done, ?_, fun k => ?_, fun k locked => ?_, fun k handle installed unlocked => ?_,
    fun unlocked => ?_, fun ⟨k, member, locked⟩ => ?_⟩
  · have methods := uninstallAll_preserves (P := fun u => u.registry.methods = w.registry.methods)
      (fun u m same => (u.uninstall_methods Memory.atomic m).trans same) (w := w) rfl
    rwa [done] at methods
  · have fixed := Call.uninstallAll.perform_fixed w k
    rwa [Call.perform, done] at fixed
  · by_cases member : k ∈ w.registry.methods
    · exact (unloaded k member).stays distinct locked
    · exact outside k member
  · have member := (Registry.mem_installed_iff distinct).mpr ⟨handle, installed⟩
    exact ((unloaded k (Registry.mem_of_installed member)).gives_back distinct installed unlocked).2
  · rw [Unloaded.none_fails backwards unlocked, Registry.length_installed distinct]
    refine congrArg Except.ok (List.countP_congr fun k member => ?_)
    rw [decide_eq_true_iff]
    refine ⟨(unloaded k member).installed_of_tookBack distinct, fun inside => ?_⟩
    obtain ⟨handle, installed⟩ := (Registry.mem_installed_iff distinct).mp inside
    exact ((unloaded k member).gives_back distinct installed (unlocked k inside)).1
  · obtain ⟨name, source, first⟩ := Unloaded.first_failure backwards
      (List.mem_reverse.mpr (Registry.mem_of_installed member)) member locked
    exact ⟨name, source, by rw [first]⟩

namespace UninstallsAll

variable {result : Except PatchError Nat} {severity : Severity} {text : String}

theorem locked_iff (all : UninstallsAll w u result) (k : MethodId) :
    u.host.isLocked k = w.host.isLocked k := by
  rw [Memory.locked_fixed, all.fixed, Memory.locked_fixed]

theorem stays_or_unpatched (all : UninstallsAll w u result) (distinct : w.registry.methods.Nodup)
    (k : MethodId) :
    (k ∈ w.registry.installed → w.host.isLocked k = true) ∧ SameAt Memory.method? k w u ∨
      u.registry.state? k = some .unpatched := by
  by_cases locked : k ∈ w.registry.installed → w.host.isLocked k = true
  · exact .inl ⟨locked, all.stays k locked⟩
  · obtain ⟨member, unlocked⟩ := Classical.not_imp.mp locked
    obtain ⟨handle, installed⟩ := (Registry.mem_installed_iff distinct).mp member
    exact .inr (all.gives_back k handle installed (by simpa using unlocked)).1

theorem leaves_locked (all : UninstallsAll w u result) (distinct : w.registry.methods.Nodup)
    {handle : Handle} (installed : u.registry.state? k = some (.installed handle)) :
    w.registry.state? k = some (.installed handle) ∧ w.host.isLocked k = true := by
  rcases all.stays_or_unpatched distinct k with ⟨locked, same⟩ | unpatched
  · have before := same.state.symm.trans installed
    exact ⟨before, locked ((Registry.mem_installed_iff distinct).mpr ⟨handle, before⟩)⟩
  · rw [unpatched] at installed
    cases installed

theorem restorable (all : UninstallsAll w u result) (before : w.Restorable) : u.Restorable where
  distinct := all.methods ▸ before.distinct
  settled k member := by
    rcases all.stays_or_unpatched before.distinct k with ⟨-, same⟩ | unpatched
    · rw [Settled, same.state]
      exact before.settled k (all.methods ▸ member)
    · exact .inl unpatched
  known k member := by
    rw [Memory.known_of_fixed (all.fixed k)]
    exact before.known k (all.methods ▸ member)
  loads k handle installed :=
    before.loads k handle (all.leaves_locked before.distinct installed).1

theorem none_left (all : UninstallsAll w u result) (before : w.Restorable)
    (unlocked : ∀ k ∈ w.registry.installed, w.host.isLocked k = false) :
    u.registry.installed = [] := by
  refine List.eq_nil_iff_forall_not_mem.mpr fun k member => ?_
  obtain ⟨handle, installed⟩ :=
    (Registry.mem_installed_iff (all.restorable before).distinct).mp member
  obtain ⟨there, locked⟩ := all.leaves_locked before.distinct installed
  rw [unlocked k ((Registry.mem_installed_iff before.distinct).mpr ⟨handle, there⟩)] at locked
  cases locked

theorem of_logged (all : UninstallsAll (w.logged severity text) u result) :
    UninstallsAll w u result :=
  ⟨all.methods, all.fixed, fun k locked => ⟨(all.stays k locked).slot, (all.stays k locked).entry⟩,
    all.gives_back, all.complete, all.fails⟩

theorem logged (all : UninstallsAll w u result) :
    UninstallsAll w (u.logged severity text) result :=
  ⟨all.methods, all.fixed, fun k locked => ⟨(all.stays k locked).slot, (all.stays k locked).entry⟩,
    all.gives_back, all.complete, all.fails⟩

end UninstallsAll

/-! ### Runs -/

variable {kept : MethodId → Prop} {strict : Bool} {start : Memory}

theorem Run.assembled (run : Run kept strict start w) : w.registry.Assembled := by
  induction run with
  | new => exact Registry.assembled_empty strict
  | @call w c _ ih =>
    obtain ⟨new, enrolls⟩ := c.enrolls Memory.atomic.keepsRegistry.operates w
    rw [c.perform_eq_on]
    exact enrolls.evolves.assembled ih
  | lock _ _ _ ih | other _ _ _ ih => exact ih

theorem Run.restorable (run : Run (fun _ => True) strict start w) : w.Restorable := by
  have parts : ∀ k ∈ w.registry.methods, w.Settled k ∧ (w.host.method? k).isSome := by
    intro k member
    obtain ⟨slot, found⟩ := find_of_mem member
    have intact : Intact start w k := run.intact trivial
    simp only [Intact, found] at intact
    have state : w.registry.state? k = some slot.state := by rw [Registry.state?, found]; rfl
    obtain ⟨body, -, ⟨unpatched, active⟩ | ⟨handle, installed, -, active⟩⟩ := intact
    · obtain ⟨e, known, -⟩ := Option.map_eq_some_iff.mp active
      exact ⟨.inl (state.trans (congrArg some unpatched)), by rw [known]; rfl⟩
    · obtain ⟨e, known, -⟩ := Option.map_eq_some_iff.mp active
      exact ⟨.inr ⟨handle, state.trans (congrArg some installed)⟩, by rw [known]; rfl⟩
  refine ⟨run.distinct, fun k member => (parts k member).1, fun k member => (parts k member).2,
    fun k handle installed => ?_⟩
  obtain ⟨slot, found, state⟩ := Option.map_eq_some_iff.mp installed
  obtain ⟨s, t, loaded, -⟩ := Assembly.assemble_ok (run.assembled k slot handle found state)
  exact ⟨s, loaded⟩

theorem Intact.of_installed {handle : Handle} (intact : Intact start w m)
    (installed : w.registry.state? m = some (.installed handle)) :
    start.activeBody? m = some handle.saved ∧ w.host.activeBody? m = some handle.patched := by
  obtain ⟨slot, found, state⟩ := Option.map_eq_some_iff.mp installed
  simp only [Intact, found, state] at intact
  obtain ⟨body, origin, ⟨impossible, -⟩ | ⟨_, same, rfl, active⟩⟩ := intact
  · cases impossible
  · obtain rfl := PatchState.installed.inj same
    exact ⟨origin, active⟩

theorem Intact.of_not_installed (intact : Intact start w m)
    (idle : ∀ handle, w.registry.state? m ≠ some (.installed handle)) :
    w.host.activeBody? m = start.activeBody? m := by
  cases found : w.registry.find? m with
  | none => simpa only [Intact, found] using intact
  | some slot =>
    simp only [Intact, found] at intact
    obtain ⟨body, origin, ⟨-, active⟩ | ⟨handle, installed, -⟩⟩ := intact
    · exact active.trans origin.symm
    · refine absurd ?_ (idle handle)
      rw [Registry.state?, found, Option.map_some, installed]

theorem installAll_methods (w : World Memory) :
    (w.installAll .memory).2.registry.methods = w.registry.methods :=
  installEach_preserves (P := fun u => u.registry.methods = w.registry.methods)
    (fun u m same => (u.install_methods Memory.atomic m).trans same)
    (fun u m same => (u.uninstall_methods Memory.atomic m).trans same) (fun _ _ _ same => same) [] _
    rfl

theorem installAll_ok {outcomes : List InstallOutcome} (distinct : w.registry.methods.Nodup)
    (installed : w.installAll .memory = (.ok outcomes, u)) :
    ∀ k ∈ u.registry.methods, ∃ handle, u.registry.state? k = some (.installed handle) := by
  have methods := w.installAll_methods
  rw [installed] at methods
  rcases installs_cases .memory w w.registry.methods with ⟨outcomes', after, installs⟩ |
    ⟨front, m, back, _, _, refusal, v, whole, installs, refused⟩
  · rw [installAll, installs.installEach, List.reverse_nil, List.nil_append] at installed
    cases installed
    have each : List.Forall₂ (fun k _ => (∃ handle, u.registry.state? k =
        some (.installed handle)) ∧ True) w.registry.methods outcomes :=
      (installs.settles Memory.atomic distinct fun _ _ => .refl).2.imp
        fun _ o settles => ⟨⟨o.handle, settles.1⟩, trivial⟩
    exact methods ▸ ((List.forall₂_and_left _ _).mp each).1
  · have rolled := installs.installEach_failing refused [] back rfl
    rw [← whole] at rolled
    rw [installAll, rolled] at installed
    cases installed

theorem installAll_failed {e : PatchError} (distinct : w.registry.methods.Nodup)
    (failed : w.installAll .memory = (.error e, u)) (k : MethodId) :
    u.view Memory.method? (Option.map MemoryMethod.active) k =
      w.view Memory.method? (Option.map MemoryMethod.active) k := by
  rcases installs_cases .memory w w.registry.methods with ⟨outcomes, after, installs⟩ |
    ⟨front, m, back, outcomes, after, refusal, v, whole, installs, refused⟩
  · rw [installAll, installs.installEach] at failed
    cases failed
  rw [whole] at distinct
  obtain ⟨-, distinctNew, newly, old⟩ := installs.failing_settles Memory.atomic distinct refused
  have rolled := installs.installEach_failing refused [] back rfl
  rw [List.reverse_nil, List.nil_append, ← whole] at rolled
  generalize newMethods outcomes = new at distinctNew newly old rolled
  obtain ⟨taken, rest, after, parts, takes, others, before, -, outcome⟩ :=
    takesBack_new Memory.atomic (List.nodup_reverse.mpr distinctNew) fun k member =>
      newly k (List.mem_reverse.mp member)
  rcases outcome with rfl | ⟨_, _, _, _, _, _, -, -, -, there, refuses⟩
  case inr => exact absurd refuses there.not_refused
  rw [List.append_nil] at parts
  subst parts
  rw [installAll, rolled, takes.rollBack] at failed
  cases failed
  by_cases member : k ∈ new.reverse
  · exact before k member
  · rw [(others k member).view, old k (by simpa using member)]

end World

/-! ### Loading -/

namespace Plugin

open World (Run)

variable {settings : Settings} {patches : List MethodPatch} {kept : MethodId → Prop}
  {strict : Bool} {start : Memory} {w u : World Memory}

theorem registerEach_host {σ : Type} (host : Host σ) (w : World σ) (patches : List MethodPatch) :
    (registerEach w host patches).2.host = w.host := by
  induction patches generalizing w with
  | nil => rfl
  | cons patch patches ih =>
    have same := w.register_host host patch
    unfold registerEach
    split
    · next done =>
      rw [done] at same
      exact (ih _).trans same
    · next done =>
      rw [done] at same
      exact same

theorem registerEach_run (run : Run kept strict start w)
    (registered : registerEach w .memory patches = (.ok (), u)) : Run kept strict start u := by
  induction patches generalizing w with
  | nil =>
    cases registered
    exact run
  | cons patch patches ih =>
    have next := run.call (.register patch)
    unfold registerEach at registered
    split at registered
    · next done =>
      rw [Call.perform, done] at next
      exact ih next registered
    · cases registered

theorem load_ok (loaded : load .memory settings patches start = (.ok (), w)) :
    Run (fun _ => True) settings.strict start w ∧
      ∀ k ∈ w.registry.methods, ∃ handle, w.registry.state? k = some (.installed handle) := by
  unfold load at loaded
  split at loaded
  · cases loaded
  next u registered =>
  have run : Run (fun _ => True) settings.strict start u := registerEach_run .new registered
  split at loaded
  · next outcomes v installed =>
    cases loaded
    have next := run.call .installAll
    rw [Call.perform, installed] at next
    exact ⟨next, World.installAll_ok run.distinct installed⟩
  · cases loaded

theorem load_fixed (loaded : load .memory settings patches start = (.ok (), w)) (m : MethodId) :
    w.host.fixed m = start.fixed m := by
  have same := registerEach_host .memory (fresh settings start) patches
  unfold load at loaded
  split at loaded
  · cases loaded
  next u registered =>
  rw [registered] at same
  split at loaded
  · next done =>
    cases loaded
    have kept := Call.installAll.perform_fixed u m
    rw [Call.perform, done] at kept
    rw [kept, same]
    rfl
  · cases loaded

/-- A plugin that fails to load leaves every body as it was. -/
theorem load_failed {e : PatchError} (failed : load .memory settings patches start = (.error e, w))
    (k : MethodId) : w.host.activeBody? k = start.activeBody? k := by
  unfold load at failed
  split at failed
  · next registered =>
    cases failed
    have same := registerEach_host .memory (fresh settings start) patches
    rw [registered] at same
    exact congrArg (·.activeBody? k) same
  next u registered =>
  have run : Run (fun _ => True) settings.strict start u := registerEach_run .new registered
  have same := registerEach_host .memory (fresh settings start) patches
  rw [registered] at same
  split at failed
  · cases failed
  · next v refused =>
    cases failed
    have view := World.installAll_failed run.distinct refused k
    exact (congrArg Prod.snd view).trans (congrArg (·.activeBody? k) same)

end Plugin

end Interpose
